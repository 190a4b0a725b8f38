import Celegraph.Lib.LockOrder
import Mathlib.Data.DFinsupp.WellFounded

/-!
# Progress

- `Runs.Inevitably step own P s`: from `s`, steps whose actions are `own` reach a state with `P` whatever steps these
  are, and there is one until they do. `Inevitably.of_wellFounded` is the rule: a measure drops with each of them.
- `Pool.wellFounded_code`: the code of finitely many threads gets shorter with every step of one of them.
- `Pool.Disciplined.exists_step`: in a pool whose threads follow a lock order, one can move, unless they have all ended
  or one of them has crashed.
-/

namespace Runs

variable {σ ι β : Type*} {step : σ → ι → Option σ} {own : ι → Bool} {P : σ → Prop} {s : σ}

/-- However the steps with `own` actions are chosen, they lead to a state with `P`. -/
inductive Inevitably (step : σ → ι → Option σ) (own : ι → Bool) (P : σ → Prop) : σ → Prop
  | now {s : σ} : P s → Inevitably step own P s
  | later {s : σ} : (∃ a s', own a = true ∧ step s a = some s') →
      (∀ a s', own a = true → step s a = some s' → Inevitably step own P s') → Inevitably step own P s

/-- A measure drops with every step, and there is one while `P` does not hold. -/
theorem Inevitably.of_wellFounded {r : β → β → Prop} (hr : WellFounded r) {I : σ → Prop} (f : σ → β)
    (hstep : ∀ s a s', I s → own a = true → step s a = some s' → I s' ∧ r (f s') (f s))
    (hmove : ∀ s, I s → ¬P s → ∃ a s', own a = true ∧ step s a = some s') (h : I s) : Inevitably step own P s := by
  induction hb : f s using hr.induction generalizing s with
  | _ b ih =>
    by_cases hP : P s
    · exact .now hP
    · refine .later (hmove s h hP) fun a s' ha hst => ?_
      obtain ⟨hI, hlt⟩ := hstep s a s' h ha hst
      exact ih _ (hb ▸ hlt) hI rfl

end Runs

namespace Prog

variable {Op : Type → Type} {μ ω α : Type}

/-- What is left of a program after its next action. -/
inductive Next : Prog Op μ ω α → Prog Op μ ω α → Prop
  | lock (m : μ) (k : Prog Op μ ω α) : Next k (.lock m k)
  | unlock (m : μ) (k : Prog Op μ ω α) : Next k (.unlock m k)
  | call {β : Type} (o : Op β) (k : β → Prog Op μ ω α) (b : β) : Next (k b) (.call o k)
  | send (d : ω) (k : Prog Op μ ω α) : Next k (.send d k)

theorem wellFounded_next : WellFounded (Next : Prog Op μ ω α → Prog Op μ ω α → Prop) := by
  refine ⟨fun p => ?_⟩
  induction p with
  | lock _ _ ih | unlock _ _ ih | send _ _ ih =>
    refine ⟨_, fun k hk => ?_⟩
    cases hk
    exact ih
  | call _ _ ih =>
    refine ⟨_, fun k hk => ?_⟩
    cases hk
    exact ih _
  | pure | throw | undefined => exact ⟨_, fun k hk => by cases hk⟩

end Prog

namespace Pool

variable {τ : Type} {Op : Type → Type} {σ μ ω : Type} [DecidableEq τ]

/-- One of the threads goes on. -/
def Shorter (c' c : τ → Prog Op μ ω Unit) : Prop := ∃ t k, Prog.Next k (c t) ∧ c' = Function.update c t k

theorem wellFounded_code [Finite τ] : WellFounded fun c' c : τ → Prog Op μ ω Unit => Shorter c' c := by
  refine Subrelation.wf ?_ (Pi.Lex.wellFounded (WellOrderingRel : τ → τ → Prop) fun _ => Prog.wellFounded_next)
  rintro c' c ⟨t, k, hk, rfl⟩
  refine ⟨t, fun u hu => ?_, by rwa [Function.update_self]⟩
  have hut : u ≠ t := by
    rintro rfl
    exact irrefl u hu
  rw [Function.update_of_ne hut]

/-- The behaviour of a thread is undefined, or an exception has escaped from it. -/
def Crashed (p : Pool τ Op σ μ ω) : Prop := ∃ t, p.code t = .throw ∨ p.code t = .undefined

variable [DecidableEq μ] [Effect Op σ] {p p' : Pool τ Op σ μ ω} {t : τ}

theorem shorter_of_step (h : p.step t = some p') : Shorter p'.code p.code := by
  rcases step_cases h with ⟨m, k, hc, _, _, hcode⟩ | ⟨β, o, k, hc, _, _, hcode⟩ | ⟨d, k, hc, _, _, hcode⟩
  · rcases hc with hc | hc
    · exact ⟨t, k, hc ▸ .lock m k, hcode⟩
    · exact ⟨t, k, hc ▸ .unlock m k, hcode⟩
  · exact ⟨t, _, hc ▸ .call o k _, hcode⟩
  · exact ⟨t, k, hc ▸ .send d k, hcode⟩

/-- A thread that cannot move has ended, has crashed, or waits for a mutex. -/
theorem code_of_step_eq_none (h : p.step t = none) :
    p.code t = .pure () ∨ (p.code t = .throw ∨ p.code t = .undefined) ∨
      ∃ m k u, p.code t = .lock m k ∧ p.owner m = some u := by
  unfold step at h
  split at h
  · rename_i hc
    exact .inl hc
  · rename_i hc
    exact .inr (.inl (.inl hc))
  · rename_i hc
    exact .inr (.inl (.inr hc))
  · rename_i m k hc
    split at h
    · cases h
    · rename_i hne
      obtain ⟨u, hu⟩ := Option.ne_none_iff_exists'.mp hne
      exact .inr (.inr ⟨m, k, u, hc, hu⟩)
  all_goals cases h

/-- **A thread that follows the lock order can move**, unless all have ended or one has crashed. -/
theorem Disciplined.exists_step {rank : μ → Nat} (h : p.Disciplined rank) {bound : Nat} (hbound : ∀ m, rank m ≤ bound)
    (hcrash : ¬p.Crashed) (hcode : p.code t ≠ .pure ()) : ∃ u p', p.step u = some p' := by
  by_contra hnone
  have hstuck (u : τ) (hu : p.code u ≠ .pure ()) : ∃ m k v, p.code u = .lock m k ∧ p.owner m = some v := by
    have hst : p.step u = none := by
      by_contra hst
      obtain ⟨p', hp'⟩ := Option.ne_none_iff_exists'.mp hst
      exact hnone ⟨u, p', hp'⟩
    exact ((code_of_step_eq_none hst).resolve_left hu).resolve_left fun hc => hcrash ⟨u, hc⟩
  -- each waits for one that has not ended, since one that has ended owns nothing
  refine h.not_circular hbound (S := fun u => p.code u ≠ .pure ()) (fun u hu => ?_) t hcode
  obtain ⟨m, k, v, hc, hv⟩ := hstuck u hu
  exact ⟨m, k, hc, v, fun hidle => h.owns_nil hidle m hv, hv⟩

end Pool
