import Celegraph.Lib.Pool

/-!
# Lock orders

- `Prog.Ordered rank Q held p`: a program that holds the mutexes `held` locks mutexes of a higher rank than all it
  holds only, unlocks what it holds, and returns with mutexes that satisfy `Q`; on every path, whatever its calls
  return.
- `Prog.Balanced rank held p`: it returns with those that it started with.
- `Pool.Disciplined`: every thread of a pool follows the order and returns with none; steps keep it.
- `Pool.Disciplined.not_circular`: threads of such a pool do not wait for each other in a circle.
-/

namespace Prog

variable {Op : Type → Type} {μ ω α β : Type} [DecidableEq μ]

def Ordered (rank : μ → Nat) (Q : List μ → Prop) : List μ → Prog Op μ ω α → Prop
  | held, .pure _ => Q held
  | held, .lock m k => (∀ h ∈ held, rank h < rank m) ∧ Ordered rank Q (m :: held) k
  | held, .unlock m k => m ∈ held ∧ Ordered rank Q (held.erase m) k
  | held, .call _ k => ∀ b, Ordered rank Q held (k b)
  | held, .send _ k => Ordered rank Q held k
  | _, .throw | _, .undefined => True

abbrev Balanced (rank : μ → Nat) (held : List μ) (p : Prog Op μ ω α) : Prop := Ordered rank (· = held) held p

variable {rank : μ → Nat} {held : List μ}

/-- One program after another. -/
theorem Ordered.bind {P Q : List μ → Prop} {p : Prog Op μ ω α} {f : α → Prog Op μ ω β} (h : Ordered rank P held p)
    (hf : ∀ a held', P held' → Ordered rank Q held' (f a)) : Ordered rank Q held (p >>= f) := by
  induction p generalizing held with
  | pure a => exact hf a held h
  | lock _ _ ih | unlock _ _ ih => exact ⟨h.1, ih h.2⟩
  | call _ _ ih => exact fun b => ih b (h b)
  | send _ _ ih => exact ih h
  | throw | undefined => trivial

theorem Balanced.bind {p : Prog Op μ ω α} {f : α → Prog Op μ ω β} (h : Balanced rank held p)
    (hf : ∀ a, Balanced rank held (f a)) : Balanced rank held (p >>= f) := by
  refine Ordered.bind h fun a held' hheld => ?_
  subst hheld
  exact hf a

/-- What a program in the order holds when it has run alone. -/
theorem Ordered.run {σ : Type} [Effect Op σ] {Q : List μ → Prop} {p : Prog Op μ ω α} {s s' : σ} {held' : List μ} {a : α}
    {out : List ω} (h : Ordered rank Q held p) (hrun : p.run s held = .ok a s' held' out) : Q held' := by
  induction p generalizing s held out with
  | pure a =>
    cases hrun
    exact h
  | lock m k ih | unlock m k ih =>
    simp only [Prog.run] at hrun
    split at hrun
    · first
      | exact ih h.2 hrun
      | cases hrun
    · first
      | exact ih h.2 hrun
      | cases hrun
  | call o k ih => exact ih _ (h _) hrun
  | send d k ih =>
    simp only [Prog.run] at hrun
    cases hk : k.run s held with
    | ok b s₁ held₁ out₁ =>
      rw [hk, Outcome.prepend_ok, Outcome.ok.injEq] at hrun
      obtain ⟨rfl, rfl, rfl, rfl⟩ := hrun
      exact ih h hk
    | exception | undefined | deadlock =>
      rw [hk] at hrun
      cases hrun
  | throw | undefined => cases hrun

/-- A scope with a lock of a higher rank. -/
theorem Balanced.withLock {m : μ} {p : Prog Op μ ω α} (hm : ∀ h ∈ held, rank h < rank m)
    (h : Balanced rank (m :: held) p) : Balanced rank held (withLock m p) := by
  refine ⟨hm, Ordered.bind (p := p) h fun a held' hheld => ?_⟩
  subst hheld
  exact ⟨List.mem_cons_self, show (m :: held).erase m = held from List.erase_cons_head m held⟩

end Prog

namespace Pool

variable {τ : Type} {Op : Type → Type} {σ μ ω : Type} [DecidableEq τ] [DecidableEq μ]

/-- The mutexes that thread `t` owns. -/
def Owns (p : Pool τ Op σ μ ω) (t : τ) (held : List μ) : Prop := held.Nodup ∧ ∀ m, m ∈ held ↔ p.owner m = some t

/-- Every thread goes on in the order, from the mutexes that it owns. -/
def Disciplined (rank : μ → Nat) (p : Pool τ Op σ μ ω) : Prop :=
  ∀ t, ∃ held, p.Owns t held ∧ (p.code t).Ordered rank (· = []) held

variable {rank : μ → Nat} {p p' : Pool τ Op σ μ ω}

omit [DecidableEq τ] in
/-- A thread without a program owns nothing. -/
theorem Disciplined.owns_nil (h : p.Disciplined rank) {t : τ} (hidle : p.code t = .pure ()) (m : μ) :
    p.owner m ≠ some t := by
  obtain ⟨held, hown, hcode⟩ := h t
  rw [hidle] at hcode
  have hnil : held = [] := hcode
  subst hnil
  exact fun hm => List.not_mem_nil ((hown.2 m).mpr hm)

/-- An idle thread starts a program in the order. -/
theorem Disciplined.start (h : p.Disciplined rank) {t : τ} {c : Prog Op μ ω Unit} (hc : c.Balanced rank [])
    (hs : p.start t c = some p') : p'.Disciplined rank := by
  obtain ⟨hidle, rfl⟩ := start_eq_some hs
  intro u
  by_cases hu : u = t
  · subst hu
    refine ⟨[], ⟨List.nodup_nil, fun m => ?_⟩, by simpa using hc⟩
    simpa using h.owns_nil hidle m
  · obtain ⟨held, hown, hcode⟩ := h u
    exact ⟨held, hown, by simpa [hu] using hcode⟩

/-- Thread `t` goes on with `k`, and the mutex `m` has a new owner, `t` or nobody; the other threads are not
concerned. -/
theorem Disciplined.update (h : p.Disciplined rank) {t : τ} {m : μ} {o : Option τ} {k : Prog Op μ ω Unit}
    {held : List μ} (hfree : ∀ u, u ≠ t → p.owner m ≠ some u) (ho : ∀ u, u ≠ t → o ≠ some u)
    (howner : p'.owner = Function.update p.owner m o) (hcode : p'.code = Function.update p.code t k)
    (hown : p'.Owns t held) (hk : k.Ordered rank (· = []) held) : p'.Disciplined rank := by
  intro u
  by_cases hu : u = t
  · subst hu
    exact ⟨held, hown, by rw [hcode, Function.update_self]; exact hk⟩
  · obtain ⟨heldu, ⟨hnodup, hmem⟩, hcodeu⟩ := h u
    refine ⟨heldu, ⟨hnodup, fun m' => ?_⟩, by rw [hcode, Function.update_of_ne hu]; exact hcodeu⟩
    rw [howner]
    by_cases hm' : m' = m
    · subst hm'
      rw [Function.update_self]
      exact iff_of_false (fun hin => hfree u hu ((hmem m').mp hin)) (ho u hu)
    · rw [Function.update_of_ne hm']
      exact hmem m'

variable [Effect Op σ]

/-- A step keeps the discipline. -/
theorem Disciplined.step (h : p.Disciplined rank) {t : τ} (hs : p.step t = some p') : p'.Disciplined rank := by
  obtain ⟨held, ⟨hnodup, hmem⟩, ht⟩ := h t
  have hsame {k : Prog Op μ ω Unit} (howner : p'.owner = p.owner) (hcode : p'.code = Function.update p.code t k)
      (hk : k.Ordered rank (· = []) held) : p'.Disciplined rank := by
    intro u
    by_cases hu : u = t
    · subst hu
      exact ⟨held, ⟨hnodup, fun m => howner ▸ hmem m⟩, by rw [hcode, Function.update_self]; exact hk⟩
    · obtain ⟨heldu, hownu, hcodeu⟩ := h u
      exact ⟨heldu, ⟨hownu.1, fun m => howner ▸ hownu.2 m⟩, by rw [hcode, Function.update_of_ne hu]; exact hcodeu⟩
  unfold Pool.step at hs
  split at hs
  · cases hs
  · cases hs
  · cases hs
  · rename_i m k hc
    split at hs
    · rename_i hfree
      cases hs
      rw [hc] at ht
      have hm : m ∉ held := fun hin => Nat.lt_irrefl _ (ht.1 m hin)
      have hothers : ∀ u, u ≠ t → some t ≠ some u := fun u hu => by simpa using Ne.symm hu
      refine h.update (fun u _ => by simp [hfree]) hothers rfl rfl ⟨hnodup.cons hm, fun m' => ?_⟩ ht.2
      by_cases hm' : m' = m
      · subst hm'
        simp
      · simpa [hm'] using hmem m'
    · cases hs
  · rename_i m k hc
    cases hs
    rw [hc] at ht
    have howner : p.owner m = some t := (hmem m).mp ht.1
    have hothers : ∀ u, u ≠ t → p.owner m ≠ some u := fun u hu => by simpa [howner] using Ne.symm hu
    have hnone : ∀ u, u ≠ t → (none : Option τ) ≠ some u := fun u _ => by simp
    refine h.update hothers hnone rfl rfl ⟨hnodup.erase m, fun m' => ?_⟩ ht.2
    by_cases hm' : m' = m
    · subst hm'
      simp [hnodup.not_mem_erase]
    · simpa [hm', List.mem_erase_of_ne hm'] using hmem m'
  · rename_i o k hc
    cases hs
    rw [hc] at ht
    exact hsame rfl rfl (ht _)
  · rename_i d k hc
    cases hs
    rw [hc] at ht
    exact hsame (k := k) rfl rfl ht

omit [DecidableEq τ] [Effect Op σ] in
/-- A thread that owns a mutex waits for one of a higher rank only. -/
theorem Disciplined.rank_lt (h : p.Disciplined rank) {t : τ} {m m' : μ} {k : Prog Op μ ω Unit}
    (hc : p.code t = .lock m' k) (hm : p.owner m = some t) : rank m < rank m' := by
  obtain ⟨held, hown, hcode⟩ := h t
  rw [hc] at hcode
  exact hcode.1 m ((hown.2 m).mpr hm)

omit [DecidableEq τ] [Effect Op σ] in
/-- **No circular wait**: no threads of a pool all wait for mutexes that are owned among them, if the ranks are
bounded. -/
theorem Disciplined.not_circular (h : p.Disciplined rank) {bound : Nat} (hbound : ∀ m, rank m ≤ bound) {S : τ → Prop}
    (hwait : ∀ t, S t → ∃ m k, p.code t = .lock m k ∧ ∃ u, S u ∧ p.owner m = some u) : ∀ t, ¬S t := by
  -- by induction on how far the rank of a mutex waited for is from the bound
  have hnone (n : Nat) : ∀ t m k, S t → p.code t = .lock m k → bound - rank m = n → False := by
    induction n using Nat.strong_induction_on with
    | h n ih =>
      intro t m k ht hc hn
      obtain ⟨m₁, k₁, hc₁, u, hu, hown⟩ := hwait t ht
      rw [hc] at hc₁
      cases hc₁
      obtain ⟨m₂, k₂, hc₂, _⟩ := hwait u hu
      have hlt := h.rank_lt hc₂ hown
      have hle := hbound m₂
      exact ih (bound - rank m₂) (by omega) u m₂ k₂ hu hc₂ rfl
  intro t ht
  obtain ⟨m, k, hc, _⟩ := hwait t ht
  exact hnone _ t m k ht hc rfl

end Pool
