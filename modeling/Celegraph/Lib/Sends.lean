import Celegraph.Lib.Pool

/-!
# What a program sends

- `Prog.sends`: the messages that a program sends when it runs alone, whatever becomes of it in the end.
- `Prog.MaySend p ds`: the program can send `ds`, in this order, before it ends or stops, while other threads change
  the shared state between its actions in any way. What it sends alone it may send (`maySend_sends`).
- `Prog.Yields s p out`: all calls of the program find the shared state `s` and leave it as it is, and it sends `out` if
  it ends.
- `Pool.step_maySend`: a step of a thread sends what its program could send next; `Pool.step_yields`: what it has sent
  and what it will send stay the same.
- `Pool.Bounded q owed p`: thread `t` can send at most `owed t` more messages with the property `q`. A step spends what
  it sends (`Bounded.step`).
-/

namespace Prog

variable {Op : Type → Type} {σ μ ω α β : Type} [Effect Op σ]

/-! ## Run alone -/

section Alone

variable [DecidableEq μ]

/-- The messages that the program sends, from a shared state and the mutexes it holds. -/
def sends : Prog Op μ ω α → σ → List μ → List ω
  | .pure _, _, _ | .throw, _, _ | .undefined, _, _ => []
  | .lock m k, s, held => if m ∈ held then [] else k.sends s (m :: held)
  | .unlock m k, s, held => if m ∈ held then k.sends s (held.erase m) else []
  | .call o k, s, held => (k (Effect.apply o s).1).sends (Effect.apply o s).2 held
  | .send d k, s, held => d :: k.sends s held

/-- What was sent before an outcome is in it, if the program returns. -/
theorem sends_of_run {p : Prog Op μ ω α} {s s' : σ} {held held' : List μ} {a : α} {out : List ω}
    (h : p.run s held = .ok a s' held' out) : p.sends s held = out := by
  induction p generalizing s held out with
  | pure a =>
    cases h
    rfl
  | lock m k ih =>
    simp only [run] at h
    split at h
    · cases h
    · rename_i hm
      simpa only [sends, if_neg hm] using ih h
  | unlock m k ih =>
    simp only [run] at h
    split at h
    · rename_i hm
      simpa only [sends, if_pos hm] using ih h
    · cases h
  | call o k ih => exact ih _ h
  | send d k ih =>
    simp only [run] at h
    cases hk : k.run s held with
    | ok a₁ s₁ held₁ out₁ =>
      rw [hk, Outcome.prepend_ok, Outcome.ok.injEq] at h
      obtain ⟨rfl, rfl, rfl, rfl⟩ := h
      rw [sends, ih hk]
    | exception | undefined | deadlock =>
      rw [hk] at h
      cases h
  | throw | undefined => cases h

/-- One program after another: the second is reached if the first returns. -/
theorem sends_bind (p : Prog Op μ ω α) (f : α → Prog Op μ ω β) (s : σ) (held : List μ) :
    (p >>= f).sends s held = p.sends s held ++
      match p.run s held with
      | .ok a s' held' _ => (f a).sends s' held'
      | _ => [] := by
  induction p generalizing s held with
  | pure a => rfl
  | lock m k ih =>
    simp only [lock_bind, sends, run]
    split
    · rfl
    · exact ih s _
  | unlock m k ih =>
    simp only [unlock_bind, sends, run]
    split
    · exact ih s _
    · rfl
  | call o k ih => exact ih _ _ held
  | send d k ih =>
    simp only [send_bind, sends, run, ih, List.cons_append]
    cases k.run s held <;> rfl
  | throw | undefined => rfl

/-- A scope with a lock sends what its body sends. -/
theorem sends_withLock {m : μ} {p : Prog Op μ ω α} {s : σ} {held : List μ} (hm : m ∉ held) :
    (withLock m p).sends s held = p.sends s (m :: held) := by
  simp only [withLock, acquire_bind, release_bind, sends, if_neg hm]
  rw [sends_bind]
  cases p.run s (m :: held) <;> simp [sends]

end Alone

/-! ## Run among other threads -/

/-- The program can send `ds` from here on. Every call may find any shared state. -/
def MaySend : Prog Op μ ω α → List ω → Prop
  | .pure _, ds | .throw, ds | .undefined, ds => ds = []
  | .lock _ k, ds | .unlock _ k, ds => MaySend k ds
  | .call o k, ds => ds = [] ∨ ∃ s, MaySend (k (Effect.apply o s).1) ds
  | .send d k, ds => ds = [] ∨ ∃ ds', ds = d :: ds' ∧ MaySend k ds'

@[simp] theorem maySend_nil (p : Prog Op μ ω α) : MaySend p [] := by
  induction p with
  | pure _ | throw | undefined => rfl
  | lock _ _ ih | unlock _ _ ih => exact ih
  | call _ _ _ | send _ _ _ => exact .inl rfl

/-- What one program after another can send is what the first can, and then what the second can. -/
theorem MaySend.of_bind {p : Prog Op μ ω α} {f : α → Prog Op μ ω β} {ds : List ω} (h : MaySend (p >>= f) ds) :
    ∃ ds₁ ds₂, ds = ds₁ ++ ds₂ ∧ MaySend p ds₁ ∧ (ds₂ = [] ∨ ∃ a, MaySend (f a) ds₂) := by
  induction p generalizing ds with
  | pure a => exact ⟨[], ds, rfl, rfl, .inr ⟨a, h⟩⟩
  | lock _ _ ih | unlock _ _ ih => exact ih h
  | call o k ih =>
    rcases h with rfl | ⟨s, h⟩
    · exact ⟨[], [], rfl, .inl rfl, .inl rfl⟩
    · obtain ⟨ds₁, ds₂, hds, h₁, h₂⟩ := ih _ h
      exact ⟨ds₁, ds₂, hds, .inr ⟨s, h₁⟩, h₂⟩
  | send d k ih =>
    rcases h with rfl | ⟨ds', rfl, h⟩
    · exact ⟨[], [], rfl, .inl rfl, .inl rfl⟩
    · obtain ⟨ds₁, ds₂, rfl, h₁, h₂⟩ := ih h
      exact ⟨d :: ds₁, ds₂, rfl, .inr ⟨ds₁, rfl, h₁⟩, h₂⟩
  | throw | undefined => exact ⟨[], [], h, rfl, .inl rfl⟩

theorem MaySend.of_withLock {m : μ} {p : Prog Op μ ω α} {ds : List ω} (h : MaySend (withLock m p) ds) :
    MaySend p ds := by
  obtain ⟨ds₁, ds₂, rfl, h₁, h₂⟩ := MaySend.of_bind (p := p) h
  rcases h₂ with rfl | ⟨a, h₂⟩
  · rwa [List.append_nil]
  · have hnil : ds₂ = [] := h₂
    rwa [hnil, List.append_nil]

/-- What a program sends alone it can send. -/
theorem maySend_sends [DecidableEq μ] (p : Prog Op μ ω α) (s : σ) (held : List μ) : MaySend p (p.sends s held) := by
  induction p generalizing s held with
  | pure _ | throw | undefined => rfl
  | lock m k ih =>
    simp only [sends]
    split
    · exact maySend_nil k
    · exact ih s _
  | unlock m k ih =>
    simp only [sends]
    split
    · exact ih s _
    · exact maySend_nil k
  | call o k ih => exact .inr ⟨s, ih _ _ held⟩
  | send d k ih => exact .inr ⟨_, rfl, ih s held⟩

/-! ## Run while the shared state does not change -/

/-- The calls find the shared state `s` and do not change it, and the program sends `out`, unless it stops before its
end. -/
def Yields (s : σ) : Prog Op μ ω α → List ω → Prop
  | .pure _, out => out = []
  | .throw, _ | .undefined, _ => True
  | .lock _ k, out | .unlock _ k, out => Yields s k out
  | .call o k, out => (Effect.apply o s).2 = s ∧ Yields s (k (Effect.apply o s).1) out
  | .send d k, out => ∃ rest, out = d :: rest ∧ Yields s k rest

theorem Yields.bind {s : σ} {p : Prog Op μ ω α} {f : α → Prog Op μ ω β} {out rest : List ω} (h : p.Yields s out)
    (hf : ∀ a, (f a).Yields s rest) : (p >>= f).Yields s (out ++ rest) := by
  induction p generalizing out with
  | pure a =>
    obtain rfl : out = [] := h
    exact hf a
  | lock _ _ ih | unlock _ _ ih => exact ih h
  | call _ _ ih => exact ⟨h.1, ih _ h.2⟩
  | send d k ih =>
    obtain ⟨out', rfl, h⟩ := h
    exact ⟨out' ++ rest, rfl, ih h⟩
  | throw | undefined => trivial

theorem Yields.withLock {s : σ} {m : μ} {p : Prog Op μ ω α} {out : List ω} (h : p.Yields s out) :
    (withLock m p).Yields s out := by
  have hbody : (p >>= fun a => .unlock m (.pure a)).Yields s (out ++ []) := h.bind fun _ => rfl
  rw [List.append_nil] at hbody
  exact hbody

end Prog

namespace Pool

variable {τ : Type} {Op : Type → Type} {σ μ ω : Type} [DecidableEq τ] [Effect Op σ] [DecidableEq μ]

/-- What thread `t` can send after its step it could send before, after what the step has sent. -/
theorem step_maySend {p p' : Pool τ Op σ μ ω} {t : τ} (h : p.step t = some p') :
    (∀ u, u ≠ t → p'.code u = p.code u) ∧
    ((p'.out = p.out ∧ ∀ ds, (p'.code t).MaySend ds → (p.code t).MaySend ds) ∨
      ∃ d, p'.out = p.out ++ [d] ∧ ∀ ds, (p'.code t).MaySend ds → (p.code t).MaySend (d :: ds)) := by
  rcases step_cases h with ⟨m, k, hc, _, hout, hcode⟩ | ⟨β, o, k, hc, _, hout, hcode⟩ | ⟨d, k, hc, _, hout, hcode⟩
  · refine ⟨fun u hu => by rw [hcode, Function.update_of_ne hu], .inl ⟨hout, fun ds hds => ?_⟩⟩
    rw [hcode, Function.update_self] at hds
    rcases hc with hc | hc <;> rw [hc] <;> exact hds
  · refine ⟨fun u hu => by rw [hcode, Function.update_of_ne hu], .inl ⟨hout, fun ds hds => ?_⟩⟩
    rw [hcode, Function.update_self] at hds
    rw [hc]
    exact .inr ⟨p.shared, hds⟩
  · refine ⟨fun u hu => by rw [hcode, Function.update_of_ne hu], .inr ⟨d, hout, fun ds hds => ?_⟩⟩
    rw [hcode, Function.update_self] at hds
    rw [hc]
    exact .inr ⟨ds, rfl, hds⟩

/-- What thread `t` has sent in a step it would send next, and nothing else has changed for the others. -/
theorem step_yields {p p' : Pool τ Op σ μ ω} {t : τ} {out : List ω} (h : p.step t = some p')
    (ht : (p.code t).Yields p.shared out) : p'.shared = p.shared ∧ (∀ u, u ≠ t → p'.code u = p.code u) ∧
      ∃ ds rest, out = ds ++ rest ∧ p'.out = p.out ++ ds ∧ (p'.code t).Yields p.shared rest := by
  rcases step_cases h with ⟨m, k, hc, hsh, hout, hcode⟩ | ⟨β, o, k, hc, hsh, hout, hcode⟩ |
    ⟨d, k, hc, hsh, hout, hcode⟩
  · refine ⟨hsh, fun u hu => by rw [hcode, Function.update_of_ne hu], [], out, rfl, by simpa using hout, ?_⟩
    rw [hcode, Function.update_self]
    rcases hc with hc | hc <;> rw [hc] at ht <;> exact ht
  · rw [hc] at ht
    refine ⟨hsh.trans ht.1, fun u hu => by rw [hcode, Function.update_of_ne hu], [], out, rfl, by simpa using hout, ?_⟩
    rw [hcode, Function.update_self]
    exact ht.2
  · rw [hc] at ht
    obtain ⟨rest, rfl, hk⟩ := ht
    refine ⟨hsh, fun u hu => by rw [hcode, Function.update_of_ne hu], [d], rest, rfl, hout, ?_⟩
    rw [hcode, Function.update_self]
    exact hk

/-! ## How much can be sent -/

section Bounded

variable {p p' : Pool τ Op σ μ ω} {q : ω → Bool} {owed : τ → Nat}

/-- Thread `t` can send at most `owed t` more messages with the property `q`. -/
def Bounded (q : ω → Bool) (owed : τ → Nat) (p : Pool τ Op σ μ ω) : Prop :=
  ∀ t ds, (p.code t).MaySend ds → ds.countP q ≤ owed t

omit [DecidableEq μ] in
theorem Bounded.start (h : p.Bounded q owed) {t : τ} {c : Prog Op μ ω Unit} {n : Nat}
    (hc : ∀ ds, c.MaySend ds → ds.countP q ≤ n) (hs : p.start t c = some p') :
    p'.Bounded q (Function.update owed t n) := by
  obtain ⟨_, rfl⟩ := start_eq_some hs
  intro u ds hds
  change (Function.update p.code t c u).MaySend ds at hds
  by_cases hu : u = t
  · subst hu
    rw [Function.update_self] at hds ⊢
    exact hc ds hds
  · rw [Function.update_of_ne hu] at hds ⊢
    exact h u ds hds

/-- **A step spends what it sends.** -/
theorem Bounded.step [Fintype τ] (h : p.Bounded q owed) {t : τ} (hs : p.step t = some p') : ∃ owed' : τ → Nat,
    p'.Bounded q owed' ∧ p'.out.countP q + ∑ u, owed' u = p.out.countP q + ∑ u, owed u := by
  obtain ⟨hothers, ⟨hout, hmay⟩ | ⟨d, hout, hmay⟩⟩ := step_maySend hs
  · refine ⟨owed, fun u ds hds => ?_, by rw [hout]⟩
    by_cases hu : u = t
    · subst hu
      exact h u ds (hmay ds hds)
    · exact h u ds (hothers u hu ▸ hds)
  · have hspent (ds : List ω) (hds : (p'.code t).MaySend ds) : ds.countP q + [d].countP q ≤ owed t := by
      have hle := h t (d :: ds) (hmay ds hds)
      rwa [← List.singleton_append, List.countP_append, Nat.add_comm] at hle
    have hnone := hspent [] (Prog.maySend_nil _)
    refine ⟨Function.update owed t (owed t - [d].countP q), fun u ds hds => ?_, ?_⟩
    · by_cases hu : u = t
      · subst hu
        rw [Function.update_self]
        exact Nat.le_sub_of_add_le (hspent ds hds)
      · rw [Function.update_of_ne hu]
        exact h u ds (hothers u hu ▸ hds)
    · have hsum := Runs.sum_update_add owed t (owed t - [d].countP q)
      rw [hout, List.countP_append]
      rw [List.countP_nil] at hnone
      omega

end Bounded

end Pool
