import Mathlib.Algebra.BigOperators.Group.Finset.Piecewise
import Mathlib.Algebra.Order.BigOperators.Group.Finset
import Mathlib.Data.Fintype.Basic

/-!
# Runs of a transition function, and counts of threads

- `Run step init tr s`: from `init`, the transition function `step` reaches `s` by the steps of `tr`, each with
  the state it was taken in. `Run.invariant` is the rule "it holds at the start and every step keeps it";
  `Run.invariant_where` is the same for runs whose steps all meet a condition.
- `exec step s as`: the state after the actions `as`, for traces that are evaluated (`Run.of_exec`).
- `guarded step C`: the steps that meet `C`, for traces whose steps are checked (`Run.of_guarded`).
- `Run.project`: a run of a system is a run of a part of it.
- `sum_update_add`: a sum over indices when one of them changes.
- `total g f`: the sum of `g (f i)` over the indices `i`, and what it becomes when one index changes
  (`total_update`); `tally p f`: the number of indices `i` with `p (f i)`. `countP_eraseIdx` is the same for a list
  that an entry is taken out of.
-/

namespace Runs

/-! ## Runs -/

section Runs

variable {σ ι : Type*} {step : σ → ι → Option σ} {init : σ}

/-- The runs of `step` from `init`: the steps taken, each with its state before, and the state reached. -/
inductive Run (step : σ → ι → Option σ) (init : σ) : List (σ × ι) → σ → Prop
  | init : Run step init [] init
  | step {tr : List (σ × ι)} {s s' : σ} {a : ι} :
      Run step init tr s → step s a = some s' → Run step init (tr ++ [(s, a)]) s'

/-- An inductive invariant holds in every state reached. -/
theorem Run.invariant {I : σ → Prop} (h0 : I init) (hs : ∀ s a s', I s → step s a = some s' → I s')
    {tr : List (σ × ι)} {s : σ} (h : Run step init tr s) : I s := by
  induction h with
  | init => exact h0
  | step _ hst ih => exact hs _ _ _ ih hst

/-- An invariant kept by the steps that meet `C` holds after every run whose steps all meet `C`. -/
theorem Run.invariant_where {C : σ → ι → Prop} {I : σ → Prop} (h0 : I init)
    (hs : ∀ s a s', I s → C s a → step s a = some s' → I s') {tr : List (σ × ι)} {s : σ}
    (h : Run step init tr s) (hC : ∀ x ∈ tr, C x.1 x.2) : I s := by
  induction h with
  | init => exact h0
  | @step tr s s' a _ hst ih =>
    have hprev : ∀ x ∈ tr, C x.1 x.2 := fun x hx => hC x (List.mem_append_left _ hx)
    exact hs _ _ _ (ih hprev) (hC (s, a) (by simp)) hst

/-- Every step of a run was taken in a state that a run reaches. -/
theorem Run.mem {tr : List (σ × ι)} {s : σ} (h : Run step init tr s) {x : σ × ι} (hx : x ∈ tr) :
    ∃ tr' s', Run step init tr' x.1 ∧ tr' <+: tr ∧ step x.1 x.2 = some s' := by
  induction h with
  | init => cases hx
  | @step tr s s' a hr hst ih =>
    rcases List.mem_append.mp hx with hx | hx
    · obtain ⟨tr', s'', h1, h2, h3⟩ := ih hx
      exact ⟨tr', s'', h1, h2.trans (List.prefix_append _ _), h3⟩
    · rw [List.mem_singleton] at hx
      subst hx
      exact ⟨tr, s', hr, List.prefix_append _ _, hst⟩

/-- Two runs, one after the other. -/
theorem Run.trans {tr : List (σ × ι)} {s : σ} (h : Run step init tr s) {tr' : List (σ × ι)} {s' : σ}
    (h' : Run step s tr' s') : Run step init (tr ++ tr') s' := by
  induction h' with
  | init => simpa using h
  | @step tr' s₁ s₂ a _ hst ih =>
    rw [← List.append_assoc]
    exact ih.step hst

/-- The state after the actions `as`. -/
def exec (step : σ → ι → Option σ) : σ → List ι → Option σ
  | s, [] => some s
  | s, a :: as => (step s a).bind fun s' => exec step s' as

/-- A trace of actions that are those of another transition function. -/
theorem exec_map {κ : Type*} {f : κ → ι} {step' : σ → κ → Option σ} (h : ∀ s a, step s (f a) = step' s a) (s : σ)
    (as : List κ) : exec step s (as.map f) = exec step' s as := by
  induction as generalizing s with
  | nil => rfl
  | cons a as ih => simp only [List.map_cons, exec, h, ih]

/-- An evaluated trace continues a run; its steps take the actions of the trace. -/
theorem Run.exec {tr : List (σ × ι)} {s : σ} (h : Run step init tr s) {as : List ι} {s' : σ}
    (he : exec step s as = some s') : ∃ tr', Run step init (tr ++ tr') s' ∧ tr'.map Prod.snd = as := by
  induction as generalizing tr s with
  | nil =>
    cases he
    exact ⟨[], by simpa using h, rfl⟩
  | cons a as ih =>
    simp only [Runs.exec, Option.bind_eq_some_iff] at he
    obtain ⟨s1, h1, h2⟩ := he
    obtain ⟨tr', h3, h4⟩ := ih (h.step h1) h2
    exact ⟨(s, a) :: tr', by simpa using h3, by simp [h4]⟩

/-- An evaluated trace from the start is a run. -/
theorem Run.of_exec {as : List ι} {s : σ} (he : Runs.exec step init as = some s) :
    ∃ tr, Run step init tr s ∧ tr.map Prod.snd = as := by
  simpa using (Run.init : Run step init [] init).exec he

/-- The steps of `step` that meet a condition. -/
def guarded (step : σ → ι → Option σ) (C : σ → ι → Prop) [∀ s a, Decidable (C s a)] (s : σ) (a : ι) : Option σ :=
  if C s a then step s a else none

/-- A run of steps that meet a condition is a run. -/
theorem Run.of_guarded {C : σ → ι → Prop} [∀ s a, Decidable (C s a)] {tr : List (σ × ι)} {s : σ}
    (h : Run (guarded step C) init tr s) : Run step init tr s ∧ ∀ x ∈ tr, C x.1 x.2 := by
  induction h with
  | init => exact ⟨.init, by simp⟩
  | step _ hst ih =>
    obtain ⟨hC, hst⟩ := Option.ite_none_right_eq_some.mp hst
    refine ⟨ih.1.step hst, fun x hx => ?_⟩
    rcases List.mem_append.mp hx with hx | hx
    · exact ih.2 x hx
    · exact List.mem_singleton.mp hx ▸ hC

/-- **Projection**: a run of a system whose steps are steps `g s a` of a part of it, or leave that part alone, is a run
of the part. -/
theorem Run.project {τ κ : Type*} {step' : τ → κ → Option τ} {f : σ → τ} {g : σ → ι → Option κ}
    (hs : ∀ s a s', step s a = some s' → (g s a).elim (f s' = f s) fun b => step' (f s) b = some (f s'))
    {tr : List (σ × ι)} {s : σ} (h : Run step init tr s) :
    Run step' (f init) (tr.filterMap fun x => (g x.1 x.2).map (f x.1, ·)) (f s) := by
  induction h with
  | init => exact .init
  | @step tr s s' a _ hst ih =>
    have hproj := hs s a s' hst
    rw [List.filterMap_append]
    cases hg : g s a with
    | some b =>
      rw [hg, Option.elim_some] at hproj
      simpa [hg] using ih.step hproj
    | none =>
      rw [hg, Option.elim_none] at hproj
      simpa [hg, hproj] using ih

/-- A condition on single steps, where the actions of a trace decide it. -/
theorem forall_of_acts {C : σ → ι → Prop} {tr : List (σ × ι)} {as : List ι} (hacts : tr.map Prod.snd = as)
    (h : ∀ a ∈ as, ∀ s, C s a) : ∀ x ∈ tr, C x.1 x.2 :=
  fun x hx => h x.2 (hacts ▸ List.mem_map_of_mem hx) x.1

end Runs

/-! ## Counts -/

section Tally

variable {κ β : Type*} [Fintype κ]

/-- The number of indices at which `f` has the property `p`. -/
def tally (p : β → Bool) (f : κ → β) : Nat := ∑ i, if p (f i) then 1 else 0

/-- The sum of `g` over the values of `f`. -/
def total (g : β → Nat) (f : κ → β) : Nat := ∑ i, g (f i)

/-- How a sum changes at one index. -/
theorem sum_update_add [DecidableEq κ] {M : Type*} [AddCommMonoid M] (f : κ → M) (i : κ) (x : M) :
    ∑ j, Function.update f i x j + f i = ∑ j, f j + x := by
  rw [Finset.sum_update_of_mem (Finset.mem_univ i), Finset.sum_eq_add_sum_sdiff_singleton_of_mem (Finset.mem_univ i) f,
    add_comm x, add_comm (f i), add_right_comm]

/-- How a sum changes when the index `i` moves from `f i` to `x`. -/
theorem total_update [DecidableEq κ] (g : β → Nat) (f : κ → β) (i : κ) (x : β) :
    total g (Function.update f i x) + g (f i) = total g f + g x := by
  have hrest : ∑ j ∈ Finset.univ.erase i, g (Function.update f i x j) = ∑ j ∈ Finset.univ.erase i, g (f j) :=
    Finset.sum_congr rfl fun j hj => by rw [Function.update_of_ne (Finset.ne_of_mem_erase hj)]
  have hi := Finset.mem_univ i
  unfold total
  rw [← Finset.sum_erase_add _ _ hi, ← Finset.sum_erase_add Finset.univ (fun j => g (f j)) hi, hrest,
    Function.update_self]
  omega

/-- A sum is zero only if all its terms are. -/
theorem total_eq_zero {g : β → Nat} {f : κ → β} : total g f = 0 ↔ ∀ i, g (f i) = 0 := by
  simp [total]

/-- How a count changes when the index `i` moves from `f i` to `x`. -/
theorem tally_update [DecidableEq κ] (p : β → Bool) (f : κ → β) (i : κ) (x : β) :
    tally p (Function.update f i x) + (if p (f i) then 1 else 0) = tally p f + (if p x then 1 else 0) :=
  total_update (fun b => if p b then 1 else 0) f i x

/-- A count with a member is positive. -/
theorem tally_pos {p : β → Bool} {f : κ → β} {i : κ} (h : p (f i) = true) : 0 < tally p f := by
  have hle : (if p (f i) then 1 else 0) ≤ tally p f :=
    Finset.single_le_sum (f := fun j => if p (f j) then 1 else 0) (fun _ _ => Nat.zero_le _) (Finset.mem_univ i)
  simp only [h, if_true] at hle
  omega

/-- A count without members is zero. -/
theorem tally_eq_zero {p : β → Bool} {f : κ → β} (h : ∀ i, p (f i) = false) : tally p f = 0 := by
  simp [tally, h]

/-- Two members of a count that is at most one. -/
theorem eq_of_tally_le_one {p : β → Bool} {f : κ → β} (h : tally p f ≤ 1) {i j : κ} (hi : p (f i) = true)
    (hj : p (f j) = true) : i = j := by
  classical
  have hcard : tally p f = (Finset.univ.filter fun k => p (f k) = true).card := by
    rw [tally, Finset.card_eq_sum_ones, Finset.sum_filter]
  rw [hcard] at h
  exact Finset.card_le_one.mp h i (by simp [hi]) j (by simp [hj])

end Tally

/-- How a count over a list changes when one entry is taken out. -/
theorem countP_eraseIdx {β : Type*} {p : β → Bool} {l : List β} {k : Nat} {x : β} (h : l[k]? = some x) :
    (l.eraseIdx k).countP p + (if p x then 1 else 0) = l.countP p := by
  obtain ⟨hk, rfl⟩ := List.getElem?_eq_some_iff.mp h
  rw [← (List.getElem_cons_eraseIdx_perm hk).countP_eq p, List.countP_cons]

end Runs
