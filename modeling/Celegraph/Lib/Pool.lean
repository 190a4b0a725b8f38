import Celegraph.Lib.Prog
import Celegraph.Lib.Runs
import Mathlib.Logic.Function.Basic
import Mathlib.Order.Basic

/-!
# Threads over a shared state

- `Pool`: threads with programs (`Prog`) over one shared state, and the messages sent so far. `Pool.step` lets one
  thread take one action; `Pool.start` gives a program to a thread that has none.
- `Spec W`: an invariant of the shared state, the messages that may be sent, and the messages that are owed, each in a
  world of `W`. Worlds only grow, so what a thread knows of one survives the steps of the others.
- `Prog.Safe`: whatever the other threads do between two actions of the program, as long as they keep the invariant,
  its calls keep it, what it sends may be sent, and it will send what it makes the server owe (`Prog.Will`).
- `Pool.Ok`: the state between two steps when all threads are safe. `Pool.Ok.step`, `Pool.Ok.start` keep it, for some
  larger world.
- `Pool.ends_of_run`: the steps of one thread, with no step of another in between, are its program run alone.
-/

/-- Threads of `τ` over a shared state of `σ`. -/
structure Pool (τ : Type) (Op : Type → Type) (σ μ ω : Type) : Type 1 where
  shared : σ
  owner : μ → Option τ
  code : τ → Prog Op μ ω Unit
  out : List ω

/-- What is demanded of the shared state and of the messages. -/
structure Spec (W σ ω : Type) [Preorder W] where
  inv : W → σ → Prop
  /-- The message may be sent. -/
  emits : W → ω → Prop
  /-- The message must have been sent, or be about to be sent. -/
  owes : W → ω → Prop
  emits_mono {w w' : W} {d : ω} : w ≤ w' → emits w d → emits w' d

namespace Prog

variable {Op : Type → Type} {σ μ ω α β W : Type}

/-! ## Programs that keep a specification -/

/-- Every path of the program sends `d`. -/
def Will (d : ω) : Prog Op μ ω α → Prop
  | .pure _ | .throw | .undefined => False
  | .lock _ k | .unlock _ k => Will d k
  | .call _ k => ∀ b, Will d (k b)
  | .send e k => e = d ∨ Will d k

theorem Will.bind {d : ω} {p : Prog Op μ ω α} (h : Will d p) (f : α → Prog Op μ ω β) : Will d (p >>= f) := by
  induction p with
  | pure _ | throw | undefined => exact h.elim
  | lock _ _ ih | unlock _ _ ih => exact ih h
  | call _ _ ih => exact fun b => ih b (h b)
  | send _ _ ih => exact h.imp id ih

variable [Preorder W] [Effect Op σ] {S : Spec W σ ω}

/-- The program keeps `S`, from the world `w` on, and returns with `Q`. -/
def Safe (S : Spec W σ ω) (Q : α → W → Prop) : Prog Op μ ω α → W → Prop
  | .pure a, w => Q a w
  | .lock _ k, w | .unlock _ k, w => Safe S Q k w
  | .call o k, w => ∀ w', w ≤ w' → ∀ s, S.inv w' s → ∃ w'', w' ≤ w'' ∧ S.inv w'' (Effect.apply o s).2 ∧
      Safe S Q (k (Effect.apply o s).1) w'' ∧
      ∀ d, S.owes w'' d → S.owes w' d ∨ Will d (k (Effect.apply o s).1)
  | .send d k, w => S.emits w d ∧ Safe S Q k w
  | .throw, _ | .undefined, _ => True

theorem Safe.mono {Q : α → W → Prop} (hQ : ∀ a w w', w ≤ w' → Q a w → Q a w') {p : Prog Op μ ω α} {w w' : W}
    (hw : w ≤ w') (h : Safe S Q p w) : Safe S Q p w' := by
  induction p with
  | pure a => exact hQ a w w' hw h
  | lock _ _ ih | unlock _ _ ih => exact ih h
  | call _ _ _ => exact fun w'' hw'' => h w'' (hw.trans hw'')
  | send _ _ ih => exact ⟨S.emits_mono hw h.1, ih h.2⟩
  | throw | undefined => trivial

/-- One safe program after another. -/
theorem Safe.bind {P : α → W → Prop} {Q : β → W → Prop} {p : Prog Op μ ω α} {f : α → Prog Op μ ω β} {w : W}
    (h : Safe S P p w) (hf : ∀ a w', P a w' → Safe S Q (f a) w') : Safe S Q (p >>= f) w := by
  induction p generalizing w with
  | pure a => exact hf a w h
  | lock _ _ ih | unlock _ _ ih => exact ih h
  | call _ _ ih =>
    intro w' hw' s hs
    obtain ⟨w'', hw'', hinv, hsafe, howes⟩ := h w' hw' s hs
    exact ⟨w'', hw'', hinv, ih _ hsafe, fun d hd => (howes d hd).imp id fun hW => hW.bind f⟩
  | send _ _ ih => exact ⟨h.1, ih h.2⟩
  | throw | undefined => trivial

/-- A call that keeps the world as it is. -/
theorem Safe.call_of {Q : α → W → Prop} {γ : Type} {o : Op γ} {k : γ → Prog Op μ ω α} {w : W}
    (h : ∀ w', w ≤ w' → ∀ s, S.inv w' s → S.inv w' (Effect.apply o s).2 ∧ Safe S Q (k (Effect.apply o s).1) w') :
    Safe S Q (.call o k) w :=
  fun w' hw s hs => ⟨w', le_rfl, (h w' hw s hs).1, (h w' hw s hs).2, fun _ => .inl⟩

/-- A scope with a lock, around a safe program. -/
theorem Safe.withLock {m : μ} {p : Prog Op μ ω α} {w : W} (h : Safe S (fun _ _ => True) p w) :
    Safe S (fun _ _ => True) (withLock m p) w :=
  Safe.bind (p := p) h fun _ _ _ => trivial

end Prog

namespace Pool

variable {τ : Type} {Op : Type → Type} {σ μ ω W : Type}

/-! ## Steps -/

/-- The program of the thread has ended. -/
def idle (p : Pool τ Op σ μ ω) (t : τ) : Bool :=
  match p.code t with
  | .pure _ => true
  | _ => false

theorem idle_iff {p : Pool τ Op σ μ ω} {t : τ} : p.idle t = true ↔ p.code t = .pure () := by
  unfold idle
  split <;> simp_all

variable [DecidableEq τ]

/-- Thread `t` starts the program `c`. -/
def start (p : Pool τ Op σ μ ω) (t : τ) (c : Prog Op μ ω Unit) : Option (Pool τ Op σ μ ω) :=
  if p.idle t then some { p with code := Function.update p.code t c } else none

theorem start_eq_some {p p' : Pool τ Op σ μ ω} {t : τ} {c : Prog Op μ ω Unit} (h : p.start t c = some p') :
    p.code t = .pure () ∧ p' = { p with code := Function.update p.code t c } := by
  unfold start at h
  split at h
  · rename_i hi
    cases h
    exact ⟨idle_iff.mp hi, rfl⟩
  · cases h

variable [Effect Op σ] [DecidableEq μ]

/-- The next action of thread `t`; `none` if it has none, or waits for a mutex. -/
def step (p : Pool τ Op σ μ ω) (t : τ) : Option (Pool τ Op σ μ ω) :=
  match p.code t with
  | .pure _ | .throw | .undefined => none
  | .lock m k =>
    if p.owner m = none then
      some { p with owner := Function.update p.owner m (some t), code := Function.update p.code t k }
    else none
  | .unlock m k => some { p with owner := Function.update p.owner m none, code := Function.update p.code t k }
  | .call o k => some { p with
      shared := (Effect.apply o p.shared).2
      code := Function.update p.code t (k (Effect.apply o p.shared).1) }
  | .send d k => some { p with out := p.out ++ [d], code := Function.update p.code t k }

/-- What a step does to the shared state and to the messages, apart from the locks. -/
theorem step_cases {p p' : Pool τ Op σ μ ω} {t : τ} (h : p.step t = some p') :
    (∃ m k, (p.code t = .lock m k ∨ p.code t = .unlock m k) ∧ p'.shared = p.shared ∧ p'.out = p.out ∧
      p'.code = Function.update p.code t k) ∨
    (∃ (β : Type) (o : Op β) (k : β → Prog Op μ ω Unit), p.code t = .call o k ∧
      p'.shared = (Effect.apply o p.shared).2 ∧ p'.out = p.out ∧
      p'.code = Function.update p.code t (k (Effect.apply o p.shared).1)) ∨
    ∃ d k, p.code t = .send d k ∧ p'.shared = p.shared ∧ p'.out = p.out ++ [d] ∧
      p'.code = Function.update p.code t k := by
  unfold step at h
  split at h
  · cases h
  · cases h
  · cases h
  · rename_i m k hc
    split at h
    · cases h
      exact .inl ⟨m, k, .inl hc, rfl, rfl, rfl⟩
    · cases h
  · rename_i m k hc
    cases h
    exact .inl ⟨m, k, .inr hc, rfl, rfl, rfl⟩
  · rename_i o k hc
    cases h
    exact .inr (.inl ⟨_, o, k, hc, rfl, rfl, rfl⟩)
  · rename_i d k hc
    cases h
    exact .inr (.inr ⟨d, k, hc, rfl, rfl, rfl⟩)

/-- A step of a thread depends on its own program, and leaves those of the others. -/
theorem step_congr {p p' q : Pool τ Op σ μ ω} {t : τ} (h : p.step t = some p') (hshared : q.shared = p.shared)
    (howner : q.owner = p.owner) (hout : q.out = p.out) (hcode : q.code t = p.code t) :
    q.step t = some { p' with code := Function.update q.code t (p'.code t) } ∧ ∀ u, u ≠ t → p'.code u = p.code u := by
  unfold step at h ⊢
  rw [hcode, hshared, howner, hout]
  cases hc : p.code t with
  | pure | throw | undefined => simp [hc] at h
  | lock m k =>
    simp only [hc] at h ⊢
    split at h
    · rename_i hfree
      cases h
      simp +contextual [hfree]
    · cases h
  | unlock | call | send =>
    simp only [hc] at h ⊢
    cases h
    simp +contextual

/-- The mutexes that thread `t` holds, with all others free. -/
def Holds (p : Pool τ Op σ μ ω) (t : τ) (held : List μ) : Prop :=
  held.Nodup ∧ ∀ m, p.owner m = if m ∈ held then some t else none

/-- Steps of thread `t` alone end its program, with the shared state `s'`, the mutexes `held` and `out` sent. -/
def Ends (p : Pool τ Op σ μ ω) (t : τ) (s' : σ) (held : List μ) (out : List ω) : Prop :=
  ∃ n p', Runs.exec step p (List.replicate n t) = some p' ∧ p'.shared = s' ∧ p'.out = p.out ++ out ∧
    p'.code = Function.update p.code t (.pure ()) ∧ p'.Holds t held

/-- One step of `t`, and the rest of its steps. -/
theorem Ends.cons {p p₁ : Pool τ Op σ μ ω} {t : τ} {k : Prog Op μ ω Unit} {s' : σ} {held : List μ} {out : List ω}
    (h : p₁.Ends t s' held out) (out₁ : List ω) (hst : p.step t = some p₁)
    (hcode : p₁.code = Function.update p.code t k)
    (hout : p₁.out = p.out ++ out₁) : p.Ends t s' held (out₁ ++ out) := by
  obtain ⟨n, p', hex, hs, ho, hcd, hh⟩ := h
  refine ⟨n + 1, p', by simp [List.replicate_succ, Runs.exec, hst, hex], hs, by simp [ho, hout], ?_, hh⟩
  rw [hcd, hcode, Function.update_idem]

/-- **A thread that takes all the steps runs its program alone.** -/
theorem ends_of_run {c : Prog Op μ ω Unit} {p : Pool τ Op σ μ ω} {t : τ} {s' : σ} {held held' : List μ} {out : List ω}
    (hc : p.code t = c) (hheld : p.Holds t held) (hrun : c.run p.shared held = .ok () s' held' out) :
    p.Ends t s' held' out := by
  induction c generalizing p held out with
  | pure _ =>
    simp only [Prog.run_pure, Outcome.ok.injEq] at hrun
    obtain ⟨_, rfl, rfl, rfl⟩ := hrun
    refine ⟨0, p, rfl, rfl, by simp, ?_, hheld⟩
    rw [← hc, Function.update_eq_self]
  | lock m k ih =>
    simp only [Prog.run] at hrun
    split at hrun
    · cases hrun
    · rename_i hm
      have hfree : p.owner m = none := by rw [hheld.2 m, if_neg hm]
      let p₁ : Pool τ Op σ μ ω :=
        { p with owner := Function.update p.owner m (some t), code := Function.update p.code t k }
      have hheld₁ : p₁.Holds t (m :: held) := by
        refine ⟨hheld.1.cons hm, fun m' => ?_⟩
        by_cases hm' : m' = m
        · subst hm'; simp [p₁]
        · simp [p₁, hm', hheld.2 m']
      exact (ih (by simp [p₁]) hheld₁ hrun).cons [] (by simp [step, hc, hfree, p₁]) rfl (by simp [p₁])
  | unlock m k ih =>
    simp only [Prog.run] at hrun
    split at hrun
    · let p₁ : Pool τ Op σ μ ω :=
        { p with owner := Function.update p.owner m none, code := Function.update p.code t k }
      have hheld₁ : p₁.Holds t (held.erase m) := by
        refine ⟨hheld.1.erase m, fun m' => ?_⟩
        by_cases hm' : m' = m
        · subst hm'; simp [p₁, hheld.1.not_mem_erase]
        · simp [p₁, hm', hheld.2 m', List.mem_erase_of_ne hm']
      exact (ih (by simp [p₁]) hheld₁ hrun).cons [] (by simp [step, hc, p₁]) rfl (by simp [p₁])
    · cases hrun
  | call o k ih =>
    simp only [Prog.run] at hrun
    let p₁ : Pool τ Op σ μ ω := { p with
      shared := (Effect.apply o p.shared).2
      code := Function.update p.code t (k (Effect.apply o p.shared).1) }
    exact (ih (Effect.apply o p.shared).1 (p := p₁) (by simp [p₁]) hheld hrun).cons [] (by simp [step, hc, p₁])
      rfl (by simp [p₁])
  | send d k ih =>
    simp only [Prog.run] at hrun
    cases hk : k.run p.shared held with
    | ok a s₁ held₁ out₁ =>
      rw [hk, Outcome.prepend_ok, Outcome.ok.injEq] at hrun
      obtain ⟨_, rfl, rfl, rfl⟩ := hrun
      let p₁ : Pool τ Op σ μ ω := { p with out := p.out ++ [d], code := Function.update p.code t k }
      exact (ih (p := p₁) (by simp [p₁]) hheld hk).cons [d] (by simp [step, hc, p₁]) rfl rfl
    | exception | undefined | deadlock =>
      rw [hk] at hrun
      cases hrun
  | throw | undefined => cases hrun

/-! ## Pools of safe threads -/

section Ok

variable [Preorder W] {S : Spec W σ ω}

/-- The invariant holds, every thread is safe, what was sent may be sent, and what is owed was sent or will be. -/
structure Ok (S : Spec W σ ω) (w : W) (p : Pool τ Op σ μ ω) : Prop where
  inv : S.inv w p.shared
  safe : ∀ t, (p.code t).Safe S (fun _ _ => True) w
  sent : ∀ d ∈ p.out, S.emits w d
  paid : ∀ d, S.owes w d → d ∈ p.out ∨ ∃ t, (p.code t).Will d

omit [DecidableEq μ] in
/-- The programs after thread `t` has moved to a safe one. -/
theorem Ok.safe_update {w w' : W} {p : Pool τ Op σ μ ω} (h : p.Ok S w) (hw : w ≤ w') {t : τ} {c : Prog Op μ ω Unit}
    (hc : c.Safe S (fun _ _ => True) w') (u : τ) :
    (Function.update p.code t c u).Safe S (fun _ _ => True) w' := by
  by_cases hu : u = t
  · subst hu
    rwa [Function.update_self]
  · rw [Function.update_of_ne hu]
    exact (h.safe u).mono (fun _ _ _ _ => id) hw

omit [DecidableEq μ] in
/-- What was owed before thread `t` moved is still paid, if `t` forgets nothing. -/
theorem Ok.paid_update {w : W} {p : Pool τ Op σ μ ω} (h : p.Ok S w) {t : τ} {c : Prog Op μ ω Unit} {out : List ω}
    (hout : ∀ d ∈ p.out, d ∈ out) (hc : ∀ d, (p.code t).Will d → d ∈ out ∨ c.Will d) {d : ω} (hd : S.owes w d) :
    d ∈ out ∨ ∃ u, (Function.update p.code t c u).Will d := by
  rcases h.paid d hd with hd | ⟨u, hu⟩
  · exact .inl (hout d hd)
  · by_cases hut : u = t
    · subst hut
      exact (hc d hu).imp id fun hW => ⟨u, by rwa [Function.update_self]⟩
    · exact .inr ⟨u, by rwa [Function.update_of_ne hut]⟩

omit [DecidableEq μ] in
/-- An idle thread starts a safe program. -/
theorem Ok.start {w : W} {p p' : Pool τ Op σ μ ω} (h : p.Ok S w) {t : τ} {c : Prog Op μ ω Unit}
    (hc : c.Safe S (fun _ _ => True) w) (hs : p.start t c = some p') : p'.Ok S w := by
  obtain ⟨hidle, rfl⟩ := start_eq_some hs
  refine ⟨h.inv, h.safe_update le_rfl hc, h.sent, fun d hd => h.paid_update (fun _ => id) (fun d hW => ?_) hd⟩
  rw [hidle] at hW
  exact hW.elim

/-- A step of a thread, in some larger world. -/
theorem Ok.step {w : W} {p p' : Pool τ Op σ μ ω} (h : p.Ok S w) {t : τ} (hs : p.step t = some p') :
    ∃ w', w ≤ w' ∧ p'.Ok S w' := by
  have hsafe := h.safe t
  rcases step_cases hs with ⟨m, k, hc, hsh, hout, hcode⟩ | ⟨β, o, k, hc, hsh, hout, hcode⟩ |
    ⟨d, k, hc, hsh, hout, hcode⟩
  · have hk : k.Safe S (fun _ _ => True) w := by
      rcases hc with hc | hc <;> rw [hc] at hsafe <;> exact hsafe
    refine ⟨w, le_rfl, hsh ▸ h.inv, fun u => hcode ▸ h.safe_update le_rfl hk u, hout ▸ h.sent, fun d hd => ?_⟩
    rw [hout, hcode]
    refine h.paid_update (fun _ => id) (fun d hW => .inr ?_) hd
    rcases hc with hc | hc <;> rw [hc] at hW <;> exact hW
  · rw [hc] at hsafe
    obtain ⟨w', hw, hinv, hk, howes⟩ := hsafe w le_rfl p.shared h.inv
    refine ⟨w', hw, hsh ▸ hinv, fun u => hcode ▸ h.safe_update hw hk u,
      fun d hd => S.emits_mono hw (h.sent d (hout ▸ hd)), fun d hd => ?_⟩
    rw [hout, hcode]
    rcases howes d hd with hold | hnew
    · refine h.paid_update (fun _ => id) (fun d hW => .inr ?_) hold
      rw [hc] at hW
      exact hW _
    · exact .inr ⟨t, by rwa [Function.update_self]⟩
  · rw [hc] at hsafe
    refine ⟨w, le_rfl, hsh ▸ h.inv, fun u => hcode ▸ h.safe_update le_rfl hsafe.2 u, fun e he => ?_, fun e he => ?_⟩
    · rw [hout, List.mem_append, List.mem_singleton] at he
      rcases he with he | rfl
      · exact h.sent e he
      · exact hsafe.1
    · rw [hout, hcode]
      refine h.paid_update (fun _ hd => List.mem_append_left _ hd) (fun e hW => ?_) he
      rw [hc] at hW
      rcases hW with rfl | hW
      · exact .inl (by simp)
      · exact .inr hW

omit [DecidableEq τ] [DecidableEq μ] in
/-- Nothing is owed any more when all threads are idle. -/
theorem Ok.sent_of_owes {w : W} {p : Pool τ Op σ μ ω} (h : p.Ok S w) (hidle : ∀ t, p.idle t = true) {d : ω}
    (hd : S.owes w d) : d ∈ p.out := by
  rcases h.paid d hd with hd | ⟨t, ht⟩
  · exact hd
  · rw [idle_iff.mp (hidle t)] at ht
    exact ht.elim

end Ok

end Pool
