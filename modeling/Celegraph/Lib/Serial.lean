import Celegraph.Lib.Pool
import Mathlib.Algebra.Order.Group.Multiset
import Mathlib.Tactic.Abel

/-!
# Requests that are served in one critical section

Threads that serve requests over a shared state. An `Observer` sees the part of the state that one mutex guards, and
some of the messages.

- `Prog.Serves O f`: the program serves a request with the effect `f` on what the observer sees. It enters the critical
  section of the mutex at once and leaves it once (`Enters`, `Inside`), or does without (`Quiet`); outside of the
  section it leaves what the mutex guards alone, and what it sends is determined.
- `serveAll`: requests served one after another. `Linear O serve v₀ L v out st p`: the threads have served the requests
  `L`, as if one after another in this order, and each is at its stage `st t` with its own request.
- `Linear.step`, `Linear.start`: a step of a thread at most adds its request at the end of `L`, when it leaves the
  section. `Linear.at_rest`: when all threads are idle, what is seen is what the requests `L` leave.
-/

/-- What is observed of the threads: the part of the shared state that a mutex guards, and some messages. -/
structure Observer (σ μ ω ν : Type) where
  mutex : μ
  view : σ → ν
  sees : ω → Bool

namespace Observer

variable {σ μ ω ν : Type} (O : Observer σ μ ω ν)

/-- What is seen of messages. -/
def seen (ds : List ω) : List ω := ds.filter O.sees

@[simp] theorem seen_nil : O.seen [] = [] := rfl

theorem seen_append (ds ds' : List ω) : O.seen (ds ++ ds') = O.seen ds ++ O.seen ds' := List.filter_append ds ds'

theorem seen_cons (d : ω) (ds : List ω) : O.seen (d :: ds) = O.seen [d] ++ O.seen ds := O.seen_append [d] ds

end Observer

namespace Prog

variable {Op : Type → Type} {σ μ ω ν α β : Type} [Effect Op σ] (O : Observer σ μ ω ν)

/-! ## Programs -/

/-- The program leaves what the mutex guards alone. If it returns, it has sent what is seen as `out`. -/
def Quiet : List ω → Prog Op μ ω α → Prop
  | out, .pure _ => out = []
  | out, .lock m k | out, .unlock m k => m ≠ O.mutex ∧ Quiet out k
  | out, .call o k => ∀ s, O.view (Effect.apply o s).2 = O.view s ∧ Quiet out (k (Effect.apply o s).1)
  | out, .send d k => ∃ out', out = O.seen [d] ++ out' ∧ Quiet out' k
  | _, .throw | _, .undefined => True

/-- Messages sent first, in an effect. -/
def sendFirst (ds : List ω) (r : Option (ν × List ω)) : Option (ν × List ω) := r.map fun x => (x.1, ds ++ x.2)

@[simp] theorem sendFirst_nil (r : Option (ν × List ω)) : sendFirst [] r = r := by
  cases r <;> rfl

theorem sendFirst_append (ds ds' : List ω) (r : Option (ν × List ω)) :
    sendFirst (ds ++ ds') r = sendFirst ds (sendFirst ds' r) := by
  cases r <;> simp [sendFirst]

section Inside

variable [DecidableEq μ]

/-- The program is in the section and sees `v`. If it leaves the section, it does so with the view of `r`, and it has
sent the messages of `r` when it returns. -/
def Inside : ν → Option (ν × List ω) → Prog Op μ ω α → Prop
  | _, _, .pure _ => False
  | v, r, .lock m k => m ≠ O.mutex ∧ Inside v r k
  | v, r, .unlock m k => if m = O.mutex then ∃ out, r = some (v, out) ∧ Quiet O out k else Inside v r k
  | v, r, .call o k => ∀ s, O.view s = v → Inside (O.view (Effect.apply o s).2) r (k (Effect.apply o s).1)
  | v, r, .send d k => ∃ r', r = sendFirst (O.seen [d]) r' ∧ Inside v r' k
  | _, _, .throw | _, _, .undefined => True

/-- The program enters the section, and has the effect `f` if it returns. -/
def Enters (f : ν → Option (ν × List ω)) : Prog Op μ ω α → Prop
  | .lock m k => m = O.mutex ∧ ∀ v, Inside O v (f v) k
  | .throw | .undefined => True
  | _ => False

/-- The program serves a request with the effect `f`, if it returns. -/
def Serves (f : ν → Option (ν × List ω)) (p : Prog Op μ ω α) : Prop :=
  Enters O f p ∨ ∃ out, Quiet O out p ∧ ∀ v, f v = some (v, out)

end Inside

variable {O}

/-- A program that shows nothing, and then another. -/
theorem Quiet.bind {p : Prog Op μ ω α} {f : α → Prog Op μ ω β} {out : List ω} (h : p.Quiet O [])
    (hf : ∀ a, (f a).Quiet O out) : (p >>= f).Quiet O out := by
  induction p with
  | pure a => exact hf a
  | lock m k ih | unlock m k ih => exact ⟨h.1, ih h.2⟩
  | call o k ih => exact fun s => ⟨(h s).1, ih _ (h s).2⟩
  | send d k ih =>
    obtain ⟨out', hnil, hk⟩ := h
    obtain ⟨hd, rfl⟩ := List.append_eq_nil_iff.mp hnil.symm
    exact ⟨out, by rw [hd, List.nil_append], ih hk⟩
  | throw | undefined => trivial

/-- A scope with another mutex. -/
theorem Quiet.withLock {m : μ} {p : Prog Op μ ω α} (hm : m ≠ O.mutex) (h : p.Quiet O []) :
    (withLock m p).Quiet O [] :=
  ⟨hm, Quiet.bind (p := p) h fun _ => ⟨hm, rfl⟩⟩

variable [DecidableEq μ]

/-- A program that shows nothing, in the section. -/
theorem Inside.bind {p : Prog Op μ ω α} {f : α → Prog Op μ ω β} {v : ν} {r : Option (ν × List ω)} (h : p.Quiet O [])
    (hf : ∀ a, (f a).Inside O v r) : (p >>= f).Inside O v r := by
  induction p with
  | pure a => exact hf a
  | lock m k ih => exact ⟨h.1, ih h.2⟩
  | unlock m k ih =>
    simp only [unlock_bind, Inside, if_neg h.1]
    exact ih h.2
  | call o k ih =>
    intro s hs
    rw [(h s).1, hs]
    exact ih _ (h s).2
  | send d k ih =>
    obtain ⟨out', hnil, hk⟩ := h
    obtain ⟨hd, rfl⟩ := List.append_eq_nil_iff.mp hnil.symm
    exact ⟨r, by rw [hd, sendFirst_nil], ih hk⟩
  | throw | undefined => trivial

/-! ## Run alone -/

/-- What a quiet program does when it runs alone. -/
theorem Quiet.run {p : Prog Op μ ω α} {s s' : σ} {held held' : List μ} {a : α} {out out' : List ω}
    (h : p.Quiet O out) (hrun : p.run s held = .ok a s' held' out') :
    O.view s' = O.view s ∧ out = O.seen out' := by
  induction p generalizing s held out out' with
  | pure a =>
    cases hrun
    exact ⟨rfl, h⟩
  | lock m k ih =>
    simp only [Prog.run] at hrun
    split at hrun
    · cases hrun
    · exact ih h.2 hrun
  | unlock m k ih =>
    simp only [Prog.run] at hrun
    split at hrun
    · exact ih h.2 hrun
    · cases hrun
  | call o k ih =>
    rw [← (h s).1]
    exact ih _ (h s).2 hrun
  | send d k ih =>
    simp only [Prog.run] at hrun
    obtain ⟨out₁, rfl, hk⟩ := h
    cases hrest : k.run s held with
    | ok b s₁ held₁ out₂ =>
      rw [hrest, Outcome.prepend_ok, Outcome.ok.injEq] at hrun
      obtain ⟨rfl, rfl, rfl, rfl⟩ := hrun
      obtain ⟨hview, rfl⟩ := ih hk hrest
      exact ⟨hview, (O.seen_cons d out₂).symm⟩
    | exception | undefined | deadlock =>
      rw [hrest] at hrun
      cases hrun
  | throw | undefined => cases hrun

theorem Inside.run {p : Prog Op μ ω α} {s s' : σ} {held held' : List μ} {a : α} {r : Option (ν × List ω)}
    {out' : List ω} (h : p.Inside O (O.view s) r) (hrun : p.run s held = .ok a s' held' out') :
    r = some (O.view s', O.seen out') := by
  induction p generalizing s held r out' with
  | pure a => exact h.elim
  | lock m k ih =>
    simp only [Prog.run] at hrun
    split at hrun
    · cases hrun
    · exact ih h.2 hrun
  | unlock m k ih =>
    simp only [Prog.run] at hrun
    split at hrun
    · simp only [Inside] at h
      split at h
      · obtain ⟨out, rfl, hk⟩ := h
        obtain ⟨hview, rfl⟩ := hk.run hrun
        rw [hview]
      · exact ih h hrun
    · cases hrun
  | call o k ih => exact ih _ (h s rfl) hrun
  | send d k ih =>
    simp only [Prog.run] at hrun
    obtain ⟨r', rfl, hk⟩ := h
    cases hrest : k.run s held with
    | ok b s₁ held₁ out₂ =>
      rw [hrest, Outcome.prepend_ok, Outcome.ok.injEq] at hrun
      obtain ⟨rfl, rfl, rfl, rfl⟩ := hrun
      rw [ih hk hrest, O.seen_cons d out₂]
      rfl
    | exception | undefined | deadlock =>
      rw [hrest] at hrun
      cases hrun
  | throw | undefined => cases hrun

/-- **A program that serves a request has its effect when it runs alone.** -/
theorem Serves.run {f : ν → Option (ν × List ω)} {p : Prog Op μ ω α} {s s' : σ} {held held' : List μ} {a : α}
    {out' : List ω} (h : p.Serves O f) (hrun : p.run s held = .ok a s' held' out') :
    f (O.view s) = some (O.view s', O.seen out') := by
  rcases h with h | ⟨out, hq, hf⟩
  · cases p with
    | lock m k =>
      simp only [Prog.run] at hrun
      split at hrun
      · cases hrun
      · exact (h.2 (O.view s)).run hrun
    | throw | undefined => cases hrun
    | pure | unlock | call | send => exact h.elim
  · obtain ⟨hview, rfl⟩ := hq.run hrun
    rw [hf, hview]

end Prog

/-! ## One request after another -/

section ServeAll

variable {ρ ν ω : Type} (serve : ρ → ν → Option (ν × List ω))

/-- Requests served one after another: the view that they leave, and the messages seen. -/
def serveAll : ν → List ρ → Option (ν × List ω)
  | v, [] => some (v, [])
  | v, r :: rs => (serve r v).bind fun x => Prog.sendFirst x.2 (serveAll x.1 rs)

variable {serve}

theorem serveAll_append {v v' v'' : ν} {rs rs' : List ρ} {out out' : List ω}
    (h : serveAll serve v rs = some (v', out)) (h' : serveAll serve v' rs' = some (v'', out')) :
    serveAll serve v (rs ++ rs') = some (v'', out ++ out') := by
  induction rs generalizing v out with
  | nil =>
    cases h
    exact h'
  | cons r rs ih =>
    obtain ⟨x, hx, hrest⟩ := Option.bind_eq_some_iff.mp h
    obtain ⟨y, hy, hout⟩ := Option.map_eq_some_iff.mp hrest
    cases hout
    simp [serveAll, hx, ih hy, Prog.sendFirst]

theorem serveAll_singleton (r : ρ) (v : ν) : serveAll serve v [r] = serve r v := by
  simp only [serveAll]
  cases serve r v <;> simp [Prog.sendFirst]

end ServeAll

namespace Pool

/-! ## Threads -/

/-- How far a thread has got with its request: it waits for the section, it is inside, with the messages seen so far and
the effect still to come, or it is served, with the messages still to come. -/
inductive Stage (ρ ν ω : Type) where
  | waiting (r : ρ)
  | inside (r : ρ) (sent : List ω) (rest : Option (ν × List ω))
  | served (out : List ω)

namespace Stage

variable {ρ ν ω : Type}

/-- The request that is not served yet. -/
def pending : Stage ρ ν ω → Multiset ρ
  | waiting r | inside r _ _ => {r}
  | served _ => 0

/-- What has been seen for a request that is not served yet. -/
def early : Stage ρ ν ω → Multiset ω
  | inside _ sent _ => sent
  | waiting _ | served _ => 0

/-- What is still to be seen for a request that is served. -/
def late : Stage ρ ν ω → Multiset ω
  | served out => out
  | waiting _ | inside _ _ _ => 0

end Stage

variable {τ : Type} {Op : Type → Type} {σ μ ω ν ρ : Type} [Effect Op σ] [DecidableEq μ] (O : Observer σ μ ω ν)
  (serve : ρ → ν → Option (ν × List ω))

/-- Thread `t` is at this stage; `v` is what was seen when the section was last free. -/
def At (p : Pool τ Op σ μ ω) (t : τ) (v : ν) : Stage ρ ν ω → Prop
  | .waiting r => (p.code t).Enters O (serve r) ∧ p.owner O.mutex ≠ some t
  | .inside r sent rest => (p.code t).Inside O (O.view p.shared) rest ∧ p.owner O.mutex = some t ∧
      serve r v = Prog.sendFirst sent rest
  | .served out => (p.code t).Quiet O out ∧ p.owner O.mutex ≠ some t

variable [Fintype τ]

/-- The threads have served the requests `L`, to the view `v` and with `out` seen, and each thread is at its stage. -/
structure Linear (v₀ : ν) (L : List ρ) (v : ν) (out : List ω) (st : τ → Stage ρ ν ω) (p : Pool τ Op σ μ ω) : Prop where
  serves : serveAll serve v₀ L = some (v, out)
  stage : ∀ t, p.At O serve t v (st t)
  view : p.owner O.mutex = none → O.view p.shared = v
  messages : (out : Multiset ω) + ∑ t, (st t).early = (O.seen p.out : Multiset ω) + ∑ t, (st t).late

variable {O serve} {v₀ v : ν} {L : List ρ} {out : List ω} {st : τ → Stage ρ ν ω} {p p' : Pool τ Op σ μ ω} {t : τ}

/-- A sum over the stages when one thread moves. -/
theorem sum_stage_update [DecidableEq τ] {M : Type} [AddCommMonoid M] (g : Stage ρ ν ω → M) (st : τ → Stage ρ ν ω)
    (t : τ) (x : Stage ρ ν ω) : ∑ u, g (Function.update st t x u) + g (st t) = ∑ u, g (st u) + g x := by
  rw [← Runs.sum_update_add (fun u => g (st u)) t (g x)]
  exact congrArg (∑ u, · u + g (st t)) (Function.comp_update g st t x)

omit [Fintype τ] in
/-- A thread that does not move stays at its stage. -/
theorem At.congr {x : Stage ρ ν ω} {v' : ν} (h : p.At O serve t v x) (hcode : p'.code t = p.code t)
    (howner : p'.owner O.mutex = some t ↔ p.owner O.mutex = some t)
    (hin : p.owner O.mutex = some t → O.view p'.shared = O.view p.shared ∧ v' = v) : p'.At O serve t v' x := by
  cases x with
  | waiting r => exact ⟨by rw [hcode]; exact h.1, by rw [Ne, howner]; exact h.2⟩
  | inside r sent rest =>
    obtain ⟨hview, rfl⟩ := hin h.2.1
    exact ⟨by rw [hcode, hview]; exact h.1, howner.mpr h.2.1, h.2.2⟩
  | served out => exact ⟨by rw [hcode]; exact h.1, by rw [Ne, howner]; exact h.2⟩

/-- Thread `t` moves to another stage, and the requests `M` are served. -/
theorem Linear.move [DecidableEq τ] (h : Linear O serve v₀ L v out st p) {x : Stage ρ ν ω} {M : List ρ} {v' : ν}
    {new e : List ω} (hM : serveAll serve v M = some (v', new)) (hx : p'.At O serve t v' x)
    (hothers : ∀ u, u ≠ t → p'.At O serve u v' (st u)) (hview : p'.owner O.mutex = none → O.view p'.shared = v')
    (hseen : O.seen p'.out = O.seen p.out ++ e)
    (hmsg : (new : Multiset ω) + x.early + (st t).late = (st t).early + x.late + (e : Multiset ω)) :
    Linear O serve v₀ (L ++ M) v' (out ++ new) (Function.update st t x) p' where
  serves := serveAll_append h.serves hM
  stage u := by
    by_cases hu : u = t
    · subst hu
      rwa [Function.update_self]
    · rw [Function.update_of_ne hu]
      exact hothers u hu
  view := hview
  messages := by
    have hearly := sum_stage_update Stage.early st t x
    have hlate := sum_stage_update Stage.late st t x
    have hold := h.messages
    rw [hseen, ← Multiset.coe_add, ← Multiset.coe_add]
    refine add_right_cancel (b := (st t).early + (st t).late) ?_
    calc (out : Multiset ω) + new + ∑ u, (Function.update st t x u).early + ((st t).early + (st t).late)
        = out + new + (∑ u, (Function.update st t x u).early + (st t).early) + (st t).late := by abel
      _ = (out + ∑ u, (st u).early) + (new + x.early + (st t).late) := by rw [hearly]; abel
      _ = (O.seen p.out + ∑ u, (st u).late) + ((st t).early + x.late + e) := by rw [hold, hmsg]
      _ = O.seen p.out + e + (∑ u, (st u).late + x.late) + (st t).early := by abel
      _ = O.seen p.out + e + (∑ u, (Function.update st t x u).late + (st t).late) + (st t).early := by rw [hlate]
      _ = _ := by abel

/-- What the threads still have to serve when one of them moves. -/
theorem pending_update [DecidableEq τ] {x : Stage ρ ν ω} {M : Multiset ρ} (h : M + x.pending = (st t).pending) :
    M + ∑ u, (Function.update st t x u).pending = ∑ u, (st u).pending ∧
      ∀ u, (Function.update st t x u).pending ≤ (st u).pending := by
  have hsum := sum_stage_update Stage.pending st t x
  refine ⟨?_, fun u => ?_⟩
  · refine add_right_cancel (b := x.pending) ?_
    rw [← hsum, ← h]
    abel
  · by_cases hu : u = t
    · subst hu
      rw [Function.update_self, ← h]
      exact Multiset.le_add_left _ _
    · rw [Function.update_of_ne hu]

/-- The threads go on from `L`: some requests of theirs are served, at the end of it. -/
def Goes (O : Observer σ μ ω ν) (serve : ρ → ν → Option (ν × List ω)) (v₀ : ν) (L : List ρ) (st : τ → Stage ρ ν ω)
    (p' : Pool τ Op σ μ ω) : Prop :=
  ∃ M v' out' st', Linear O serve v₀ (L ++ M) v' out' st' p' ∧
    (M : Multiset ρ) + ∑ u, (st' u).pending = ∑ u, (st u).pending ∧ ∀ u, (st' u).pending ≤ (st u).pending

/-- Thread `t` moves without serving its request. -/
theorem Linear.keep [DecidableEq τ] (h : Linear O serve v₀ L v out st p) {k : Prog Op μ ω Unit} {x : Stage ρ ν ω}
    {e : List ω} (hcode : p'.code = Function.update p.code t k) (hx : p'.At O serve t v x)
    (hpending : x.pending = (st t).pending)
    (howner : ∀ u, u ≠ t → (p'.owner O.mutex = some u ↔ p.owner O.mutex = some u))
    (hfree : p'.owner O.mutex = none → p.owner O.mutex = none)
    (hview : p.owner O.mutex ≠ some t → O.view p'.shared = O.view p.shared)
    (hseen : O.seen p'.out = O.seen p.out ++ e)
    (hmsg : x.early + (st t).late = (st t).early + x.late + (e : Multiset ω)) : Goes O serve v₀ L st p' := by
  refine ⟨[], v, out ++ [], Function.update st t x, ?_, pending_update (M := 0) (by rw [zero_add, hpending])⟩
  refine h.move rfl hx (fun u hu => ?_) (fun hnone => ?_) hseen (by rw [Multiset.coe_nil, zero_add, hmsg])
  · have hne : p.owner O.mutex = some u → p.owner O.mutex ≠ some t := fun hown hown' =>
      hu (Option.some.inj (hown.symm.trans hown'))
    exact (h.stage u).congr (by rw [hcode, Function.update_of_ne hu]) (howner u hu) fun hown => ⟨hview (hne hown), rfl⟩
  · have hnone' := hfree hnone
    rw [hview (by simp [hnone']), h.view hnone']

omit [Effect Op σ] [Fintype τ] in
/-- A mutex that changes hands between nobody and thread `t`. -/
theorem owner_update_iff {m m' : μ} {o : Option τ} (hm : ∀ u, u ≠ t → p.owner m ≠ some u) (ho : ∀ u, u ≠ t → o ≠ some u)
    (u : τ) (hu : u ≠ t) : Function.update p.owner m o m' = some u ↔ p.owner m' = some u := by
  by_cases hm' : m' = m
  · subst hm'
    rw [Function.update_self]
    exact iff_of_false (ho u hu) (hm u hu)
  · rw [Function.update_of_ne hm']

/-- Thread `t` locks a mutex: it may enter the section. -/
theorem Linear.lock [DecidableEq τ] (h : Linear O serve v₀ L v out st p) {m : μ} {k : Prog Op μ ω Unit}
    (hc : p.code t = .lock m k) (hfree : p.owner m = none) :
    Goes O serve v₀ L st
      { p with owner := Function.update p.owner m (some t), code := Function.update p.code t k } := by
  have hothers : ∀ u, u ≠ t → (Function.update p.owner m (some t) O.mutex = some u ↔ p.owner O.mutex = some u) :=
    owner_update_iff (by simp [hfree]) fun u hu => by simpa using Ne.symm hu
  have hnone : Function.update p.owner m (some t) O.mutex = none → p.owner O.mutex = none := by
    by_cases hm : O.mutex = m
    · subst hm
      simp
    · simp [hm]
  have hstage := h.stage t
  cases hx : st t with
  | waiting r =>
    rw [hx, At, hc] at hstage
    obtain ⟨⟨rfl, hin⟩, _⟩ := hstage
    refine h.keep (x := .inside r [] (serve r v)) (e := []) rfl ⟨?_, by simp, by simp⟩ (by rw [hx]; rfl) hothers
      hnone (fun _ => rfl) (by simp) (by rw [hx]; rfl)
    simp only [Function.update_self]
    rw [h.view hfree]
    exact hin v
  | inside r sent rest =>
    rw [hx, At, hc] at hstage
    obtain ⟨⟨hm, hin⟩, hown, hserve⟩ := hstage
    refine h.keep (x := st t) (e := []) rfl ?_ rfl hothers hnone (fun _ => rfl) (by simp) (by simp)
    rw [hx]
    exact ⟨by simpa using hin, by simpa [hm.symm] using hown, hserve⟩
  | served out =>
    rw [hx, At, hc] at hstage
    obtain ⟨⟨hm, hq⟩, hown⟩ := hstage
    refine h.keep (x := st t) (e := []) rfl ?_ rfl hothers hnone (fun _ => rfl) (by simp) (by simp)
    rw [hx]
    exact ⟨by simpa using hq, by simpa [hm.symm] using hown⟩

/-- Thread `t` unlocks a mutex: it may leave the section, and then its request is served. -/
theorem Linear.unlock [DecidableEq τ] (h : Linear O serve v₀ L v out st p) {m : μ} {k : Prog Op μ ω Unit}
    (hc : p.code t = .unlock m k) :
    Goes O serve v₀ L st
      { p with owner := Function.update p.owner m none, code := Function.update p.code t k } := by
  have hstage := h.stage t
  cases hx : st t with
  | waiting r =>
    rw [hx, At, hc] at hstage
    exact hstage.1.elim
  | inside r sent rest =>
    rw [hx, At, hc] at hstage
    obtain ⟨hin, hown, hserve⟩ := hstage
    by_cases hm : m = O.mutex
    · subst hm
      simp only [Prog.Inside, if_true] at hin
      obtain ⟨new, rfl, hq⟩ := hin
      refine ⟨[r], O.view p.shared, out ++ (sent ++ new), Function.update st t (.served new), ?_,
        pending_update (by simp [hx, Stage.pending])⟩
      refine h.move (by rw [serveAll_singleton, hserve]; rfl) ⟨by simpa using hq, by simp⟩ (fun u hu => ?_)
        (fun _ => rfl) (List.append_nil _).symm ?_
      · have hne : p.owner O.mutex ≠ some u := by
          rw [hown]
          simpa using Ne.symm hu
        exact (h.stage u).congr (by simp [hu]) (by simp [hne]) fun hu' => absurd hu' hne
      · simp only [hx, Stage.early, Stage.late, Multiset.coe_nil, add_zero, Multiset.coe_add]
    · rw [Prog.Inside, if_neg hm] at hin
      have hne := Ne.symm hm
      refine h.keep (x := st t) (e := []) rfl ?_ rfl (fun _ _ => by simp [hne]) (by simp [hne]) (fun _ => rfl)
        (by simp) (by simp)
      rw [hx]
      exact ⟨by simpa using hin, by simpa [hne] using hown, hserve⟩
  | served late =>
    rw [hx, At, hc] at hstage
    obtain ⟨⟨hm, hq⟩, hown⟩ := hstage
    have hne := Ne.symm hm
    refine h.keep (x := st t) (e := []) rfl ?_ rfl (fun _ _ => by simp [hne]) (by simp [hne]) (fun _ => rfl)
      (by simp) (by simp)
    rw [hx]
    exact ⟨by simpa using hq, by simpa [hne] using hown⟩

/-- Thread `t` makes a call: outside of the section it changes nothing that is seen. -/
theorem Linear.call [DecidableEq τ] (h : Linear O serve v₀ L v out st p) {β : Type} {o : Op β}
    {k : β → Prog Op μ ω Unit} (hc : p.code t = .call o k) :
    Goes O serve v₀ L st { p with
      shared := (Effect.apply o p.shared).2
      code := Function.update p.code t (k (Effect.apply o p.shared).1) } := by
  have hstage := h.stage t
  cases hx : st t with
  | waiting r =>
    rw [hx, At, hc] at hstage
    exact hstage.1.elim
  | inside r sent rest =>
    rw [hx, At, hc] at hstage
    obtain ⟨hin, hown, hserve⟩ := hstage
    refine h.keep (x := st t) (e := []) rfl ?_ rfl (fun _ _ => .rfl) id (fun hne => absurd hown hne) (by simp)
      (by simp)
    rw [hx]
    exact ⟨by simpa using hin p.shared rfl, hown, hserve⟩
  | served late =>
    rw [hx, At, hc] at hstage
    obtain ⟨hq, hown⟩ := hstage
    refine h.keep (x := st t) (e := []) rfl ?_ rfl (fun _ _ => .rfl) id (fun _ => (hq p.shared).1) (by simp)
      (by simp)
    rw [hx]
    exact ⟨by simpa using (hq p.shared).2, hown⟩

/-- Thread `t` sends a message of its request. -/
theorem Linear.send [DecidableEq τ] (h : Linear O serve v₀ L v out st p) {d : ω} {k : Prog Op μ ω Unit}
    (hc : p.code t = .send d k) :
    Goes O serve v₀ L st { p with out := p.out ++ [d], code := Function.update p.code t k } := by
  have hstage := h.stage t
  cases hx : st t with
  | waiting r =>
    rw [hx, At, hc] at hstage
    exact hstage.1.elim
  | inside r sent rest =>
    rw [hx, At, hc] at hstage
    obtain ⟨⟨rest', rfl, hin⟩, hown, hserve⟩ := hstage
    refine h.keep (x := .inside r (sent ++ O.seen [d]) rest') (e := O.seen [d]) rfl
      ⟨by simpa using hin, hown, by rw [hserve, Prog.sendFirst_append]⟩ (by rw [hx]; rfl) (fun _ _ => .rfl) id
      (fun _ => rfl) (O.seen_append _ _) ?_
    simp only [hx, Stage.early, Stage.late, add_zero, Multiset.coe_add]
  | served late =>
    rw [hx, At, hc] at hstage
    obtain ⟨⟨late', rfl, hq⟩, hown⟩ := hstage
    refine h.keep (x := .served late') (e := O.seen [d]) rfl ⟨by simpa using hq, hown⟩ (by rw [hx]; rfl)
      (fun _ _ => .rfl) id (fun _ => rfl) (O.seen_append _ _) ?_
    simp only [hx, Stage.early, Stage.late, zero_add, ← Multiset.coe_add]
    rw [add_comm]

/-- **A step of a thread** serves its request, when it leaves the section, or no request. -/
theorem Linear.step [DecidableEq τ] (h : Linear O serve v₀ L v out st p) (hs : p.step t = some p') :
    Goes O serve v₀ L st p' := by
  unfold Pool.step at hs
  split at hs
  · cases hs
  · cases hs
  · cases hs
  · rename_i m k hc
    split at hs
    · rename_i hfree
      cases hs
      exact h.lock hc hfree
    · cases hs
  · rename_i m k hc
    cases hs
    exact h.unlock hc
  · rename_i o k hc
    cases hs
    exact h.call hc
  · rename_i d k hc
    cases hs
    exact h.send hc

/-- An idle thread has nothing to do. -/
theorem Linear.stage_of_idle (h : Linear O serve v₀ L v out st p) (hidle : p.code t = .pure ()) :
    st t = .served [] ∧ p.owner O.mutex ≠ some t := by
  have hstage := h.stage t
  cases hx : st t with
  | waiting r =>
    rw [hx, At, hidle] at hstage
    exact hstage.1.elim
  | inside r sent rest =>
    rw [hx, At, hidle] at hstage
    exact hstage.1.elim
  | served out =>
    rw [hx, At, hidle] at hstage
    obtain ⟨rfl, hown⟩ := hstage
    exact ⟨rfl, hown⟩

/-- **An idle thread starts a program that serves the request `r`**, which is served at once if the program does not
enter the section. -/
theorem Linear.start [DecidableEq τ] (h : Linear O serve v₀ L v out st p) {r : ρ} {c : Prog Op μ ω Unit}
    (hc : c.Serves O (serve r)) (hs : p.start t c = some p') :
    ∃ M v' out' st', Linear O serve v₀ (L ++ M) v' out' st' p' ∧
      (M : Multiset ρ) + ∑ u, (st' u).pending = ∑ u, (st u).pending + {r} ∧ (st' t).pending ≤ {r} ∧
      ∀ u, u ≠ t → st' u = st u := by
  obtain ⟨hidle, rfl⟩ := start_eq_some hs
  obtain ⟨hx, hown⟩ := h.stage_of_idle hidle
  have hothers {x : Stage ρ ν ω} : ∀ u, u ≠ t → Function.update st t x u = st u := fun u hu =>
    Function.update_of_ne hu _ _
  have hpending (x : Stage ρ ν ω) : ∑ u, (Function.update st t x u).pending = ∑ u, (st u).pending + x.pending := by
    simpa [hx, Stage.pending] using sum_stage_update Stage.pending st t x
  have hsame : ∀ u, u ≠ t → At O serve { p with code := Function.update p.code t c } u v (st u) := fun u hu =>
    (h.stage u).congr (by simp [hu]) .rfl fun _ => ⟨rfl, rfl⟩
  rcases hc with hc | ⟨new, hq, hserve⟩
  · refine ⟨[], v, out ++ [], Function.update st t (.waiting r), ?_, ?_, ?_, hothers⟩
    · refine h.move rfl ⟨by simpa using hc, hown⟩ hsame h.view (List.append_nil _).symm ?_
      simp [hx, Stage.early, Stage.late]
    · rw [hpending]
      simp [Stage.pending]
    · simp [Stage.pending]
  · refine ⟨[r], v, out ++ new, Function.update st t (.served new), ?_, ?_, ?_, hothers⟩
    · refine h.move (by rw [serveAll_singleton, hserve]) ⟨by simpa using hq, hown⟩ hsame h.view
        (List.append_nil _).symm (by simp [hx, Stage.early, Stage.late])
    · rw [hpending]
      simp [Stage.pending, add_comm]
    · simp [Stage.pending]

/-- An idle thread starts a program that shows nothing. -/
theorem Linear.start_quiet [DecidableEq τ] (h : Linear O serve v₀ L v out st p) {c : Prog Op μ ω Unit}
    (hc : c.Quiet O []) (hs : p.start t c = some p') : Linear O serve v₀ L v out st p' := by
  obtain ⟨hidle, rfl⟩ := start_eq_some hs
  obtain ⟨hx, hown⟩ := h.stage_of_idle hidle
  refine ⟨h.serves, fun u => ?_, h.view, h.messages⟩
  by_cases hu : u = t
  · subst hu
    rw [hx]
    exact ⟨by simpa using hc, hown⟩
  · exact (h.stage u).congr (by simp [hu]) .rfl fun _ => ⟨rfl, rfl⟩

/-- **When all threads are idle**, what is seen is what the requests `L` leave, served one after another. -/
theorem Linear.at_rest (h : Linear O serve v₀ L v out st p) (hidle : ∀ t, p.code t = .pure ()) :
    ∑ t, (st t).pending = 0 ∧ O.view p.shared = v ∧ out.Perm (O.seen p.out) := by
  have hstage : ∀ t, st t = .served [] := fun t => (h.stage_of_idle (hidle t)).1
  refine ⟨by simp [hstage, Stage.pending], h.view ?_, Multiset.coe_eq_coe.mp ?_⟩
  · by_contra hne
    obtain ⟨t, ht⟩ := Option.ne_none_iff_exists'.mp hne
    exact (h.stage_of_idle (hidle t)).2 ht
  · simpa [hstage, Stage.early, Stage.late] using h.messages

/-- Nothing has been served, and nobody serves. -/
theorem linear_init (hidle : ∀ t, p.code t = .pure ()) (hfree : p.owner O.mutex = none) (hout : p.out = []) :
    Linear O serve (O.view p.shared) [] (O.view p.shared) [] (fun _ => .served []) p where
  serves := rfl
  stage t := ⟨by rw [hidle t]; rfl, by simp [hfree]⟩
  view _ := rfl
  messages := by simp [hout, Stage.early, Stage.late]

end Pool
