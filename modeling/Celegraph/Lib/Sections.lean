import Celegraph.Lib.Pool
import Mathlib.Data.Set.Insert
import Mathlib.Data.Setoid.Basic

/-!
# What mutexes guard

- `Guards Op μ σ`: the mutexes that a call needs, and for each mutex which states are alike in what it guards; a call
  leaves alone what it does not need.
- `Prog.Secured G ok`: a program that makes its calls with the mutexes that they need, unlocks what it owns only, and
  sends messages that are `ok`. Between its actions the shared state may change, except for what its own mutexes guard.
- `Pool.Secured`: every thread of a pool is secured; steps keep it. So a thread owns what its next call needs
  (`Secured.owns`), which no other thread then does (`notMem_owned`), and a message is `ok` in the state in which it
  is sent (`Secured.sends`).
-/

/-- What the mutexes guard. -/
structure Guards (Op : Type → Type) (μ σ : Type) [Effect Op σ] where
  needs : {β : Type} → Op β → Set μ
  /-- The states that do not differ in what the mutex guards. -/
  alike : μ → Setoid σ
  frame : ∀ {β : Type} {o : Op β} {m : μ} (s : σ), m ∉ needs o → alike m s (Effect.apply o s).2

namespace Guards

variable {Op : Type → Type} {μ σ : Type} [Effect Op σ] {G : Guards Op μ σ} {H H' : Set μ} {s s' s'' : σ}

/-- The states do not differ in what the mutexes `H` guard. -/
def Alike (G : Guards Op μ σ) (H : Set μ) (s s' : σ) : Prop := ∀ m ∈ H, G.alike m s s'

theorem Alike.refl (s : σ) : G.Alike H s s := fun m _ => (G.alike m).refl s

theorem Alike.symm (h : G.Alike H s s') : G.Alike H s' s := fun m hm => (G.alike m).symm (h m hm)

theorem Alike.trans (h : G.Alike H s s') (h' : G.Alike H s' s'') : G.Alike H s s'' :=
  fun m hm => (G.alike m).trans (h m hm) (h' m hm)

theorem Alike.mono (hsub : H' ⊆ H) (h : G.Alike H s s') : G.Alike H' s s' := fun m hm => h m (hsub hm)

/-- A call leaves alone what other mutexes guard. -/
theorem alike_apply {β : Type} {o : Op β} (hneeds : ∀ m ∈ G.needs o, m ∉ H) (s : σ) :
    G.Alike H s (Effect.apply o s).2 :=
  fun m hm => G.frame s fun hneed => hneeds m hneed hm

end Guards

namespace Prog

variable {Op : Type → Type} {μ σ ω α β : Type} [Effect Op σ]

/-! ## Programs -/

/-- The program keeps to its mutexes, from the mutexes `H` that it owns and the shared state `s`, and returns with
`Q`. -/
def Secured (G : Guards Op μ σ) (ok : Set μ → σ → ω → Prop) (Q : α → Set μ → Prop) :
    Set μ → σ → Prog Op μ ω α → Prop
  | H, _, .pure a => Q a H
  | H, s, .lock m k => ∀ s', G.Alike H s s' → Secured G ok Q (insert m H) s' k
  | H, s, .unlock m k => m ∈ H ∧ Secured G ok Q (H \ {m}) s k
  | H, s, .call o k => G.needs o ⊆ H ∧
      ∀ s', G.Alike H s s' → Secured G ok Q H (Effect.apply o s').2 (k (Effect.apply o s').1)
  | H, s, .send d k => (∀ s', G.Alike H s s' → ok H s' d) ∧ Secured G ok Q H s k
  | _, _, .throw | _, _, .undefined => True

variable {G : Guards Op μ σ} {ok : Set μ → σ → ω → Prop} {Q : α → Set μ → Prop} {H : Set μ} {s s' : σ}

/-- What other threads change does not matter. -/
theorem Secured.alike {p : Prog Op μ ω α} (h : p.Secured G ok Q H s) (hs : G.Alike H s s') :
    p.Secured G ok Q H s' := by
  induction p generalizing H s s' with
  | pure a => exact h
  | lock m k _ => exact fun s'' hs'' => h s'' (hs.trans hs'')
  | unlock m k ih => exact ⟨h.1, ih h.2 (hs.mono Set.sdiff_subset)⟩
  | call o k _ => exact ⟨h.1, fun s'' hs'' => h.2 s'' (hs.trans hs'')⟩
  | send d k ih => exact ⟨fun s'' hs'' => h.1 s'' (hs.trans hs''), ih h.2 hs⟩
  | throw | undefined => trivial

theorem Secured.imp {P : α → Set μ → Prop} (hPQ : ∀ a H, P a H → Q a H) {p : Prog Op μ ω α}
    (h : p.Secured G ok P H s) : p.Secured G ok Q H s := by
  induction p generalizing H s with
  | pure a => exact hPQ a H h
  | lock m k ih => exact fun s' hs' => ih (h s' hs')
  | unlock m k ih => exact ⟨h.1, ih h.2⟩
  | call o k ih => exact ⟨h.1, fun s' hs' => ih _ (h.2 s' hs')⟩
  | send d k ih => exact ⟨h.1, ih h.2⟩
  | throw | undefined => trivial

/-- One program after another. -/
theorem Secured.bind {P : α → Set μ → Prop} {Q : β → Set μ → Prop} {p : Prog Op μ ω α} {f : α → Prog Op μ ω β}
    (h : p.Secured G ok P H s) (hf : ∀ a H' s', P a H' → (f a).Secured G ok Q H' s') :
    (p >>= f).Secured G ok Q H s := by
  induction p generalizing H s with
  | pure a => exact hf a H s h
  | lock m k ih => exact fun s' hs' => ih (h s' hs')
  | unlock m k ih => exact ⟨h.1, ih h.2⟩
  | call o k ih => exact ⟨h.1, fun s' hs' => ih _ (h.2 s' hs')⟩
  | send d k ih => exact ⟨h.1, ih h.2⟩
  | throw | undefined => trivial

/-- The program returns with the mutexes that it started with. -/
abbrev Keeping (G : Guards Op μ σ) (ok : Set μ → σ → ω → Prop) (H : Set μ) (s : σ) (p : Prog Op μ ω α) : Prop :=
  p.Secured G ok (fun _ H' => H' = H) H s

theorem Keeping.bind {p : Prog Op μ ω α} {f : α → Prog Op μ ω β} (h : p.Keeping G ok H s)
    (hf : ∀ a s', (f a).Keeping G ok H s') : (p >>= f).Keeping G ok H s :=
  Secured.bind h fun a _ s' hH => hH ▸ hf a s'

/-- A scope with a lock, around a program that may rely on what the mutex guards. -/
theorem Keeping.withLock {m : μ} {p : Prog Op μ ω α} (hm : m ∉ H) (h : ∀ s', p.Keeping G ok (insert m H) s') :
    (withLock m p).Keeping G ok H s := by
  intro s' _
  refine Secured.bind (p := p) (h s') fun a H' s'' hH => ?_
  subst hH
  exact ⟨Set.mem_insert m H, show insert m H \ {m} = H from Set.insert_sdiff_self_of_notMem hm⟩

end Prog

namespace Pool

variable {τ : Type} {Op : Type → Type} {σ μ ω : Type} {p p' : Pool τ Op σ μ ω} {t : τ}

/-! ## Pools -/

/-- The mutexes that thread `t` owns. -/
def owned (p : Pool τ Op σ μ ω) (t : τ) : Set μ := {m | p.owner m = some t}

section Owned

variable [DecidableEq μ] {m : μ}

theorem owned_lock (howner : p'.owner = Function.update p.owner m (some t)) : p'.owned t = insert m (p.owned t) := by
  ext m'
  by_cases hm : m' = m
  · simp [owned, howner, hm]
  · simp [owned, howner, hm]

theorem owned_unlock (howner : p'.owner = Function.update p.owner m none) : p'.owned t = p.owned t \ {m} := by
  ext m'
  by_cases hm : m' = m
  · simp [owned, howner, hm]
  · simp [owned, howner, hm]

/-- A mutex that is not the thread's changes hands among others. -/
theorem owned_others {o : Option τ} (howner : p'.owner = Function.update p.owner m o) (hm : p.owner m ≠ some t)
    (ho : o ≠ some t) : p'.owned t = p.owned t := by
  ext m'
  by_cases hm' : m' = m
  · subst hm'
    simp [owned, howner, hm, ho]
  · simp [owned, howner, hm']

end Owned

variable [Effect Op σ] {G : Guards Op μ σ} {ok : Set μ → σ → ω → Prop}

/-- Every thread keeps to its mutexes. -/
def Secured (G : Guards Op μ σ) (ok : Set μ → σ → ω → Prop) (p : Pool τ Op σ μ ω) : Prop :=
  ∀ t, (p.code t).Secured G ok (fun _ _ => True) (p.owned t) p.shared

variable [DecidableEq τ]

/-- An idle thread starts a program that keeps to its mutexes. -/
theorem Secured.start (h : p.Secured G ok) {c : Prog Op μ ω Unit}
    (hc : c.Secured G ok (fun _ _ => True) (p.owned t) p.shared) (hs : p.start t c = some p') : p'.Secured G ok := by
  obtain ⟨_, rfl⟩ := start_eq_some hs
  intro u
  by_cases hu : u = t
  · subst hu
    simpa [owned] using hc
  · simpa [owned, hu] using h u

/-- Thread `t` goes on with `k`; what the other threads own, and what it guards, stays. -/
theorem Secured.update (h : p.Secured G ok) {k : Prog Op μ ω Unit} (hcode : p'.code = Function.update p.code t k)
    (hk : k.Secured G ok (fun _ _ => True) (p'.owned t) p'.shared)
    (hothers : ∀ u, u ≠ t → p'.owned u = p.owned u ∧ G.Alike (p.owned u) p.shared p'.shared) : p'.Secured G ok := by
  intro u
  by_cases hu : u = t
  · subst hu
    rw [hcode, Function.update_self]
    exact hk
  · obtain ⟨howned, halike⟩ := hothers u hu
    rw [hcode, Function.update_of_ne hu, howned]
    exact (h u).alike halike

omit [DecidableEq τ] [Effect Op σ] in
/-- A mutex has one owner. -/
theorem notMem_owned {u : τ} (hu : u ≠ t) {m : μ} (hm : m ∈ p.owned t) : m ∉ p.owned u := by
  intro hm'
  simp only [owned, Set.mem_ofPred_eq] at hm hm'
  rw [hm] at hm'
  exact hu (Option.some.inj hm').symm

/-- A step keeps every thread to its mutexes. -/
theorem Secured.step [DecidableEq μ] (h : p.Secured G ok) (hs : p.step t = some p') : p'.Secured G ok := by
  have ht := h t
  unfold Pool.step at hs
  split at hs
  · cases hs
  · cases hs
  · cases hs
  · rename_i m k hc
    split at hs
    · rename_i hfree
      cases hs
      rw [hc] at ht
      refine h.update rfl ?_ fun u hu => ⟨owned_others rfl (by simp [hfree]) (by simpa using Ne.symm hu), .refl _⟩
      rw [owned_lock (p := p) rfl]
      exact ht p.shared (.refl _)
    · cases hs
  · rename_i m k hc
    cases hs
    rw [hc] at ht
    refine h.update rfl ?_ fun u hu => ⟨owned_others rfl ?_ (by simp), .refl _⟩
    · rw [owned_unlock (p := p) rfl]
      exact ht.2
    · rw [show p.owner m = some t from ht.1]
      simpa using Ne.symm hu
  · rename_i o k hc
    cases hs
    rw [hc] at ht
    refine h.update rfl (ht.2 p.shared (.refl _)) fun u hu => ⟨rfl, ?_⟩
    exact Guards.alike_apply (fun m hm => notMem_owned hu (ht.1 hm)) p.shared
  · rename_i d k hc
    cases hs
    rw [hc] at ht
    exact h.update rfl ht.2 fun u _ => ⟨rfl, .refl _⟩

omit [DecidableEq τ] in
/-- A thread owns what its next call needs. -/
theorem Secured.owns (h : p.Secured G ok) {β : Type} {o : Op β} {k : β → Prog Op μ ω Unit} (hc : p.code t = .call o k) :
    G.needs o ⊆ p.owned t := by
  have ht := h t
  rw [hc] at ht
  exact ht.1

omit [DecidableEq τ] in
/-- A message is `ok` when it is sent. -/
theorem Secured.sends (h : p.Secured G ok) {d : ω} {k : Prog Op μ ω Unit} (hc : p.code t = .send d k) :
    ok (p.owned t) p.shared d := by
  have ht := h t
  rw [hc] at ht
  exact ht.1 p.shared (.refl _)

end Pool
