import Mathlib.Data.List.Basic

/-!
# Programs with locks, calls on a shared state, and output

- `Prog Op μ ω α`: the code of a thread, as a tree of its next actions. It locks and unlocks mutexes of `μ`, calls
  operations of `Op` on a shared state, sends messages of `ω`, and returns an `α`; or an exception escapes from it, or
  its behaviour is undefined. `Prog` is a monad, and `acquire`, `release`, `perform`, `output`, `withLock` are its
  actions.
- `Effect Op σ`: what the operations return, and do to a state of `σ`.
- `Prog.run`: the program run alone, from a shared state and the mutexes it holds.
-/

/-- The code of a thread. -/
inductive Prog (Op : Type → Type) (μ ω α : Type) : Type 1 where
  | pure (a : α)
  | lock (m : μ) (k : Prog Op μ ω α)
  | unlock (m : μ) (k : Prog Op μ ω α)
  | call {β : Type} (o : Op β) (k : β → Prog Op μ ω α)
  | send (d : ω) (k : Prog Op μ ω α)
  /-- An exception escapes. -/
  | throw
  /-- The behaviour is undefined. -/
  | undefined

/-- The operations as functions of the shared state. -/
class Effect (Op : Type → Type) (σ : outParam Type) where
  apply : {β : Type} → Op β → σ → β × σ

namespace Prog

variable {Op : Type → Type} {μ ω α β : Type}

/-! ## The monad -/

/-- One program after another. -/
def bind : Prog Op μ ω α → (α → Prog Op μ ω β) → Prog Op μ ω β
  | .pure a, f => f a
  | .lock m k, f => .lock m (bind k f)
  | .unlock m k, f => .unlock m (bind k f)
  | .call o k, f => .call o fun b => bind (k b) f
  | .send d k, f => .send d (bind k f)
  | .throw, _ => .throw
  | .undefined, _ => .undefined

instance : Monad (Prog Op μ ω) where
  pure := .pure
  bind := bind

/-- `m.lock()`. -/
def acquire (m : μ) : Prog Op μ ω Unit := .lock m (.pure ())

/-- `m.unlock()`. -/
def release (m : μ) : Prog Op μ ω Unit := .unlock m (.pure ())

/-- A call of an operation on the shared state. -/
def perform {β : Type} (o : Op β) : Prog Op μ ω β := .call o .pure

/-- A message sent. -/
def output (d : ω) : Prog Op μ ω Unit := .send d (.pure ())

/-- A scope with a `std::lock_guard` of `m`. -/
def withLock (m : μ) (p : Prog Op μ ω α) : Prog Op μ ω α := do
  acquire m
  let a ← p
  release m
  return a

section Simp

variable {γ : Type} (f : α → Prog Op μ ω β)

@[simp] theorem return_eq (a : α) : (Pure.pure a : Prog Op μ ω α) = .pure a := rfl
@[simp] theorem pure_bind (a : α) : ((.pure a : Prog Op μ ω α) >>= f) = f a := rfl
@[simp] theorem lock_bind (m : μ) (k : Prog Op μ ω α) : (lock m k >>= f) = lock m (k >>= f) := rfl
@[simp] theorem unlock_bind (m : μ) (k : Prog Op μ ω α) : (unlock m k >>= f) = unlock m (k >>= f) := rfl
@[simp] theorem call_bind (o : Op γ) (k : γ → Prog Op μ ω α) : (call o k >>= f) = call o fun b => k b >>= f := rfl
@[simp] theorem send_bind (d : ω) (k : Prog Op μ ω α) : (send d k >>= f) = send d (k >>= f) := rfl
@[simp] theorem throw_bind : ((throw : Prog Op μ ω α) >>= f) = throw := rfl
@[simp] theorem undefined_bind : ((undefined : Prog Op μ ω α) >>= f) = undefined := rfl

@[simp] theorem acquire_bind (m : μ) (f : Unit → Prog Op μ ω β) : (acquire m >>= f) = lock m (f ()) := rfl
@[simp] theorem release_bind (m : μ) (f : Unit → Prog Op μ ω β) : (release m >>= f) = unlock m (f ()) := rfl
@[simp] theorem perform_bind (o : Op γ) (f : γ → Prog Op μ ω β) : (perform o >>= f) = call o f := rfl
@[simp] theorem output_bind (d : ω) (f : Unit → Prog Op μ ω β) : (output d >>= f) = send d (f ()) := rfl

end Simp

theorem bind_assoc {γ : Type} (p : Prog Op μ ω α) (f : α → Prog Op μ ω β) (g : β → Prog Op μ ω γ) :
    (p >>= f) >>= g = p >>= fun a => f a >>= g := by
  induction p with
  | lock m k ih => exact congrArg (Prog.lock m) ih
  | unlock m k ih => exact congrArg (Prog.unlock m) ih
  | call o k ih => exact congrArg (Prog.call o) (funext ih)
  | send d k ih => exact congrArg (Prog.send d) ih
  | pure | throw | undefined => rfl

end Prog

/-! ## Running a program alone -/

/-- How a program that runs alone ends: it returns, with the shared state, the mutexes it still holds and the messages
it sent; or an exception escapes; or its behaviour is undefined; or it waits for a mutex that it holds itself. -/
inductive Outcome (σ μ ω α : Type) where
  | ok (a : α) (s : σ) (held : List μ) (out : List ω)
  | exception
  | undefined
  | deadlock

namespace Outcome

variable {σ μ ω α β : Type}

/-- The outcome with `d` sent first. -/
def prepend (d : ω) : Outcome σ μ ω α → Outcome σ μ ω α
  | .ok a s held out => .ok a s held (d :: out)
  | o => o

/-- The outcome of a program followed by another. -/
def andThen : Outcome σ μ ω α → (α → σ → List μ → Outcome σ μ ω β) → Outcome σ μ ω β
  | .ok a s held out, f =>
    match f a s held with
    | .ok b s' held' out' => .ok b s' held' (out ++ out')
    | o => o
  | .exception, _ => .exception
  | .undefined, _ => .undefined
  | .deadlock, _ => .deadlock

@[simp] theorem prepend_ok (d : ω) (a : α) (s : σ) (held : List μ) (out : List ω) :
    (Outcome.ok a s held out).prepend d = .ok a s held (d :: out) := rfl

@[simp] theorem andThen_ok_nil (a : α) (s : σ) (held : List μ) (f : α → σ → List μ → Outcome σ μ ω β) :
    (Outcome.ok a s held []).andThen f = f a s held := by
  simp only [andThen]
  cases f a s held <;> rfl

theorem prepend_andThen (d : ω) (o : Outcome σ μ ω α) (f : α → σ → List μ → Outcome σ μ ω β) :
    (o.prepend d).andThen f = (o.andThen f).prepend d := by
  cases o with
  | ok a s held out =>
    simp only [prepend_ok, andThen]
    cases f a s held <;> rfl
  | _ => rfl

end Outcome

namespace Prog

variable {Op : Type → Type} {σ μ ω α β : Type} [Effect Op σ] [DecidableEq μ]

/-- The program run alone, from a shared state and the mutexes it holds. -/
def run : Prog Op μ ω α → σ → List μ → Outcome σ μ ω α
  | .pure a, s, held => .ok a s held []
  | .lock m k, s, held => if m ∈ held then .deadlock else k.run s (m :: held)
  | .unlock m k, s, held => if m ∈ held then k.run s (held.erase m) else .undefined
  | .call o k, s, held => (k (Effect.apply o s).1).run (Effect.apply o s).2 held
  | .send d k, s, held => (k.run s held).prepend d
  | .throw, _, _ => .exception
  | .undefined, _, _ => .undefined

@[simp] theorem run_pure (a : α) (s : σ) (held : List μ) :
    (.pure a : Prog Op μ ω α).run s held = .ok a s held [] := rfl

/-- Running one program after another. -/
theorem run_bind (p : Prog Op μ ω α) (f : α → Prog Op μ ω β) (s : σ) (held : List μ) :
    (p >>= f).run s held = (p.run s held).andThen fun a s' held' => (f a).run s' held' := by
  induction p generalizing s held with
  | pure a => simp
  | lock m k ih =>
    simp only [lock_bind, run]
    split
    · rfl
    · exact ih s _
  | unlock m k ih =>
    simp only [unlock_bind, run]
    split
    · exact ih s _
    · rfl
  | call o k ih => exact ih _ _ held
  | send d k ih => simp only [send_bind, run, Outcome.prepend_andThen, ih]
  | throw => rfl
  | undefined => rfl

/-- A scope that keeps the mutexes it holds runs as its body, and frees its own. -/
theorem run_withLock {m : μ} {p : Prog Op μ ω α} {s : σ} {held : List μ} (hm : m ∉ held) :
    (withLock m p).run s held = (p.run s (m :: held)).andThen fun a s' held' =>
      if m ∈ held' then .ok a s' (held'.erase m) [] else .undefined := by
  simp only [withLock, acquire_bind, release_bind, run, if_neg hm]
  rw [run_bind]
  rfl

theorem run_withLock_of_ok {m : μ} {p : Prog Op μ ω α} {s s' : σ} {held : List μ} {a : α} {out : List ω}
    (hm : m ∉ held) (h : p.run s (m :: held) = .ok a s' (m :: held) out) :
    (withLock m p).run s held = .ok a s' held out := by
  simp [run_withLock hm, h, Outcome.andThen]

end Prog
