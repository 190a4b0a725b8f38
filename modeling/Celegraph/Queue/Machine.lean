import Celegraph.Lib.Runs
import Mathlib.Algebra.Ring.Nat

/-!
# The packet queue: the receive loop, the workers and the shell

`Server::Run`, `N` copies of `Server::WorkerThread` and the admin shell's calls of `Server::GetPacketQueueSize`, as
a machine whose steps are the single operations on `packetQueueMutex`, `packetQueue` and `packetQueueSyncVar`. Any
thread may take the next step.

- `State`: the mutex and its owner, the queue, where each thread is, and two logs that no step reads: the packets
  pushed so far (`received`) and the packets popped so far with the worker that popped them (`taken`).
- `step`: what each operation does. The mutex is the default pthread one: an unlock frees it, whoever holds it.
  `notify_one` wakes one of the threads in `wait`, and does nothing if there is none; a thread in `wait` may also
  wake up by itself. `front` and `pop` of an empty queue are undefined: there the machine has no step.
- `Step`: the same, with one constructor for each operation (`step_sound`).

What a worker does with its packet between `packetQueueMutex.unlock()` and the end of the iteration is one step
here: the handlers use neither the queue nor its mutex.
-/

namespace Celegraph.Queue

open Runs

/-- The threads that use `packetQueueMutex`. -/
inductive Thread (N : Nat) where
  | main
  | shell
  | worker (i : Fin N)
  deriving DecidableEq

/-- Where `Server::Run` is in its loop: before the operation named. -/
inductive RunLoc (α : Type) where
  | receive
  | lock (p : α)
  | push (p : α)
  | unlock
  | notify

/-- Where the shell is in `Server::GetPacketQueueSize`; before `lock` it is elsewhere. -/
inductive SizeLoc where
  | lock
  | size
  | unlock

/-- Where `Server::WorkerThread` is in its loop: before the operation named. -/
inductive WorkerLoc (α : Type) where
  /-- Before `std::unique_lock<std::mutex> ul(packetQueueMutex)`. -/
  | construct
  /-- Before `packetQueueSyncVar.wait(ul)`. -/
  | wait
  /-- Blocked in `wait`, not notified. -/
  | blocked
  /-- In `wait`, woken up, before the mutex is locked again. -/
  | woken
  | front
  | pop (p : α)
  /-- Before `packetQueueMutex.unlock()`. -/
  | unlock (p : α)
  | handle (p : α)
  /-- At the end of the iteration, before `ul` is destroyed. -/
  | destroy

/-- A worker: its place, and whether its `unique_lock` believes that it owns the mutex. -/
structure Worker (α : Type) where
  loc : WorkerLoc α
  owns : Bool

/-- A state of the machine. -/
structure State (N : Nat) (α : Type) where
  packetQueueMutex : Option (Thread N)
  packetQueue : List α
  run : RunLoc α
  size : SizeLoc
  worker : Fin N → Worker α
  received : List α
  taken : List (Fin N × α)

/-- The steps: the thread that takes one, and what the environment chooses in it (the datagram that arrives, the
waiting worker that `notify_one` wakes). -/
inductive Act (N : Nat) (α : Type) where
  | receive (p : α)
  | run
  | notify (w : Option (Fin N))
  | worker (i : Fin N)
  | spurious (i : Fin N)
  | size

/-- The worker is in `wait` and has not been notified. -/
def WorkerLoc.isBlocked {α : Type} : WorkerLoc α → Bool
  | .blocked => true
  | _ => false

/-- The worker has been woken up and has not popped its packet yet. -/
def WorkerLoc.isAwake {α : Type} : WorkerLoc α → Bool
  | .woken | .front | .pop _ => true
  | _ => false

section Steps

variable {N : Nat} {α : Type}

/-- The server when `Run` starts: nothing received, the workers just spawned. -/
def init (N : Nat) (α : Type) : State N α where
  packetQueueMutex := none
  packetQueue := []
  run := .receive
  size := .lock
  worker _ := ⟨.construct, false⟩
  received := []
  taken := []

/-- The number of workers that `Server::Run` spawns. -/
def NUM_WORKER_THREADS : Nat := 4

instance neZero_numWorkerThreads : NeZero NUM_WORKER_THREADS := ⟨Nat.succ_ne_zero 3⟩

/-- The state with worker `i` moved. -/
def State.setWorker (s : State N α) (i : Fin N) (w : Worker α) : State N α :=
  { s with worker := Function.update s.worker i w }

/-- `Server::Run`, from `packetQueueMutex.lock()` to `packetQueueMutex.unlock()`. -/
def runStep (s : State N α) : Option (State N α) :=
  match s.run with
  | .lock p =>
    if s.packetQueueMutex = none then some { s with packetQueueMutex := some .main, run := .push p } else none
  | .push p => some { s with packetQueue := s.packetQueue ++ [p], received := s.received ++ [p], run := .unlock }
  | .unlock => some { s with packetQueueMutex := none, run := .notify }
  | .receive | .notify => none

/-- `packetQueueSyncVar.notify_one()`: it wakes a worker that waits; without one it has no effect. -/
def notifyStep (s : State N α) : Option (Fin N) → Option (State N α)
  | some i =>
    match s.run with
    | .notify =>
      if (s.worker i).loc.isBlocked then
        some ({ s with run := .receive }.setWorker i ⟨.woken, (s.worker i).owns⟩)
      else none
    | _ => none
  | none =>
    match s.run with
    | .notify => if ∀ i, (s.worker i).loc.isBlocked = false then some { s with run := .receive } else none
    | _ => none

/-- The loop body of `Server::WorkerThread`. -/
def workerStep (s : State N α) (i : Fin N) : Option (State N α) :=
  match s.worker i with
  | ⟨.construct, _⟩ =>
    if s.packetQueueMutex = none then
      some ({ s with packetQueueMutex := some (.worker i) }.setWorker i ⟨.wait, true⟩)
    else none
  | ⟨.wait, _⟩ => some ({ s with packetQueueMutex := none }.setWorker i ⟨.blocked, false⟩)
  | ⟨.blocked, _⟩ => none
  | ⟨.woken, _⟩ =>
    if s.packetQueueMutex = none then
      some ({ s with packetQueueMutex := some (.worker i) }.setWorker i ⟨.front, true⟩)
    else none
  | ⟨.front, o⟩ =>
    match s.packetQueue with
    | [] => none
    | p :: _ => some (s.setWorker i ⟨.pop p, o⟩)
  | ⟨.pop p, o⟩ =>
    match s.packetQueue with
    | [] => none
    | _ :: rest => some ({ s with packetQueue := rest, taken := s.taken ++ [(i, p)] }.setWorker i ⟨.unlock p, o⟩)
  | ⟨.unlock p, o⟩ => some ({ s with packetQueueMutex := none }.setWorker i ⟨.handle p, o⟩)
  | ⟨.handle _, o⟩ => some (s.setWorker i ⟨.destroy, o⟩)
  | ⟨.destroy, o⟩ =>
    -- `~unique_lock` unlocks the mutex if the lock owns it; the raw unlock above did not tell it
    some ({ s with packetQueueMutex := if o then none else s.packetQueueMutex }.setWorker i ⟨.construct, false⟩)

/-- `Server::GetPacketQueueSize`. -/
def sizeStep (s : State N α) : Option (State N α) :=
  match s.size with
  | .lock => if s.packetQueueMutex = none then some { s with packetQueueMutex := some .shell, size := .size } else none
  | .size => some { s with size := .unlock }
  | .unlock => some { s with packetQueueMutex := none, size := .lock }

/-- One step of the machine. -/
def step (s : State N α) : Act N α → Option (State N α)
  | .receive p =>
    match s.run with
    | .receive => some { s with run := .lock p }
    | _ => none
  | .run => runStep s
  | .notify w => notifyStep s w
  | .worker i => workerStep s i
  | .spurious i =>
    if (s.worker i).loc.isBlocked then some (s.setWorker i ⟨.woken, (s.worker i).owns⟩) else none
  | .size => sizeStep s

/-- The steps, one constructor for each operation. -/
inductive Step : State N α → Act N α → State N α → Prop
  | receive {s} (p : α) : s.run = .receive → Step s (.receive p) { s with run := .lock p }
  | runLock {s} (p : α) : s.run = .lock p → s.packetQueueMutex = none →
      Step s .run { s with packetQueueMutex := some .main, run := .push p }
  | push {s} (p : α) : s.run = .push p →
      Step s .run { s with packetQueue := s.packetQueue ++ [p], received := s.received ++ [p], run := .unlock }
  | runUnlock {s} : s.run = .unlock → Step s .run { s with packetQueueMutex := none, run := .notify }
  | notify {s} (i : Fin N) (o : Bool) : s.run = .notify → s.worker i = ⟨.blocked, o⟩ →
      Step s (.notify (some i)) ({ s with run := .receive }.setWorker i ⟨.woken, o⟩)
  | notifyNone {s} : s.run = .notify → (∀ i, (s.worker i).loc.isBlocked = false) →
      Step s (.notify none) { s with run := .receive }
  | construct {s} (i : Fin N) (o : Bool) : s.worker i = ⟨.construct, o⟩ → s.packetQueueMutex = none →
      Step s (.worker i) ({ s with packetQueueMutex := some (.worker i) }.setWorker i ⟨.wait, true⟩)
  | wait {s} (i : Fin N) (o : Bool) : s.worker i = ⟨.wait, o⟩ →
      Step s (.worker i) ({ s with packetQueueMutex := none }.setWorker i ⟨.blocked, false⟩)
  | spurious {s} (i : Fin N) (o : Bool) : s.worker i = ⟨.blocked, o⟩ →
      Step s (.spurious i) (s.setWorker i ⟨.woken, o⟩)
  | relock {s} (i : Fin N) (o : Bool) : s.worker i = ⟨.woken, o⟩ → s.packetQueueMutex = none →
      Step s (.worker i) ({ s with packetQueueMutex := some (.worker i) }.setWorker i ⟨.front, true⟩)
  | front {s} (i : Fin N) (o : Bool) (p : α) (rest : List α) : s.worker i = ⟨.front, o⟩ →
      s.packetQueue = p :: rest → Step s (.worker i) (s.setWorker i ⟨.pop p, o⟩)
  | pop {s} (i : Fin N) (o : Bool) (p q : α) (rest : List α) : s.worker i = ⟨.pop p, o⟩ →
      s.packetQueue = q :: rest →
      Step s (.worker i) ({ s with packetQueue := rest, taken := s.taken ++ [(i, p)] }.setWorker i ⟨.unlock p, o⟩)
  | unlock {s} (i : Fin N) (o : Bool) (p : α) : s.worker i = ⟨.unlock p, o⟩ →
      Step s (.worker i) ({ s with packetQueueMutex := none }.setWorker i ⟨.handle p, o⟩)
  | handle {s} (i : Fin N) (o : Bool) (p : α) : s.worker i = ⟨.handle p, o⟩ →
      Step s (.worker i) (s.setWorker i ⟨.destroy, o⟩)
  | destroy {s} (i : Fin N) (o : Bool) : s.worker i = ⟨.destroy, o⟩ →
      Step s (.worker i)
        ({ s with packetQueueMutex := if o then none else s.packetQueueMutex }.setWorker i ⟨.construct, false⟩)
  | sizeLock {s} : s.size = .lock → s.packetQueueMutex = none →
      Step s .size { s with packetQueueMutex := some .shell, size := .size }
  | size {s} : s.size = .size → Step s .size { s with size := .unlock }
  | sizeUnlock {s} : s.size = .unlock → Step s .size { s with packetQueueMutex := none, size := .lock }

theorem eq_blocked {w : Worker α} (h : w.loc.isBlocked = true) : w = ⟨.blocked, w.owns⟩ := by
  obtain ⟨loc, o⟩ := w
  cases loc <;> simp_all [WorkerLoc.isBlocked]

theorem runStep_sound {s s' : State N α} (h : runStep s = some s') : Step s .run s' := by
  unfold runStep at h
  split at h
  · rename_i p hp
    split at h
    · rename_i hm; cases h; exact .runLock p hp hm
    · cases h
  · rename_i p hp; cases h; exact .push p hp
  · rename_i hp; cases h; exact .runUnlock hp
  all_goals cases h

theorem notifyStep_sound {s s' : State N α} {w : Option (Fin N)} (h : notifyStep s w = some s') :
    Step s (.notify w) s' := by
  cases w with
  | some i =>
    simp only [notifyStep] at h
    split at h
    · rename_i hr
      split at h
      · rename_i hb; cases h; exact .notify i _ hr (eq_blocked hb)
      · cases h
    · cases h
  | none =>
    simp only [notifyStep] at h
    split at h
    · rename_i hr
      split at h
      · rename_i hb; cases h; exact .notifyNone hr hb
      · cases h
    · cases h

theorem workerStep_sound {s s' : State N α} {i : Fin N} (h : workerStep s i = some s') :
    Step s (.worker i) s' := by
  unfold workerStep at h
  split at h
  · rename_i o hw
    split at h
    · rename_i hm; cases h; exact .construct i o hw hm
    · cases h
  · rename_i o hw; cases h; exact .wait i o hw
  · cases h
  · rename_i o hw
    split at h
    · rename_i hm; cases h; exact .relock i o hw hm
    · cases h
  · rename_i o hw
    split at h
    · cases h
    · rename_i p rest hq; cases h; exact .front i o p rest hw hq
  · rename_i p o hw
    split at h
    · cases h
    · rename_i q rest hq; cases h; exact .pop i o p q rest hw hq
  · rename_i p o hw; cases h; exact .unlock i o p hw
  · rename_i p o hw; cases h; exact .handle i o p hw
  · rename_i o hw; cases h; exact .destroy i o hw

theorem sizeStep_sound {s s' : State N α} (h : sizeStep s = some s') : Step s .size s' := by
  unfold sizeStep at h
  split at h
  · rename_i hs
    split at h
    · rename_i hm; cases h; exact .sizeLock hs hm
    · cases h
  · rename_i hs; cases h; exact .size hs
  · rename_i hs; cases h; exact .sizeUnlock hs

/-- Everything a step can do. -/
theorem step_sound {s s' : State N α} {a : Act N α} (h : step s a = some s') : Step s a s' := by
  cases a with
  | receive p =>
    simp only [step] at h
    split at h
    · rename_i hr; cases h; exact .receive p hr
    · cases h
  | run => exact runStep_sound h
  | notify w => exact notifyStep_sound h
  | worker i => exact workerStep_sound h
  | spurious i =>
    simp only [step] at h
    split at h
    · rename_i hb; cases h; exact .spurious i _ (eq_blocked hb)
    · cases h
  | size => exact sizeStep_sound h

end Steps

end Celegraph.Queue
