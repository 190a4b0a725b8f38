import Celegraph.Queue.Settling

/-!
# Where the packets are

`Accounts`, in every state that a run reaches: the packets received are those popped and those in the queue; the
packets popped are those handled and those that a worker still has; and for every packet in the queue there is a
worker on its way or a notification to come, or a notification was lost (`lost`), up to the workers that have woken up
by themselves (`woken`). So when the threads are at rest, a packet is left over for every notification that was lost,
but for one packet for each worker that woke up by itself (`Accounts.at_rest`).

These are counts: they hold even where two threads are in a section of `packetQueueMutex` at a time, and a worker has
a packet that another one pops.
-/

namespace Celegraph.Queue

open Runs

variable {N : Nat} {α : Type}

/-- The worker has popped a packet and not handled it yet. -/
def WorkerLoc.hasPacket : WorkerLoc α → Bool
  | .unlock _ | .handle _ => true
  | _ => false

/-- The packets that the workers have. -/
def State.held (s : State N α) : Nat := tally (fun w : Worker α => w.loc.hasPacket) s.worker

/-- The notification finds nobody waiting. -/
def Act.isLost : Act N α → Bool
  | .notify none => true
  | _ => false

/-- A worker wakes up by itself. -/
def Act.isSpurious : Act N α → Bool
  | .spurious _ => true
  | _ => false

/-- A packet is handled. -/
def handles (s : State N α) : Act N α → Bool
  | .worker i =>
    match (s.worker i).loc with
    | .handle _ => true
    | _ => false
  | _ => false

def lost (tr : List (State N α × Act N α)) : Nat := tr.countP fun x => x.2.isLost

def woken (tr : List (State N α × Act N α)) : Nat := tr.countP fun x => x.2.isSpurious

def handled (tr : List (State N α × Act N α)) : Nat := tr.countP fun x => handles x.1 x.2

/-! ## What a step changes -/

/-- Moving a worker, in a state with the workers of `s`. -/
theorem held_setWorker {s r : State N α} (he : r.worker = s.worker) {i : Fin N} {w : Worker α} (hw : s.worker i = w)
    (w' : Worker α) :
    (r.setWorker i w').held + (if w.loc.hasPacket then 1 else 0) = s.held + (if w'.loc.hasPacket then 1 else 0) := by
  subst hw
  unfold State.held
  rw [setWorker_worker, he]
  exact tally_update (fun w : Worker α => w.loc.hasPacket) s.worker i w'

variable {s s' : State N α} {a : Act N α}

/-- A packet that is pushed is in the queue until it is popped. -/
theorem Step.received (h : Step s a s') : s'.received.length + (s.taken.length + s.packetQueue.length) =
    s.received.length + (s'.taken.length + s'.packetQueue.length) := by
  cases h with
  | push => simp only [List.length_append, List.length_singleton]; omega
  | pop _ _ _ _ _ _ hq => simp only [State.setWorker, hq, List.length_append, List.length_cons, List.length_nil]; omega
  | _ => rfl

/-- A packet that is popped is with its worker until it is handled. -/
theorem Step.held (h : Step s a s') : s'.taken.length + s.held =
    s.taken.length + s'.held + (if handles s a then 1 else 0) := by
  -- a worker that neither pops nor handles
  have hsame {r : State N α} {i : Fin N} {w w' : Worker α} (he : r.worker = s.worker) (ht : r.taken = s.taken)
      (hw : s.worker i = w) (hw' : w'.loc.hasPacket = w.loc.hasPacket) (hno : handles s a = false) :
      (r.setWorker i w').taken.length + s.held =
        s.taken.length + (r.setWorker i w').held + (if handles s a then 1 else 0) := by
    have hheld := held_setWorker he hw w'
    have htaken : (r.setWorker i w').taken = s.taken := ht
    rw [hw'] at hheld
    simp only [htaken, hno, Bool.false_eq_true, ↓reduceIte]
    omega
  cases h with
  | receive | runLock | push | runUnlock | notifyNone | sizeLock | size | sizeUnlock => rfl
  | notify i o _ hw | spurious i o hw => exact hsame rfl rfl hw rfl rfl
  | construct i o hw | wait i o hw | relock i o hw | front i o _ _ hw | unlock i o _ hw | destroy i o hw =>
    exact hsame rfl rfl hw rfl (by simp [handles, hw])
  | pop i o p q rest hw =>
    have hheld := held_setWorker (s := s) (r := { s with packetQueue := rest, taken := s.taken ++ [(i, p)] }) rfl hw
      ⟨.unlock p, o⟩
    have hno : handles s (.worker i) = false := by simp [handles, hw]
    simp only [WorkerLoc.hasPacket, Bool.false_eq_true, ↓reduceIte] at hheld
    show (s.taken ++ [(i, p)]).length + s.held = _
    simp only [hno, List.length_append, List.length_singleton, Bool.false_eq_true, ↓reduceIte]
    omega
  | handle i o p hw =>
    have hheld := held_setWorker (s := s) (r := s) rfl hw ⟨.destroy, o⟩
    have hyes : handles s (.worker i) = true := by simp [handles, hw]
    have htaken : (s.setWorker i ⟨.destroy, o⟩).taken = s.taken := rfl
    simp only [WorkerLoc.hasPacket, Bool.false_eq_true, ↓reduceIte] at hheld
    simp only [hyes, htaken, ↓reduceIte]
    omega

/-- A packet in the queue has a worker on its way, or a notification to come, unless the notification is lost. -/
theorem Step.account (h : Step s a s') :
    s'.packetQueue.length + (s.awake + s.pending) + (if a.isSpurious then 1 else 0) =
      s.packetQueue.length + (s'.awake + s'.pending) + (if a.isLost then 1 else 0) := by
  cases a with
  | run | worker | size => exact (h.settles rfl).balance
  | receive =>
    cases h with
    | receive _ hr => simp [State.pending, hr, State.awake, Act.isLost, Act.isSpurious]
  | notify w =>
    cases h with
    | notify i o hr hw =>
      have hawake : ({ s with run := .receive }.setWorker i ⟨.woken, o⟩ : State N α).awake = s.awake + 1 :=
        awake_wake rfl hw
      simp only [hawake, Act.isLost, Act.isSpurious, Bool.false_eq_true, ↓reduceIte]
      simp only [State.pending, hr, State.setWorker]
    | notifyNone hr => simp [State.pending, hr, State.awake, Act.isLost, Act.isSpurious, Nat.add_assoc]
  | spurious i =>
    cases h with
    | spurious _ o hw =>
      have hawake : (s.setWorker i ⟨.woken, o⟩).awake = s.awake + 1 := awake_wake rfl hw
      simp only [hawake, Act.isLost, Act.isSpurious, Bool.false_eq_true, ↓reduceIte]
      simp only [State.pending, State.setWorker]
      omega

/-! ## The accounts of a run -/

structure Accounts (tr : List (State N α × Act N α)) (s : State N α) : Prop where
  received : s.received.length = s.taken.length + s.packetQueue.length
  taken : s.taken.length = handled tr + s.held
  queued : s.packetQueue.length + woken tr = s.awake + s.pending + lost tr

variable {tr : List (State N α × Act N α)}

theorem Accounts.step (h : Accounts tr s) (hst : Step s a s') : Accounts (tr ++ [(s, a)]) s' where
  received := by
    have := h.received
    have := hst.received
    omega
  taken := by
    have := h.taken
    have := hst.held
    simp only [handled, List.countP_append, List.countP_singleton] at *
    omega
  queued := by
    have := h.queued
    have := hst.account
    simp only [woken, lost, List.countP_append, List.countP_singleton] at *
    omega

theorem run_accounts (h : Run step (init N α) tr s) : Accounts tr s := by
  induction h with
  | init =>
    have hheld : (init N α).held = 0 := tally_eq_zero fun _ => rfl
    have hawake : (init N α).awake = 0 := tally_eq_zero fun _ => rfl
    exact ⟨rfl, by rw [hheld]; rfl, by rw [hawake]; rfl⟩
  | step _ hst ih => exact ih.step (step_sound hst)

/-- What is left over when the threads are at rest. -/
theorem Accounts.at_rest (h : Accounts tr s) (hrun : s.run = .receive)
    (hall : ∀ i, (s.worker i).loc.isBlocked = true) :
    handled tr + s.packetQueue.length = s.received.length ∧ s.packetQueue.length + woken tr = lost tr := by
  have hheld : s.held = 0 := tally_eq_zero fun i => by rw [eq_blocked (hall i)]; rfl
  have hawake := awake_eq_zero hall
  have hpending : s.pending = 0 := by simp [State.pending, hrun]
  have := h.received
  have := h.taken
  have := h.queued
  omega

end Celegraph.Queue
