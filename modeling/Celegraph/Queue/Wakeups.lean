import Celegraph.Queue.Ownership

/-!
# Packets, wake-ups and lost wake-ups

`packetQueueSyncVar.wait(ul)` has no predicate: a worker pops a packet whenever it wakes up, and only then. So two
numbers have to agree, the length of the queue and the number of workers that are awake and have not popped yet,
together with the notification that the main thread still owes after a push (`State.pending`).

- `Step.balance`: how one step changes the three numbers.
- A notification that finds nobody waiting leaves a packet without a worker: `not_stranded` holds of the runs where
  each notification finds a waiting worker or no packet is left over, and `stranded` is a run where one does not.
- A worker that wakes up by itself takes the place of another one: `access_defined` holds of the runs where a worker
  wakes up by itself only while there are more packets than workers on their way, `not_access_defined` is a run where
  one does not.
-/

namespace Celegraph.Queue

open Runs

variable {N : Nat} {α : Type}

/-- The number of workers that are awake and have not popped a packet yet. -/
def State.awake (s : State N α) : Nat := tally (fun w : Worker α => w.loc.isAwake) s.worker

/-- The notifications that the main thread still owes: one between its push and its `notify_one`. -/
def State.pending (s : State N α) : Nat :=
  match s.run with
  | .unlock | .notify => 1
  | _ => 0

/-- Moving a worker, in a state with the workers of `s`. -/
theorem awake_setWorker {s s₁ : State N α} (he : s₁.worker = s.worker) {i : Fin N} {w : Worker α}
    (hw : s.worker i = w) (w' : Worker α) :
    (s₁.setWorker i w').awake + (if w.loc.isAwake then 1 else 0) = s.awake + (if w'.loc.isAwake then 1 else 0) := by
  subst hw
  unfold State.awake
  rw [setWorker_worker, he]
  exact tally_update (fun w : Worker α => w.loc.isAwake) s.worker i w'

/-- A worker that stays asleep, or stays awake. -/
theorem awake_same {s s₁ : State N α} (he : s₁.worker = s.worker) {i : Fin N} {w w' : Worker α}
    (hw : s.worker i = w) (hsame : w'.loc.isAwake = w.loc.isAwake) : (s₁.setWorker i w').awake = s.awake := by
  have h := awake_setWorker he hw w'
  rw [hsame] at h
  exact Nat.add_right_cancel h

/-- A worker that wakes up. -/
theorem awake_wake {s s₁ : State N α} (he : s₁.worker = s.worker) {i : Fin N} {o : Bool}
    (hw : s.worker i = ⟨.blocked, o⟩) : (s₁.setWorker i ⟨.woken, o⟩).awake = s.awake + 1 := by
  simpa [WorkerLoc.isAwake] using awake_setWorker he hw ⟨.woken, o⟩

/-- A worker that has popped its packet. -/
theorem awake_pop {s s₁ : State N α} (he : s₁.worker = s.worker) {i : Fin N} {o : Bool} {p : α}
    (hw : s.worker i = ⟨.pop p, o⟩) : s.awake = (s₁.setWorker i ⟨.unlock p, o⟩).awake + 1 := by
  simpa [WorkerLoc.isAwake] using (awake_setWorker he hw ⟨.unlock p, o⟩).symm

/-- How a step changes the queue length, the number of awake workers and the notifications owed. -/
theorem Step.balance {s s' : State N α} {a : Act N α} (h : Step s a s') :
    (s'.packetQueue.length = s.packetQueue.length ∧ s'.awake = s.awake ∧ s'.pending = s.pending) ∨
    (s'.packetQueue.length = s.packetQueue.length + 1 ∧ s'.awake = s.awake ∧ s.pending = 0 ∧ s'.pending = 1) ∨
    ((∃ i, a = .notify (some i)) ∧ s'.packetQueue.length = s.packetQueue.length ∧ s'.awake = s.awake + 1 ∧
      s.pending = 1 ∧ s'.pending = 0) ∨
    (a = .notify none ∧ s'.packetQueue.length = s.packetQueue.length ∧ s'.awake = s.awake ∧ s.pending = 1 ∧
      s'.pending = 0) ∨
    (s.packetQueue.length = s'.packetQueue.length + 1 ∧ s.awake = s'.awake + 1 ∧ s'.pending = s.pending) ∨
    ((∃ i, a = .spurious i) ∧ s'.packetQueue.length = s.packetQueue.length ∧ s'.awake = s.awake + 1 ∧
      s'.pending = s.pending) := by
  cases h with
  | receive p hr | runLock p hr => exact .inl ⟨rfl, rfl, by simp [State.pending, hr]⟩
  | push p hr => exact .inr (.inl ⟨by simp, rfl, by simp [State.pending, hr], rfl⟩)
  | runUnlock hr => exact .inl ⟨rfl, rfl, by simp [State.pending, hr]⟩
  | notify i o hr hw =>
    exact .inr (.inr (.inl ⟨⟨i, rfl⟩, rfl, awake_wake rfl hw, by simp [State.pending, hr], rfl⟩))
  | notifyNone hr _ => exact .inr (.inr (.inr (.inl ⟨rfl, rfl, rfl, by simp [State.pending, hr], rfl⟩)))
  | construct i o hw _ | wait i o hw | relock i o hw _ | handle i o p hw | destroy i o hw =>
    exact .inl ⟨rfl, awake_same rfl hw rfl, rfl⟩
  | front i o p rest hw _ | unlock i o p hw => exact .inl ⟨rfl, awake_same rfl hw rfl, rfl⟩
  | spurious i o hw => exact .inr (.inr (.inr (.inr (.inr ⟨⟨i, rfl⟩, rfl, awake_wake rfl hw, rfl⟩))))
  | pop i o p q rest hw hq =>
    exact .inr (.inr (.inr (.inr (.inl ⟨by simp [hq], awake_pop rfl hw, rfl⟩))))
  | sizeLock | size | sizeUnlock => exact .inl ⟨rfl, rfl, rfl⟩

/-! ## Lost wake-ups -/

/-- A packet is queued, every worker is in `wait` and has not been notified, and the main thread is back in
`ReceivePacketFrom`. -/
def Stranded (s : State N α) : Prop :=
  s.packetQueue ≠ [] ∧ (∀ i, (s.worker i).loc.isBlocked = true) ∧ s.run = .receive

/-- The step is not a lost notification: if nobody waits at a `notify_one`, then every queued packet has an awake
worker already. A `notify_one` that wakes a worker finds it waiting. -/
def NotifyFindsWorker (s : State N α) : Act N α → Prop
  | .notify none => s.packetQueue.length ≤ s.awake
  | _ => True

/-- There are never more packets than workers on their way to them. -/
theorem Step.covered {s s' : State N α} {a : Act N α} (h : Step s a s') (hC : NotifyFindsWorker s a)
    (hs : s.packetQueue.length ≤ s.awake + s.pending) : s'.packetQueue.length ≤ s'.awake + s'.pending := by
  rcases h.balance with h | h | ⟨_, h⟩ | ⟨rfl, h⟩ | h | ⟨_, h⟩
  case inr.inr.inr.inl =>
    simp only [NotifyFindsWorker] at hC
    omega
  all_goals omega

section Runs

variable {tr : List (State N α × Act N α)} {s : State N α}

theorem run_covered (h : Run step (init N α) tr s) (hC : ∀ x ∈ tr, NotifyFindsWorker x.1 x.2) :
    s.packetQueue.length ≤ s.awake + s.pending :=
  h.invariant_where (C := NotifyFindsWorker) (I := fun s => s.packetQueue.length ≤ s.awake + s.pending)
    (Nat.zero_le _) (fun _ _ _ hI hC hst => (step_sound hst).covered hC hI) hC

theorem awake_eq_zero (h : ∀ i, (s.worker i).loc.isBlocked = true) : s.awake = 0 :=
  tally_eq_zero fun i => by rw [eq_blocked (h i)]; rfl

/-- A stranded packet has no worker on its way. -/
theorem not_stranded_of_covered (hs : s.packetQueue.length ≤ s.awake + s.pending) : ¬Stranded s := by
  rintro ⟨hne, hall, hrun⟩
  have hawake := awake_eq_zero hall
  have hpending : s.pending = 0 := by simp [State.pending, hrun]
  have := List.length_pos_iff.mpr hne
  omega

/-- **No packet is stranded** in a run whose notifications all find a waiting worker, or a worker for every queued
packet. -/
theorem not_stranded (h : Run step (init N α) tr s) (hC : ∀ x ∈ tr, NotifyFindsWorker x.1 x.2) : ¬Stranded s :=
  not_stranded_of_covered (run_covered h hC)

/-- A packet arrives, and is announced, before any of the four workers has reached `wait`. -/
def earlyPacket : List (Act NUM_WORKER_THREADS Unit) :=
  [.receive (), .run, .run, .run, .notify none, .worker 0, .worker 0, .worker 1, .worker 1, .worker 2, .worker 2,
    .worker 3, .worker 3]

/-- The packet stays in the queue, with all four workers asleep. -/
theorem stranded :
    ¬∀ (N : Nat) (α : Type) (tr : List (State N α × Act N α)) (s : State N α),
      1 ≤ N → Run step (init N α) tr s → ¬Stranded s := by
  intro hall
  obtain ⟨s, hs, hst⟩ : ∃ s, exec step (init NUM_WORKER_THREADS Unit) earlyPacket = some s ∧ Stranded s :=
    ⟨_, rfl, by decide, by decide, rfl⟩
  obtain ⟨tr, hr, _⟩ := Run.of_exec hs
  exact hall NUM_WORKER_THREADS Unit tr s (by decide) hr hst

/-- A packet that arrives after a worker has reached `wait` is taken. -/
def promptPacket : List (Act NUM_WORKER_THREADS Unit) :=
  [.worker 2, .worker 2, .receive (), .run, .run, .run, .notify (some 2), .worker 2, .worker 2, .worker 2, .worker 2]

theorem not_stranded_prompt :
    ∃ tr s, Run step (init NUM_WORKER_THREADS Unit) tr s ∧ tr.map Prod.snd = promptPacket ∧ ¬Stranded s := by
  obtain ⟨s, hs⟩ : ∃ s, exec step (init NUM_WORKER_THREADS Unit) promptPacket = some s := ⟨_, rfl⟩
  obtain ⟨tr, hr, hacts⟩ := Run.of_exec hs
  refine ⟨tr, s, hr, hacts, not_stranded hr (forall_of_acts hacts fun a ha _ => ?_)⟩
  simp only [promptPacket, List.mem_cons, List.not_mem_nil, or_false] at ha
  rcases ha with rfl | rfl | rfl | rfl | rfl | rfl | rfl | rfl | rfl | rfl | rfl <;> trivial

/-! ## Wake-ups without a notification -/

/-- A worker that is about to execute `packetQueue.front()` or `packetQueue.pop()` finds the queue non-empty. -/
def AccessDefined (s : State N α) : Prop :=
  ∀ i, (s.worker i).loc = .front ∨ (∃ p, (s.worker i).loc = .pop p) → s.packetQueue ≠ []

/-- A worker wakes up by itself only while there are more packets than awake workers and notifications owed. -/
def SpuriousHasPacket (s : State N α) : Act N α → Prop
  | .spurious _ => s.awake + s.pending < s.packetQueue.length
  | _ => True

/-- There is a packet for every worker on its way. -/
theorem Step.supplied {s s' : State N α} {a : Act N α} (h : Step s a s') (hC : SpuriousHasPacket s a)
    (hs : s.awake + s.pending ≤ s.packetQueue.length) : s'.awake + s'.pending ≤ s'.packetQueue.length := by
  rcases h.balance with h | h | ⟨_, h⟩ | ⟨_, h⟩ | h | ⟨⟨i, rfl⟩, h⟩
  case inr.inr.inr.inr.inr =>
    simp only [SpuriousHasPacket] at hC
    omega
  all_goals omega

theorem run_supplied (h : Run step (init N α) tr s) (hC : ∀ x ∈ tr, SpuriousHasPacket x.1 x.2) :
    s.awake + s.pending ≤ s.packetQueue.length := by
  refine h.invariant_where (C := SpuriousHasPacket) (I := fun s => s.awake + s.pending ≤ s.packetQueue.length)
    ?_ (fun _ _ _ hI hC hst => (step_sound hst).supplied hC hI) hC
  have : (init N α).awake = 0 := tally_eq_zero fun _ => rfl
  rw [this]
  exact Nat.le_refl 0

/-- An awake worker finds a packet. -/
theorem queue_ne_nil_of_awake (hs : s.awake + s.pending ≤ s.packetQueue.length) {i : Fin N}
    (hi : (s.worker i).loc.isAwake = true) : s.packetQueue ≠ [] := by
  have : 0 < s.awake := tally_pos (p := fun w : Worker α => w.loc.isAwake) (i := i) hi
  exact List.length_pos_iff.mp (by omega)

/-- Workers before `front` or `pop` are awake. -/
theorem accessDefined_of_supplied (hs : s.awake + s.pending ≤ s.packetQueue.length) : AccessDefined s := by
  intro i hi
  refine queue_ne_nil_of_awake hs (i := i) ?_
  rcases hi with hi | ⟨p, hi⟩ <;> rw [hi] <;> rfl

/-- **`front` and `pop` are defined** in a run where a worker wakes up by itself only while a packet is left for it. -/
theorem access_defined (h : Run step (init N α) tr s) (hC : ∀ x ∈ tr, SpuriousHasPacket x.1 x.2) :
    AccessDefined s := accessDefined_of_supplied (run_supplied h hC)

/-- A worker of the four wakes up by itself while the queue is empty. -/
def wakeUpAlone : List (Act NUM_WORKER_THREADS Unit) := [.worker 0, .worker 0, .spurious 0, .worker 0]

/-- It is about to execute `front` on the empty queue. -/
theorem not_access_defined :
    ¬∀ (N : Nat) (α : Type) (tr : List (State N α × Act N α)) (s : State N α),
      Run step (init N α) tr s → AccessDefined s := by
  intro hall
  obtain ⟨s, hs, hloc, hq⟩ : ∃ s, exec step (init NUM_WORKER_THREADS Unit) wakeUpAlone = some s ∧
      (s.worker 0).loc = .front ∧ s.packetQueue = [] := ⟨_, rfl, rfl, rfl⟩
  obtain ⟨tr, hr, _⟩ := Run.of_exec hs
  exact hall NUM_WORKER_THREADS Unit tr s hr 0 (.inl hloc) hq

/-- The packet of `promptPacket`, up to the `front` of its worker. -/
theorem access_defined_prompt :
    ∃ tr s, Run step (init NUM_WORKER_THREADS Unit) tr s ∧ tr.map Prod.snd = promptPacket.take 8 ∧
      (s.worker 2).loc = .front ∧ AccessDefined s := by
  obtain ⟨s, hs, hloc⟩ : ∃ s, exec step (init NUM_WORKER_THREADS Unit) (promptPacket.take 8) = some s ∧
      (s.worker 2).loc = .front := ⟨_, rfl, rfl⟩
  obtain ⟨tr, hr, hacts⟩ := Run.of_exec hs
  refine ⟨tr, s, hr, hacts, hloc, access_defined hr (forall_of_acts hacts fun a ha _ => ?_)⟩
  simp only [promptPacket, List.take, List.mem_cons, List.not_mem_nil, or_false] at ha
  rcases ha with rfl | rfl | rfl | rfl | rfl | rfl | rfl | rfl <;> trivial

end Runs

end Celegraph.Queue
