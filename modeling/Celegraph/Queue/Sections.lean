import Celegraph.Queue.Wakeups

/-!
# The queue with atomic critical sections

The machine of `Machine.lean` run a section at a time: from the lock of `packetQueueMutex` to its unlock no other
thread takes a step, and `wait` returns only after a `notify_one` has chosen the thread.

- `Sec`: the sections and the single steps between them; `Sec.acts`: the operations each consists of.
- `secStep_sound`: what each does, as one update of the state.
- `secRun_refines`: a run of sections is a run of the machine, in which nobody wakes up by itself.
- `fifo_exactly_once`: the packets pushed are the packets popped followed by the queue, each popped by one worker, and
  a worker that has been notified finds a packet.
-/

namespace Celegraph.Queue

open Runs

variable {N : Nat} {α : Type}

/-- The steps of the threads, a critical section at a time. -/
inductive Sec (N : Nat) (α : Type) where
  | receive (p : α)
  /-- `lock`, `push`, `unlock` of the main thread. -/
  | push
  | notify (w : Option (Fin N))
  /-- A worker locks the mutex and enters `wait`. -/
  | enter (i : Fin N)
  /-- A notified worker locks the mutex again, copies and pops a packet, and unlocks. -/
  | take (i : Fin N)
  | handle (i : Fin N)
  | destroy (i : Fin N)
  /-- `GetPacketQueueSize` of the shell. -/
  | size

/-- The operations of a section. -/
def Sec.acts : Sec N α → List (Act N α)
  | .receive p => [.receive p]
  | .push => [.run, .run, .run]
  | .notify w => [.notify w]
  | .enter i => [.worker i, .worker i]
  | .take i => [.worker i, .worker i, .worker i, .worker i]
  | .handle i | .destroy i => [.worker i]
  | .size => [.size, .size, .size]

/-- The thread of the section is where the section starts. -/
def Sec.starts (s : State N α) : Sec N α → Bool
  | .push => match s.run with
    | .lock _ => true
    | _ => false
  | .enter i => match (s.worker i).loc with
    | .construct => true
    | _ => false
  | .take i => match (s.worker i).loc with
    | .woken => true
    | _ => false
  | .handle i => match (s.worker i).loc with
    | .handle _ => true
    | _ => false
  | .destroy i => match (s.worker i).loc with
    | .destroy => true
    | _ => false
  | .size => match s.size with
    | .lock => true
    | _ => false
  | .receive _ | .notify _ => true

/-- One section, without a step of another thread in between. -/
def secStep (s : State N α) (c : Sec N α) : Option (State N α) :=
  if c.starts s then exec step s c.acts else none

/-! ## What a section does -/

/-- The sections, one constructor for each. -/
inductive SecStep : State N α → Sec N α → State N α → Prop
  | receive {s} (p : α) : s.run = .receive → SecStep s (.receive p) { s with run := .lock p }
  | push {s} (p : α) : s.run = .lock p → s.packetQueueMutex = none →
      SecStep s .push { s with packetQueue := s.packetQueue ++ [p], received := s.received ++ [p], run := .notify }
  | notify {s} (i : Fin N) (o : Bool) : s.run = .notify → s.worker i = ⟨.blocked, o⟩ →
      SecStep s (.notify (some i)) ({ s with run := .receive }.setWorker i ⟨.woken, o⟩)
  | notifyNone {s} : s.run = .notify → (∀ i, (s.worker i).loc.isBlocked = false) →
      SecStep s (.notify none) { s with run := .receive }
  | enter {s} (i : Fin N) (o : Bool) : s.worker i = ⟨.construct, o⟩ → s.packetQueueMutex = none →
      SecStep s (.enter i) (s.setWorker i ⟨.blocked, false⟩)
  | take {s} (i : Fin N) (o : Bool) (p : α) (rest : List α) : s.worker i = ⟨.woken, o⟩ →
      s.packetQueueMutex = none → s.packetQueue = p :: rest →
      SecStep s (.take i)
        ({ s with packetQueue := rest, taken := s.taken ++ [(i, p)] }.setWorker i ⟨.handle p, true⟩)
  | handle {s} (i : Fin N) (o : Bool) (p : α) : s.worker i = ⟨.handle p, o⟩ →
      SecStep s (.handle i) (s.setWorker i ⟨.destroy, o⟩)
  | destroy {s} (i : Fin N) (o : Bool) : s.worker i = ⟨.destroy, o⟩ →
      SecStep s (.destroy i)
        ({ s with packetQueueMutex := if o then none else s.packetQueueMutex }.setWorker i ⟨.construct, false⟩)
  | size {s} : s.size = .lock → s.packetQueueMutex = none → SecStep s .size s

/-- Everything a section can do. -/
theorem secStep_sound {s s' : State N α} {c : Sec N α} (h : secStep s c = some s') : SecStep s c s' := by
  unfold secStep at h
  split at h
  case isFalse => cases h
  case isTrue hst =>
    obtain ⟨m, q, r, z, w, rc, t⟩ := s
    cases c with
    | receive p =>
      simp only [Sec.acts, exec, Option.bind_eq_some_iff, Option.some.injEq, exists_eq_right] at h
      cases step_sound h with
      | receive _ hr => exact .receive p hr
    | push =>
      cases r <;> simp [Sec.starts] at hst
      cases m <;> simp [Sec.acts, exec, step, runStep] at h
      subst h
      exact .push _ rfl rfl
    | notify w =>
      simp only [Sec.acts, exec, Option.bind_eq_some_iff, Option.some.injEq, exists_eq_right] at h
      cases step_sound h with
      | notify i o hr hw => exact .notify i o hr hw
      | notifyNone hr hall => exact .notifyNone hr hall
    | enter i =>
      rcases hw : w i with ⟨loc, o⟩
      cases loc <;> simp [Sec.starts, hw] at hst
      cases m <;> simp [Sec.acts, exec, step, workerStep, hw, State.setWorker] at h
      subst h
      exact .enter i o hw rfl
    | take i =>
      rcases hw : w i with ⟨loc, o⟩
      cases loc <;> simp [Sec.starts, hw] at hst
      cases m <;> cases q <;> simp [Sec.acts, exec, step, workerStep, hw, State.setWorker] at h
      subst h
      exact .take i o _ _ hw rfl rfl
    | handle i =>
      rcases hw : w i with ⟨loc, o⟩
      cases loc <;> simp [Sec.starts, hw] at hst
      simp [Sec.acts, exec, step, workerStep, hw] at h
      subst h
      exact .handle i o _ hw
    | destroy i =>
      rcases hw : w i with ⟨loc, o⟩
      cases loc <;> simp [Sec.starts, hw] at hst
      simp only [Sec.acts, exec, Option.bind_eq_some_iff, Option.some.injEq, exists_eq_right] at h
      simp [step, workerStep, hw] at h
      subst h
      exact .destroy i o hw
    | size =>
      cases z <;> simp [Sec.starts] at hst
      cases m <;> simp [Sec.acts, exec, step, sizeStep] at h
      subst h
      exact .size rfl rfl

/-! ## Runs of sections are runs of the machine -/

/-- No section contains a wake-up without a notification. -/
theorem not_spurious_of_mem_acts {c : Sec N α} {a : Act N α} (h : a ∈ c.acts) (i : Fin N) : a ≠ .spurious i := by
  rintro rfl
  cases c <;> simp [Sec.acts] at h

/-- **Refinement**: the operations of a run of sections, one after the other, are a run of the machine. -/
theorem secRun_refines {tr : List (State N α × Sec N α)} {s : State N α} (h : Run secStep (init N α) tr s) :
    ∃ tr', Run step (init N α) tr' s ∧ tr'.map Prod.snd = (tr.map Prod.snd).flatMap Sec.acts := by
  induction h with
  | init => exact ⟨[], .init, rfl⟩
  | @step tr s s' c _ hst ih =>
    obtain ⟨tr', hr, hacts⟩ := ih
    unfold secStep at hst
    split at hst
    · obtain ⟨tr'', hr', hacts'⟩ := hr.exec hst
      exact ⟨tr' ++ tr'', hr', by simp [hacts, hacts']⟩
    · cases hst

/-- A worker that has been notified finds a packet. -/
theorem secRun_woken {tr : List (State N α × Sec N α)} {s : State N α} (h : Run secStep (init N α) tr s) {i : Fin N}
    (hi : (s.worker i).loc = .woken) : s.packetQueue ≠ [] := by
  obtain ⟨tr', hr, hacts⟩ := secRun_refines h
  have hC : ∀ x ∈ tr', SpuriousHasPacket x.1 x.2 := by
    refine forall_of_acts hacts fun a ha _ => ?_
    obtain ⟨c, _, hc⟩ := List.mem_flatMap.mp ha
    cases a with
    | spurious j => exact absurd rfl (not_spurious_of_mem_acts hc j)
    | _ => trivial
  exact queue_ne_nil_of_awake (run_supplied hr hC) (i := i) (by rw [hi]; rfl)

/-! ## First in, first out -/

/-- The packets pushed are the packets popped, in order, followed by the queue. -/
def Fifo (s : State N α) : Prop := s.received = s.taken.map Prod.snd ++ s.packetQueue

theorem SecStep.fifo {s s' : State N α} {c : Sec N α} (h : SecStep s c s') (hs : Fifo s) : Fifo s' := by
  unfold Fifo at *
  cases h with
  | push p => simp [hs]
  | take i o p rest _ _ hq => simp [State.setWorker, hs, hq]
  | _ => exact hs

/-- **FIFO, exactly-once hand-over**: with atomic sections, the packets received and pushed are those popped, in pop
order, followed by the queue; each popped packet was taken by exactly one worker; and a worker that has been notified
never finds the queue empty. -/
theorem fifo_exactly_once {tr : List (State N α × Sec N α)} {s : State N α} (h : Run secStep (init N α) tr s) :
    s.received = s.taken.map Prod.snd ++ s.packetQueue ∧
    (∀ k < s.taken.length, ∃! i, ∃ p, s.taken[k]? = some (i, p) ∧ s.received[k]? = some p) ∧
    ∀ i, (s.worker i).loc = .woken → s.packetQueue ≠ [] := by
  have hfifo : Fifo s :=
    h.invariant (I := Fifo) (show Fifo (init N α) from rfl) fun _ _ _ hI hst => (secStep_sound hst).fifo hI
  refine ⟨hfifo, fun k hk => ?_, fun i hi => secRun_woken h hi⟩
  have hrec : s.received[k]? = some (s.taken[k]).2 := by
    rw [hfifo, List.getElem?_append_left (by simpa using hk)]
    simp [List.getElem?_eq_getElem hk]
  refine ⟨(s.taken[k]).1, ⟨(s.taken[k]).2, by simp [List.getElem?_eq_getElem hk], hrec⟩, ?_⟩
  rintro j ⟨p, hj, _⟩
  rw [List.getElem?_eq_getElem hk, Option.some.injEq] at hj
  rw [hj]

/-- Two packets arrive and two of the four workers take one each. -/
def twoPackets : List (Sec NUM_WORKER_THREADS Nat) :=
  [.enter 3, .enter 1, .receive 7, .push, .notify (some 3), .receive 8, .push, .take 3, .notify (some 1), .take 1]

theorem fifo_two_packets :
    ∃ tr s, Run secStep (init NUM_WORKER_THREADS Nat) tr s ∧ tr.map Prod.snd = twoPackets ∧
      s.taken = [(3, 7), (1, 8)] ∧
      s.received = s.taken.map Prod.snd ++ s.packetQueue ∧
      (∀ k < s.taken.length, ∃! i, ∃ p, s.taken[k]? = some (i, p) ∧ s.received[k]? = some p) ∧
      ∀ i, (s.worker i).loc = .woken → s.packetQueue ≠ [] := by
  obtain ⟨s, hs, htaken⟩ : ∃ s, exec secStep (init NUM_WORKER_THREADS Nat) twoPackets = some s ∧
      s.taken = [(3, 7), (1, 8)] := ⟨_, rfl, rfl⟩
  obtain ⟨tr, hr, hacts⟩ := Run.of_exec hs
  exact ⟨tr, s, hr, hacts, htaken, fifo_exactly_once hr⟩

end Celegraph.Queue
