import Celegraph.Lib.Progress
import Celegraph.Queue.Accounts
import Celegraph.Threads.Linear

/-!
# The server comes to rest

If nothing comes from outside any more, neither a packet nor a line of the admin nor a wake-up without a notification,
then the threads finish what they have begun, however they are scheduled: every handler and every command returns, all
mutexes are free, the workers are in `wait`, the main thread and the shell read; unless a handler crashes, or a command
of the admin (`/h` alone, `/s` without a target or a text), or a worker accesses the empty queue (`comes_to_rest`).

Each of the steps moves its thread on to the place where it waits (`weight`), or shortens the code that it runs.

At rest every packet received has been handled, but for one left in the queue for each notification that found no
worker waiting, less those that a worker took that woke up by itself (`left_over`).
-/

namespace Celegraph.Threads

open CxxString Packets Utils Server Runs
open Queue (Thread SizeLoc RunLoc NUM_WORKER_THREADS)

variable {N : Nat} {mp : Msgpack} {s s' : State N}

/-- The step is one of the server's own: no packet arrives, the admin types nothing, no worker wakes up by itself. -/
def Act.isOwn : Act N → Bool
  | .queue (.receive _) | .queue (.spurious _) | .command _ => false
  | _ => true

/-- All threads wait for something from outside, and hold nothing. -/
structure AtRest (s : State N) : Prop where
  main : s.queue.run = .receive
  shell : s.shell = .reading
  worker : ∀ i, (s.queue.worker i).loc = .blocked
  code : ∀ t, s.pool.code t = .pure ()
  free : ∀ t m, ¬Holding s t m

/-- The code of a thread, a handler or a command of the admin, has crashed, or a worker is about to access the empty
queue. -/
def Down (s : State N) : Prop := s.pool.Crashed ∨ ¬Queue.AccessDefined s.queue

/-! ## What is left to do -/

/-- The steps of `Server::Run` until it receives, and those of the worker that it wakes up. -/
def runWeight : RunLoc Packet → Nat
  | .lock _ => 12
  | .push _ => 11
  | .unlock => 10
  | .notify => 9
  | .receive => 0

/-- The steps of the shell until it reads. -/
def shellWeight : ShellLoc → SizeLoc → Nat
  | .reading, _ => 0
  | .running, _ => 1
  | .queueSize, .lock => 3
  | .queueSize, .size => 2
  | .queueSize, .unlock => 1

/-- The steps until all threads are at rest, apart from those of the code that they run. A packet whose handling has
not begun counts for one more. -/
def weight (s : State N) : Nat :=
  2 * (runWeight s.queue.run + total (fun w : Queue.Worker Packet => w.loc.rank) s.queue.worker) +
    shellWeight s.shell s.queue.size + tally (!·) s.handling

/-- A step of a worker on the queue. -/
theorem total_lt {q q' : Queue.State N Packet} {i : Fin N} (h : Queue.Step q (.worker i) q') :
    q'.run = q.run ∧ q'.size = q.size ∧ total (fun w : Queue.Worker Packet => w.loc.rank) q'.worker <
      total (fun w : Queue.Worker Packet => w.loc.rank) q.worker := by
  have hlt := h.rank_lt
  have hsize := size_kept h (by simp)
  have hrun : q'.run = q.run := by cases h <;> rfl
  simp only [Queue.State.rank, hrun, hsize] at hlt
  exact ⟨hrun, hsize, by omega⟩

/-- A notification wakes up one worker at most. -/
theorem weight_notify {q : Queue.State N Packet} {w : Option (Fin N)} (hst : Queue.step s.queue (.notify w) = some q) :
    weight { s with queue := q } < weight s := by
  cases Queue.step_sound hst with
  | notifyNone hr _ => simp [weight, hr, runWeight]
  | notify i o hr hw =>
    have htotal := total_update (fun w : Queue.Worker Packet => w.loc.rank) s.queue.worker i ⟨.woken, o⟩
    have hblocked : (s.queue.worker i).loc.rank = 0 := by rw [hw]; rfl
    have hwoken : (Queue.WorkerLoc.woken : Queue.WorkerLoc Packet).rank = 8 := rfl
    rw [hblocked, hwoken] at htotal
    simp only [weight, hr, runWeight, Queue.State.setWorker]
    omega

theorem weight_queueStep {a : Queue.Act N Packet} (ha : (Act.queue a).isOwn = true)
    (hst : queueStep s a = some s') : weight s' < weight s := by
  cases a with
  | receive | spurious => cases ha
  | run =>
    obtain ⟨q, hq, rfl⟩ := Option.map_eq_some_iff.mp hst
    cases Queue.step_sound hq with
    | runLock _ hr | push _ hr | runUnlock hr => simp [weight, hr, runWeight]
  | notify w =>
    obtain ⟨q, hq, rfl⟩ := Option.map_eq_some_iff.mp hst
    exact weight_notify hq
  | worker i =>
    simp only [queueStep] at hst
    split at hst
    · cases hst
    · obtain ⟨q, hq, rfl⟩ := Option.map_eq_some_iff.mp hst
      obtain ⟨hrun, hsize, hlt⟩ := total_lt (Queue.step_sound hq)
      simp only [weight, hrun, hsize]
      omega
  | size =>
    simp only [queueStep] at hst
    split at hst
    · rename_i hshell
      obtain ⟨q, hq, rfl⟩ := Option.map_eq_some_iff.mp hst
      cases Queue.step_sound hq with
      | sizeLock hz _ | size hz | sizeUnlock hz =>
        simp [weight, hshell, hz, shellWeight, Queue.SizeLoc.isInside]
    · cases hst

/-- Each of the server's own steps brings its thread nearer to its place, or shortens its code. -/
theorem weight_step (hst : step mp s a = some s') (ha : a.isOwn = true) :
    weight s' < weight s ∨ weight s' = weight s ∧ Pool.Shorter s'.pool.code s.pool.code := by
  cases a with
  | queue a => exact .inl (weight_queueStep ha hst)
  | handle i u =>
    left
    simp only [step, handleStep] at hst
    split at hst
    · split at hst
      · cases hst
      · rename_i hi
        obtain ⟨pool, _, rfl⟩ := Option.map_eq_some_iff.mp hst
        have htally := tally_update (!·) s.handling i true
        simp only [hi, Bool.not_true, Bool.not_false, if_true, Bool.false_eq_true, if_false] at htally
        simp only [weight]
        omega
    · cases hst
  | handled i =>
    left
    simp only [step, handledStep] at hst
    split at hst
    · split at hst
      · rename_i hcond
        obtain ⟨q, hq, rfl⟩ := Option.map_eq_some_iff.mp hst
        obtain ⟨hrun, hsize, hlt⟩ := total_lt (Queue.step_sound hq)
        have htally := tally_update (!·) s.handling i false
        simp only [Bool.and_eq_true] at hcond
        simp only [hcond.1, Bool.not_true, Bool.not_false, if_true, Bool.false_eq_true, if_false] at htally
        simp only [weight, hrun, hsize]
        omega
      · cases hst
    · cases hst
  | command => cases ha
  | commanded =>
    left
    simp only [step] at hst
    split at hst
    · rename_i hcond
      cases hst
      simp [weight, hcond.1, shellWeight]
    · cases hst
  | work t =>
    obtain ⟨pool, hpool, rfl⟩ := Option.map_eq_some_iff.mp hst
    exact .inr ⟨rfl, Pool.shorter_of_step hpool⟩

/-! ## A thread that is not at rest moves -/

/-- The server can take one of its own steps. -/
def Moves (mp : Msgpack) (s : State N) : Prop := ∃ a s', Act.isOwn a = true ∧ step mp s a = some s'

theorem Moves.of_isSome {a : Act N} (ha : a.isOwn = true) (h : (step mp s a).isSome = true) : Moves mp s := by
  obtain ⟨s', hs⟩ := Option.isSome_iff_exists.mp h
  exact ⟨a, s', ha, hs⟩

/-- A worker that runs no code moves, unless it waits for a notification or for the mutex. -/
theorem moves_worker (hacc : Queue.AccessDefined s.queue) {i : Fin N}
    (hcode : s.pool.code (.worker i) = .pure ()) (hi : (s.queue.worker i).loc.rank ≠ 0)
    (hfree : s.queue.packetQueueMutex = none ∨ (s.queue.worker i).loc.isInside = true) : Moves mp s := by
  obtain ⟨q, hq, _⟩ := Queue.exists_worker_step hacc hi hfree
  have hidle := Pool.idle_iff.mpr hcode
  by_cases hhandle : ∃ p, (s.queue.worker i).loc = .handle p
  · obtain ⟨p, hp⟩ := hhandle
    cases hhandling : s.handling i with
    | true => exact .of_isSome (a := .handled i) rfl (by simp [step, handledStep, hp, hhandling, hidle, hq])
    | false =>
      exact .of_isSome (a := .handle i ⟨0, 0⟩) rfl (by simp [step, handleStep, hp, hhandling, Pool.start, hidle])
  · refine .of_isSome (a := .queue (.worker i)) rfl ?_
    simp only [step, queueStep]
    split
    · rename_i p hp
      exact absurd ⟨p, hp⟩ hhandle
    · rw [hq]
      rfl

theorem moves_run (h : s.queue.run.rank ≠ 0) : Moves mp s := by
  obtain ⟨q, hq, _⟩ := Queue.exists_run_step h
  exact .of_isSome (a := .queue .run) rfl (by simp [step, queueStep, hq])

theorem moves_size (hshell : s.shell = .queueSize) (h : s.queue.packetQueueMutex = none ∨ s.queue.size.rank ≠ 0) :
    Moves mp s := by
  obtain ⟨q, hq⟩ : ∃ q, Queue.step s.queue .size = some q := by
    by_cases hz : s.queue.size.rank = 0
    · have hm := h.resolve_right (not_not.mpr hz)
      cases hz' : s.queue.size with
      | lock => simp [Queue.step, Queue.sizeStep, hz', hm]
      | size | unlock => simp [hz', Queue.SizeLoc.rank] at hz
    · exact (Queue.exists_size_step hz).imp fun _ h => h.1
  exact .of_isSome (a := .queue .size) rfl (by simp [step, queueStep, hshell, hq])

/-- Who owns the mutex of the packet queue moves. -/
theorem Ok.moves_owner (h : Ok s) (hacc : Queue.AccessDefined s.queue) (hcode : ∀ t, s.pool.code t = .pure ())
    {t : Thread N} (ht : s.queue.packetQueueMutex = some t) : Moves mp s := by
  have hin := h.owner t ht
  cases t with
  | main =>
    refine moves_run ?_
    cases hr : s.queue.run <;> simp [Queue.State.inside, hr, Queue.RunLoc.isInside, Queue.RunLoc.rank] at hin ⊢
  | shell =>
    refine moves_size (h.size hin) (.inr ?_)
    cases hz : s.queue.size <;> simp [Queue.State.inside, hz, Queue.SizeLoc.isInside, Queue.SizeLoc.rank] at hin ⊢
  | worker i =>
    refine moves_worker hacc (hcode _) ?_ (.inr hin)
    cases hi : (s.queue.worker i).loc <;>
      simp [Queue.State.inside, hi, Queue.WorkerLoc.isInside, Queue.WorkerLoc.rank] at hin ⊢

/-- The main thread moves until it receives. -/
theorem moves_main (hm : s.queue.packetQueueMutex = none) (hne : s.queue.run ≠ .receive) : Moves mp s := by
  cases hr : s.queue.run with
  | receive => exact absurd hr hne
  | push | unlock => exact moves_run (by simp [hr, RunLoc.rank])
  | lock p => exact .of_isSome (a := .queue .run) rfl (by simp [step, queueStep, Queue.step, Queue.runStep, hr, hm])
  | notify =>
    by_cases hblocked : ∃ i, (s.queue.worker i).loc.isBlocked = true
    · obtain ⟨i, hi⟩ := hblocked
      exact .of_isSome (a := .queue (.notify (some i))) rfl
        (by simp [step, queueStep, Queue.step, Queue.notifyStep, hr, hi])
    · simp only [not_exists, Bool.not_eq_true] at hblocked
      exact .of_isSome (a := .queue (.notify none)) rfl
        (by simp [step, queueStep, Queue.step, Queue.notifyStep, hr, hblocked])

/-- **The server moves** until it is at rest or down. -/
theorem Ok.moves (h : Ok s) (hrest : ¬(Down s ∨ AtRest s)) : Moves mp s := by
  by_contra hstuck
  obtain ⟨hdown, hrest⟩ := not_or.mp hrest
  obtain ⟨hcrash, hacc⟩ := not_or.mp hdown
  rw [not_not] at hacc
  refine hrest ?_
  have hcode (t : Thread N) : s.pool.code t = .pure () := by
    by_contra ht
    obtain ⟨u, pool, hpool⟩ := h.disciplined.exists_step Mutex.rank_le hcrash ht
    exact hstuck (.of_isSome (a := .work u) rfl (by simp [Threads.step, hpool]))
  have hm : s.queue.packetQueueMutex = none := by
    by_contra hm
    obtain ⟨t, ht⟩ := Option.ne_none_iff_exists'.mp hm
    exact hstuck (h.moves_owner hacc hcode ht)
  refine ⟨?_, ?_, fun i => ?_, hcode, fun t m hold => ?_⟩
  · by_contra hne
    exact hstuck (moves_main hm hne)
  · cases hshell : s.shell with
    | reading => rfl
    | queueSize => exact absurd (moves_size hshell (.inl hm)) hstuck
    | running =>
      refine absurd (.of_isSome (a := .commanded) rfl ?_) hstuck
      simp [Threads.step, hshell, Pool.idle_iff.mpr (hcode _)]
  · by_contra hi
    refine hstuck (moves_worker (i := i) hacc (hcode _) ?_ (.inl hm))
    cases hloc : (s.queue.worker i).loc <;> simp [hloc, Queue.WorkerLoc.rank] at hi ⊢
  · cases m with
    | packetQueue =>
      rw [Holding, hm] at hold
      cases hold
    | serverState | activeConnections => exact h.disciplined.owns_nil (hcode t) _ hold

/-- **The server comes to rest**: from every reachable state, its own steps lead to a state where every handler and
command has returned, all mutexes are free and all threads wait for something from outside, or where the process is
down, by a handler, a command of the admin or the empty queue, in whatever order they are taken. -/
theorem comes_to_rest {tr : List (State N × Act N)} (h : Run (step mp) (init N) tr s) :
    Inevitably (step mp) Act.isOwn (fun s => Down s ∨ AtRest s) s := by
  refine Inevitably.of_wellFounded (Nat.lt_wfRel.wf.prod_lex Pool.wellFounded_code) (I := Ok)
    (fun s => (weight s, s.pool.code)) (fun s a s' hok ha hst => ⟨hok.step hst, ?_⟩) (fun s hok => hok.moves) (run_ok h)
  rcases weight_step hst ha with hlt | ⟨heq, hshorter⟩
  · exact .left _ _ hlt
  · rw [heq]
    exact .right _ hshorter

theorem comes_to_rest_connectAndBroadcast :
    ∃ tr s, Run (step .reference) (init NUM_WORKER_THREADS) tr s ∧ tr.map Prod.snd = connectAndBroadcast ∧
      Inevitably (step .reference) Act.isOwn (fun s => Down s ∨ AtRest s) s := by
  obtain ⟨s, hs⟩ : ∃ s, exec (step .reference) (init NUM_WORKER_THREADS) connectAndBroadcast = some s := ⟨_, rfl⟩
  obtain ⟨tr, hr, hacts⟩ := Run.of_exec hs
  exact ⟨tr, s, hr, hacts, comes_to_rest hr⟩

/-! ## What is left over -/

/-- The operation on the queue that a step makes. -/
def queueAct : Act N → Option (Queue.Act N Packet)
  | .queue a => some a
  | .handled i => some (.worker i)
  | .handle .. | .command _ | .commanded | .work _ => none

/-- The operations on the queue. -/
def queueTrace (tr : List (State N × Act N)) : List (Queue.State N Packet × Queue.Act N Packet) :=
  tr.filterMap fun x => (queueAct x.2).map (x.1.queue, ·)

theorem step_queue {a : Act N} (h : step mp s a = some s') :
    (queueAct a).elim (s'.queue = s.queue) fun b => Queue.step s.queue b = some s'.queue := by
  cases a with
  | queue a =>
    cases a with
    | worker i =>
      simp only [step, queueStep] at h
      split at h
      · cases h
      · obtain ⟨q, hq, rfl⟩ := Option.map_eq_some_iff.mp h
        exact hq
    | size =>
      simp only [step, queueStep] at h
      split at h
      · obtain ⟨q, hq, rfl⟩ := Option.map_eq_some_iff.mp h
        exact hq
      · cases h
    | receive | run | notify | spurious =>
      obtain ⟨q, hq, rfl⟩ := Option.map_eq_some_iff.mp h
      exact hq
  | handle i u =>
    simp only [step, handleStep] at h
    split at h
    · split at h
      · cases h
      · obtain ⟨pool, _, rfl⟩ := Option.map_eq_some_iff.mp h
        rfl
    · cases h
  | handled i =>
    simp only [step, handledStep] at h
    split at h
    · split at h
      · obtain ⟨q, hq, rfl⟩ := Option.map_eq_some_iff.mp h
        exact hq
      · cases h
    · cases h
  | command adminCommand =>
    simp only [step, commandStep] at h
    split at h
    · split at h
      · cases h
      · cases h
        rfl
      · obtain ⟨pool, _, rfl⟩ := Option.map_eq_some_iff.mp h
        rfl
    · cases h
  | commanded =>
    simp only [step] at h
    split at h
    · cases h
      rfl
    · cases h
  | work t =>
    obtain ⟨pool, _, rfl⟩ := Option.map_eq_some_iff.mp h
    rfl

/-- The operations on the queue are a run of its machine. -/
theorem queue_run {tr : List (State N × Act N)} (h : Run (step mp) (init N) tr s) :
    Run Queue.step (Queue.init N Packet) (queueTrace tr) s.queue :=
  h.project (f := State.queue) (g := fun _ => queueAct) fun _ _ _ => step_queue

/-- A packet is handled when its handler has returned. -/
theorem handles_iff_endedBy {a : Act N} (h : step mp s a = some s') :
    (queueAct a).elim false (Queue.handles s.queue) = (endedBy s a).isSome := by
  cases a with
  | queue a =>
    cases a with
    | worker i =>
      simp only [step, queueStep] at h
      split at h
      · cases h
      · simp only [queueAct, Option.elim_some, Queue.handles, endedBy, Option.isSome_none]
    | _ => rfl
  | handled i =>
    simp only [queueAct, Option.elim_some, Queue.handles, endedBy]
    cases (s.queue.worker i).loc <;> rfl
  | _ => rfl

theorem handled_queueTrace {tr : List (State N × Act N)} (h : Run (step mp) (init N) tr s) :
    Queue.handled (queueTrace tr) = (ended tr).length := by
  induction h with
  | init => rfl
  | @step tr s s' a _ hst ih =>
    have hsame := handles_iff_endedBy hst
    simp only [queueTrace, ended, Queue.handled, List.filterMap_append, List.countP_append, List.length_append] at ih ⊢
    rw [ih]
    cases ha : queueAct a <;> cases he : endedBy s a <;> simp_all

/-- **Every packet is handled** before the server comes to rest, except for as many packets, left in the queue, as
notifications were lost, less the wake-ups without one. -/
theorem left_over {tr : List (State N × Act N)} (h : Run (step mp) (init N) tr s) (hrest : AtRest s) :
    (ended tr).length + s.queue.packetQueue.length = s.queue.received.length ∧
      s.queue.packetQueue.length + Queue.woken (queueTrace tr) = Queue.lost (queueTrace tr) := by
  have hacc := Queue.run_accounts (queue_run h)
  rw [← handled_queueTrace h]
  exact hacc.at_rest hrest.main fun i => by rw [hrest.worker i]; rfl

/-- A `CONNECT` arrives before any worker waits, and a second one that wakes up the first worker, which handles the
first. -/
def oneLeftOver : List (Act NUM_WORKER_THREADS) :=
  [[.queue (.receive connectPacket), .queue .run, .queue .run, .queue .run, .queue (.notify none)],
    [0, 1, 2, 3].flatMap fun i => [.queue (.worker i), .queue (.worker i)],
    [.queue (.receive connectPacket), .queue .run, .queue .run, .queue .run, .queue (.notify (some 0))],
    List.replicate 4 (.queue (.worker 0)), [.handle 0 ⟨0, 0⟩], List.replicate 7 (.work (.worker 0)),
    [.handled 0, .queue (.worker 0), .queue (.worker 0), .queue (.worker 0)]].flatten

theorem left_over_one : ∃ tr s,
    Run (step .reference) (init NUM_WORKER_THREADS) tr s ∧ tr.map Prod.snd = oneLeftOver ∧ AtRest s ∧
      s.queue.packetQueue.length = 1 ∧ (ended tr).length + s.queue.packetQueue.length = s.queue.received.length ∧
      s.queue.packetQueue.length + Queue.woken (queueTrace tr) = Queue.lost (queueTrace tr) := by
  obtain ⟨s, hs, hrun, hshell, hall, hidle, hm, howner, hq⟩ :
      ∃ s, exec (step .reference) (init NUM_WORKER_THREADS) oneLeftOver = some s ∧ s.queue.run = .receive ∧
        s.shell = .reading ∧ (∀ i, (s.queue.worker i).loc.isBlocked = true) ∧ (∀ t, s.pool.idle t = true) ∧
        s.queue.packetQueueMutex = none ∧ (∀ m, s.pool.owner m = none) ∧ s.queue.packetQueue.length = 1 :=
    ⟨_, rfl, rfl, rfl, by decide, by decide, rfl, fun m => by cases m <;> rfl, rfl⟩
  have hrest : AtRest s := by
    refine ⟨hrun, hshell, fun i => ?_, fun t => Pool.idle_iff.mp (hidle t), fun t m hold => ?_⟩
    · rw [Queue.eq_blocked (hall i)]
    · cases m <;> simp [Holding, hm, howner] at hold
  obtain ⟨tr, hr, hacts⟩ := Run.of_exec hs
  exact ⟨tr, s, hr, hacts, hrest, hq, left_over hr hrest⟩

end Celegraph.Threads
