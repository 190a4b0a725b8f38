import Celegraph.Queue.Ownership
import Celegraph.Server.LockOrder

/-!
# All threads of the server

The machine of `Queue.Machine` with the code that its threads run between their operations on the packet queue: a
worker runs the handler of its packet, the admin shell runs its commands, each one action at a time (`Pool`).

- `step`: a worker starts to handle its packet (`handle`) and ends its iteration when the handler has returned
  (`handled`); the shell likewise with the line that it has read (`command`, `commanded`); `work` is the next action of
  the code of a thread.
- `deadlock_free`: the threads never wait in a circle, and one that is between two packets or two commands holds
  neither of the mutexes of the handlers.
-/

namespace Celegraph.Threads

open CxxString Packets Utils Server Runs
open Queue (Thread SizeLoc WorkerLoc NUM_WORKER_THREADS neZero_numWorkerThreads)

/-- What the shell is doing. -/
inductive ShellLoc where
  /-- It reads a line. -/
  | reading
  /-- It is in `Server::GetPacketQueueSize`. -/
  | queueSize
  /-- It runs another command. -/
  | running
  deriving DecidableEq

/-- The threads: the packet queue, and the code that the workers and the shell run. -/
structure State (N : Nat) : Type 1 where
  queue : Queue.State N Packet
  pool : Pool (Thread N) ServerOp Server Mutex Datagram
  shell : ShellLoc
  /-- The worker has started to handle its packet. -/
  handling : Fin N → Bool

/-- The steps. -/
inductive Act (N : Nat) where
  | queue (a : Queue.Act N Packet)
  | handle (i : Fin N) (u : Uninit)
  | handled (i : Fin N)
  | command (adminCommand : Bytes)
  | commanded
  | work (t : Thread N)

section Steps

variable {N : Nat} (mp : Msgpack)

/-- The server when `Run` starts. -/
def init (N : Nat) : State N where
  queue := Queue.init N Packet
  pool := ⟨.init, fun _ => none, fun _ => .pure (), []⟩
  shell := .reading
  handling _ := false

/-- A step on the packet queue, apart from the handling of a packet. -/
def queueStep (s : State N) (a : Queue.Act N Packet) : Option (State N) :=
  match a with
  | .worker i =>
    match (s.queue.worker i).loc with
    | .handle _ => none
    | _ => (Queue.step s.queue (.worker i)).map fun queue => { s with queue }
  | .size =>
    if s.shell = .queueSize then (Queue.step s.queue .size).map fun queue =>
      { s with queue, shell := if queue.size.isInside then .queueSize else .reading }
    else none
  | a => (Queue.step s.queue a).map fun queue => { s with queue }

/-- Worker `i` starts to handle its packet. -/
def handleStep (s : State N) (i : Fin N) (u : Uninit) : Option (State N) :=
  match (s.queue.worker i).loc with
  | .handle p =>
    if s.handling i then none
    else (s.pool.start (.worker i) (handlePacket mp u p)).map fun pool =>
      { s with pool, handling := Function.update s.handling i true }
  | _ => none

/-- The handler of worker `i` has returned. -/
def handledStep (s : State N) (i : Fin N) : Option (State N) :=
  match (s.queue.worker i).loc with
  | .handle _ =>
    if s.handling i && s.pool.idle (.worker i) then (Queue.step s.queue (.worker i)).map fun queue =>
      { s with queue, handling := Function.update s.handling i false }
    else none
  | _ => none

/-- The shell reads a line; an empty one it ignores, and `/shutdown` ends the program. -/
def commandStep (s : State N) (adminCommand : Bytes) : Option (State N) :=
  if s.shell = .reading ∧ adminCommand ≠ [] then
    match AdminShell.action adminCommand with
    | .shutdown => none
    | .getPacketQueueSize => some { s with shell := .queueSize }
    | action => (s.pool.start .shell action.code).map fun pool => { s with pool, shell := .running }
  else none

def step (s : State N) : Act N → Option (State N)
  | .queue a => queueStep s a
  | .handle i u => handleStep mp s i u
  | .handled i => handledStep s i
  | .command adminCommand => commandStep s adminCommand
  | .commanded => if s.shell = .running ∧ s.pool.idle .shell then some { s with shell := .reading } else none
  | .work t => (s.pool.step t).map fun pool => { s with pool }

end Steps

/-! ## Waiting and holding -/

variable {N : Nat}

/-- The thread is waiting to acquire the mutex. -/
def Waiting (s : State N) (t : Thread N) (m : Mutex) : Prop :=
  (∃ k, s.pool.code t = .lock m k) ∨ m = .packetQueue ∧
    match t with
    | .main => ∃ p, s.queue.run = .lock p
    | .shell => s.shell = .queueSize ∧ s.queue.size = .lock
    | .worker i => (s.queue.worker i).loc = .construct ∨ (s.queue.worker i).loc = .woken

/-- The thread holds the mutex. -/
def Holding (s : State N) (t : Thread N) : Mutex → Prop
  | .packetQueue => s.queue.packetQueueMutex = some t
  | m => s.pool.owner m = some t

/-- Each of the threads waits for a mutex that is held by one of them. -/
def Circular (s : State N) (S : Set (Thread N)) : Prop :=
  ∀ t ∈ S, ∃ m, Waiting s t m ∧ ∃ u ∈ S, Holding s u m

/-- The thread is between two packets, or between two commands. -/
def Between (s : State N) : Thread N → Prop
  | .main => True
  | .shell => s.shell = .reading
  | .worker i => s.handling i = false

/-! ## The invariant -/

/-- Code is run only while a packet or a command is handled, and in the lock order. -/
structure Ok (s : State N) : Prop where
  disciplined : s.pool.Disciplined Mutex.rank
  owner : ∀ t, s.queue.packetQueueMutex = some t → s.queue.inside t = true
  main : s.pool.code .main = .pure ()
  worker : ∀ i, s.handling i = false → s.pool.code (.worker i) = .pure ()
  handling : ∀ i, s.handling i = true → ∃ p, (s.queue.worker i).loc = .handle p
  shell : s.shell ≠ .running → s.pool.code .shell = .pure ()
  size : s.queue.size.isInside = true → s.shell = .queueSize

theorem ok_init (N : Nat) : Ok (init N) where
  disciplined t := ⟨[], ⟨List.nodup_nil, fun m => by simp [init]⟩, rfl⟩
  owner _ h := by cases h
  main := rfl
  worker _ _ := rfl
  handling _ h := by cases h
  shell _ := rfl
  size h := by cases h

/-- A worker that handles its packet is left alone by the steps of the others. -/
theorem handle_kept {q q' : Queue.State N Packet} {a : Queue.Act N Packet} (h : Queue.Step q a q') {i : Fin N}
    (hne : a ≠ .worker i) {p : Packet} (hp : (q.worker i).loc = .handle p) : (q'.worker i).loc = .handle p := by
  have hset {q₁ : Queue.State N Packet} {j : Fin N} {w : Queue.Worker Packet} (he : q₁.worker = q.worker) (hj : i ≠ j) :
      ((q₁.setWorker j w).worker i).loc = .handle p := by
    rw [Queue.setWorker_worker, Function.update_of_ne hj, he]
    exact hp
  have hother {j : Fin N} {w : Queue.Worker Packet} (hw : q.worker j = w) (hloc : w.loc ≠ .handle p) : i ≠ j := by
    rintro rfl
    exact hloc (hw ▸ hp)
  cases h with
  | receive | runLock | push | runUnlock | notifyNone | sizeLock | size | sizeUnlock => exact hp
  | notify j o _ hw | spurious j o hw => exact hset rfl (hother hw (by simp))
  | construct j | wait j | relock j | front j | pop j | unlock j | handle j | destroy j =>
    refine hset rfl ?_
    rintro rfl
    exact hne rfl

/-- The shell's place is left alone by the steps of the others. -/
theorem size_kept {q q' : Queue.State N Packet} {a : Queue.Act N Packet} (h : Queue.Step q a q') (hne : a ≠ .size) :
    q'.size = q.size := by
  cases h with
  | sizeLock | size | sizeUnlock => exact absurd rfl hne
  | _ => rfl

/-- A step on the packet queue by a thread that runs no code. -/
theorem Ok.queue {s : State N} (h : Ok s) {a : Queue.Act N Packet} {queue : Queue.State N Packet}
    (hst : Queue.step s.queue a = some queue) (ha : a ≠ .size) (hidle : ∀ i, a = .worker i → s.handling i = false) :
    Ok { s with queue } := by
  have hstep := Queue.step_sound hst
  refine { h with owner := hstep.owner_inside h.owner, handling := fun i hi => ?_, size := ?_ }
  · obtain ⟨p, hp⟩ := h.handling i hi
    refine ⟨p, handle_kept hstep ?_ hp⟩
    rintro rfl
    rw [hidle i rfl] at hi
    cases hi
  · rw [size_kept hstep ha]
    exact h.size

theorem Ok.queueStep {s s' : State N} (h : Ok s) {a : Queue.Act N Packet} (hst : queueStep s a = some s') : Ok s' := by
  cases a with
  | worker i =>
    simp only [Threads.queueStep] at hst
    split at hst
    · cases hst
    · rename_i hloc
      obtain ⟨queue, hq, rfl⟩ := Option.map_eq_some_iff.mp hst
      refine h.queue hq (by simp) fun j hj => ?_
      cases hj
      by_contra hhandling
      obtain ⟨p, hp⟩ := h.handling i (by simpa using hhandling)
      exact hloc p hp
  | size =>
    simp only [Threads.queueStep] at hst
    split at hst
    · rename_i hshell
      obtain ⟨queue, hq, rfl⟩ := Option.map_eq_some_iff.mp hst
      have hstep := Queue.step_sound hq
      refine { h with
        owner := hstep.owner_inside h.owner
        handling := fun i hi => ?_
        shell := fun _ => ?_
        size := ?_ }
      · obtain ⟨p, hp⟩ := h.handling i hi
        exact ⟨p, handle_kept hstep (by simp) hp⟩
      · exact h.shell (by simp [hshell])
      · intro hin
        simp [show queue.size.isInside = true from hin]
    · cases hst
  | receive | run | notify | spurious =>
    obtain ⟨queue, hq, rfl⟩ := Option.map_eq_some_iff.mp hst
    exact h.queue hq (by simp) (by simp)

/-- A thread that is between two packets or commands starts a program in the lock order. -/
theorem Ok.start {s : State N} (h : Ok s) {t : Thread N} {c : ServerProg Unit} (hc : InOrder [] c)
    {pool : Pool (Thread N) ServerOp Server Mutex Datagram} (hst : s.pool.start t c = some pool) :
    pool.Disciplined Mutex.rank ∧ ∀ u, u ≠ t → pool.code u = s.pool.code u := by
  refine ⟨h.disciplined.start hc hst, fun u hu => ?_⟩
  obtain ⟨_, rfl⟩ := Pool.start_eq_some hst
  simp [hu]

theorem Ok.handleStep {mp : Msgpack} {s s' : State N} (h : Ok s) {i : Fin N} {u : Uninit}
    (hst : handleStep mp s i u = some s') : Ok s' := by
  unfold Threads.handleStep at hst
  split at hst
  · rename_i p hp
    split at hst
    · cases hst
    · obtain ⟨pool, hpool, rfl⟩ := Option.map_eq_some_iff.mp hst
      obtain ⟨hdisc, hcode⟩ := h.start (inOrder_handlePacket mp u p) hpool
      refine { h with
        disciplined := hdisc
        main := ?_
        worker := fun j hj => ?_
        handling := fun j hj => ?_
        shell := ?_ }
      · rw [hcode _ (by simp)]
        exact h.main
      · by_cases hji : j = i
        · subst hji
          simp at hj
        · rw [hcode _ (by simp [hji])]
          exact h.worker j (by simpa [hji] using hj)
      · by_cases hji : j = i
        · subst hji
          exact ⟨p, hp⟩
        · exact h.handling j (by simpa [hji] using hj)
      · intro hshell
        rw [hcode _ (by simp)]
        exact h.shell hshell
  · cases hst

theorem Ok.handledStep {s s' : State N} (h : Ok s) {i : Fin N} (hst : handledStep s i = some s') : Ok s' := by
  unfold Threads.handledStep at hst
  split at hst
  · split at hst
    · rename_i hcond
      simp only [Bool.and_eq_true] at hcond
      obtain ⟨queue, hq, rfl⟩ := Option.map_eq_some_iff.mp hst
      have hstep := Queue.step_sound hq
      refine { h with
        owner := hstep.owner_inside h.owner
        worker := fun j hj => ?_
        handling := fun j hj => ?_
        size := ?_ }
      · by_cases hji : j = i
        · subst hji
          exact Pool.idle_iff.mp hcond.2
        · exact h.worker j (by simpa [hji] using hj)
      · by_cases hji : j = i
        · subst hji
          simp at hj
        · obtain ⟨p, hp⟩ := h.handling j (by simpa [hji] using hj)
          exact ⟨p, handle_kept hstep (by simpa using Ne.symm hji) hp⟩
      · rw [size_kept hstep (by simp)]
        exact h.size
    · cases hst
  · cases hst

theorem Ok.commandStep {s s' : State N} (h : Ok s) {adminCommand : Bytes} (hst : commandStep s adminCommand = some s') :
    Ok s' := by
  unfold Threads.commandStep at hst
  split at hst
  · rename_i hcond
    have hsize : s.queue.size.isInside ≠ true := fun hin => by
      rw [h.size hin] at hcond
      simp at hcond
    split at hst
    · cases hst
    · cases hst
      exact { h with shell := fun _ => h.shell (by simp [hcond.1]), size := fun _ => rfl }
    · obtain ⟨pool, hpool, rfl⟩ := Option.map_eq_some_iff.mp hst
      obtain ⟨hdisc, hcode⟩ := h.start (inOrder_code _) hpool
      refine { h with
        disciplined := hdisc
        main := ?_
        worker := fun j hj => ?_
        shell := fun hne => absurd rfl hne
        size := fun hin => absurd hin hsize }
      · rw [hcode _ (by simp)]
        exact h.main
      · rw [hcode _ (by simp)]
        exact h.worker j hj
  · cases hst

/-- The code of a thread that runs some goes on. -/
theorem Ok.work {s : State N} (h : Ok s) {t : Thread N} {pool : Pool (Thread N) ServerOp Server Mutex Datagram}
    (hst : s.pool.step t = some pool) : Ok { s with pool } := by
  have hne : s.pool.code t ≠ .pure () := fun hpure => by simp [Pool.step, hpure] at hst
  have hcode : ∀ u, s.pool.code u = .pure () → pool.code u = .pure () := by
    intro u hu
    have hut : u ≠ t := by
      rintro rfl
      exact hne hu
    rcases Pool.step_cases hst with ⟨m, k, _, _, _, hc⟩ | ⟨β, o, k, _, _, _, hc⟩ | ⟨d, k, _, _, _, hc⟩ <;>
      rw [hc, Function.update_of_ne hut, hu]
  exact { h with
    disciplined := h.disciplined.step hst
    main := hcode _ h.main
    worker := fun i hi => hcode _ (h.worker i hi)
    shell := fun hs => hcode _ (h.shell hs) }

theorem Ok.step {mp : Msgpack} {s s' : State N} (h : Ok s) {a : Act N} (hst : step mp s a = some s') : Ok s' := by
  cases a with
  | queue a => exact h.queueStep hst
  | handle i u => exact h.handleStep hst
  | handled i => exact h.handledStep hst
  | command adminCommand => exact h.commandStep hst
  | commanded =>
    simp only [Threads.step] at hst
    split at hst
    · rename_i hcond
      cases hst
      refine { h with shell := fun _ => Pool.idle_iff.mp hcond.2, size := fun hin => ?_ }
      rw [h.size hin] at hcond
      simp at hcond
    · cases hst
  | work t =>
    obtain ⟨pool, hpool, rfl⟩ := Option.map_eq_some_iff.mp hst
    exact h.work hpool

/-! ## No deadlock -/

/-- Who owns the packet queue's mutex waits for nothing. -/
theorem Ok.not_waiting {s : State N} (h : Ok s) {t : Thread N} (ht : s.queue.packetQueueMutex = some t) (m : Mutex) :
    ¬Waiting s t m := by
  have hin := h.owner t ht
  have hcode : s.pool.code t = .pure () := by
    cases t with
    | main => exact h.main
    | shell => exact h.shell (by rw [h.size hin]; simp)
    | worker i =>
      refine h.worker i ?_
      by_contra hhandling
      obtain ⟨p, hp⟩ := h.handling i (by simpa using hhandling)
      simp [Queue.State.inside, hp, WorkerLoc.isInside] at hin
  rintro (⟨k, hk⟩ | ⟨_, hloc⟩)
  · rw [hcode] at hk
    cases hk
  · cases t with
    | main =>
      obtain ⟨p, hp⟩ := hloc
      simp [Queue.State.inside, hp, Queue.RunLoc.isInside] at hin
    | shell => simp [Queue.State.inside, hloc.2, SizeLoc.isInside] at hin
    | worker i => rcases hloc with hloc | hloc <;> simp [Queue.State.inside, hloc, WorkerLoc.isInside] at hin

/-- In a circle nobody waits for the packet queue's mutex. -/
theorem Ok.waits_in_code {s : State N} (h : Ok s) {S : Set (Thread N)} (hS : Circular s S) {t : Thread N} (ht : t ∈ S) :
    ∃ m k, s.pool.code t = .lock m k ∧ ∃ u, u ∈ S ∧ s.pool.owner m = some u := by
  obtain ⟨m, hwait, u, hu, hold⟩ := hS t ht
  have hne : m ≠ .packetQueue := by
    rintro rfl
    obtain ⟨m', hwait', _⟩ := hS u hu
    exact h.not_waiting hold m' hwait'
  obtain ⟨k, hk⟩ := hwait.resolve_right fun hq => hne hq.1
  refine ⟨m, k, hk, u, hu, ?_⟩
  cases m with
  | packetQueue => exact absurd rfl hne
  | serverState | activeConnections => exact hold

theorem run_ok {mp : Msgpack} {tr : List (State N × Act N)} {s : State N} (h : Run (step mp) (init N) tr s) : Ok s :=
  h.invariant (I := Ok) (ok_init N) fun _ _ _ hok hst => hok.step hst

/-- **The locks never deadlock**: there are no threads each of which waits for a mutex that one of them holds; and a
thread that is between two packets or two commands holds neither mutex of the handlers. -/
theorem deadlock_free {mp : Msgpack} {tr : List (State N × Act N)} {s : State N} (h : Run (step mp) (init N) tr s) :
    (∀ S : Set (Thread N), S.Nonempty → ¬Circular s S) ∧
      ∀ t, Between s t → ¬Holding s t .serverState ∧ ¬Holding s t .activeConnections := by
  have hok := run_ok h
  refine ⟨fun S ⟨t, ht⟩ hS => ?_, fun t hbetween => ?_⟩
  · exact hok.disciplined.not_circular Mutex.rank_le (fun u hu => hok.waits_in_code hS hu) t ht
  · have hcode : s.pool.code t = .pure () := by
      cases t with
      | main => exact hok.main
      | shell => exact hok.shell (by rw [show s.shell = .reading from hbetween]; simp)
      | worker i => exact hok.worker i hbetween
    exact ⟨hok.disciplined.owns_nil hcode _, hok.disciplined.owns_nil hcode _⟩

/-- A `CONNECT` with session 0. -/
def connectPacket : Packet where
  data := receivePacketFrom [3, 3, 0, 0x92, 1, 0] fun _ => 0
  source := ⟨0x7f000001, 40000⟩

/-- The first worker waits, gets a `CONNECT` and locks the session tables; the shell starts a broadcast and locks the
connections. -/
def connectAndBroadcast : List (Act NUM_WORKER_THREADS) :=
  [.queue (.worker 0), .queue (.worker 0), .queue (.receive connectPacket), .queue .run, .queue .run, .queue .run,
    .queue (.notify (some 0)), .queue (.worker 0), .queue (.worker 0), .queue (.worker 0), .queue (.worker 0),
    .handle 0 ⟨0, 0⟩, .work (.worker 0), .command (text "/h hello"), .work .shell]

theorem deadlock_free_connectAndBroadcast :
    ∃ tr s, Run (step .reference) (init NUM_WORKER_THREADS) tr s ∧ tr.map Prod.snd = connectAndBroadcast ∧
      Holding s (.worker 0) .serverState ∧ Holding s .shell .activeConnections ∧
      (∀ S : Set (Thread NUM_WORKER_THREADS), S.Nonempty → ¬Circular s S) ∧
      ∀ t, Between s t → ¬Holding s t .serverState ∧ ¬Holding s t .activeConnections := by
  obtain ⟨s, hs, hworker, hshell⟩ : ∃ s, exec (step .reference) (init NUM_WORKER_THREADS) connectAndBroadcast = some s ∧
      Holding s (.worker 0) .serverState ∧ Holding s .shell .activeConnections := ⟨_, rfl, rfl, rfl⟩
  obtain ⟨tr, hr, hacts⟩ := Run.of_exec hs
  exact ⟨tr, s, hr, hacts, hworker, hshell, deadlock_free hr⟩

end Celegraph.Threads
