import Celegraph.Server.Guards
import Celegraph.Threads

/-!
# No data races on the tables

- `pool_step`, `pool_cases`: what a step of the threads does to the code that they run: nothing, or a thread starts a
  handler or a command, or takes its next action.
- `race_free`: a thread that is about to access a table holds its mutex, so no two threads are about to access one
  table.
- `passed_on_current`: a message that is passed on goes to the address that the connections have for its session at the
  moment it is sent, however long ago the loop over the connections was begun.
-/

namespace Celegraph.Threads

open CxxString Packets Utils Server Runs
open Queue (Thread NUM_WORKER_THREADS)

variable {N : Nat} {mp : Msgpack} {s s' : State N}

/-- The threads' code, and what it works on. -/
abbrev Code (N : Nat) := Pool (Thread N) ServerOp Server Mutex Datagram

/-- What a thread can start: a worker the handler of a packet, the shell a command. -/
inductive Starts (mp : Msgpack) : Thread N → ServerProg Unit → Prop
  | handler (i : Fin N) (u : Uninit) (packet : Packet) : Starts mp (.worker i) (handlePacket mp u packet)
  | command (action : AdminShell.Action) : Starts mp .shell action.code

/-- What a step does to the code of the threads, and when. -/
theorem pool_step {a : Act N} (h : step mp s a = some s') :
    s'.pool = s.pool ∨
    (∃ i u p, a = .handle i u ∧ (s.queue.worker i).loc = .handle p ∧
      s.pool.start (.worker i) (handlePacket mp u p) = some s'.pool) ∨
    (∃ adminCommand, a = .command adminCommand ∧
      s.pool.start .shell (AdminShell.action adminCommand).code = some s'.pool) ∨
    ∃ t, a = .work t ∧ s.pool.step t = some s'.pool := by
  cases a with
  | queue a =>
    left
    cases a with
    | worker i =>
      simp only [step, queueStep] at h
      split at h
      · cases h
      · obtain ⟨queue, _, rfl⟩ := Option.map_eq_some_iff.mp h
        rfl
    | size =>
      simp only [step, queueStep] at h
      split at h
      · obtain ⟨queue, _, rfl⟩ := Option.map_eq_some_iff.mp h
        rfl
      · cases h
    | receive | run | notify | spurious =>
      obtain ⟨queue, _, rfl⟩ := Option.map_eq_some_iff.mp h
      rfl
  | handle i u =>
    simp only [step, handleStep] at h
    split at h
    · rename_i p hp
      split at h
      · cases h
      · obtain ⟨pool, hpool, rfl⟩ := Option.map_eq_some_iff.mp h
        exact .inr (.inl ⟨i, u, p, rfl, hp, hpool⟩)
    · cases h
  | handled i =>
    left
    simp only [step, handledStep] at h
    split at h
    · split at h
      · obtain ⟨queue, _, rfl⟩ := Option.map_eq_some_iff.mp h
        rfl
      · cases h
    · cases h
  | command adminCommand =>
    simp only [step, commandStep] at h
    split at h
    · split at h
      · cases h
      · cases h
        exact .inl rfl
      · obtain ⟨pool, hpool, rfl⟩ := Option.map_eq_some_iff.mp h
        exact .inr (.inr (.inl ⟨adminCommand, rfl, hpool⟩))
    · cases h
  | commanded =>
    simp only [step] at h
    split at h
    · cases h
      exact .inl rfl
    · cases h
  | work t =>
    obtain ⟨pool, hpool, rfl⟩ := Option.map_eq_some_iff.mp h
    exact .inr (.inr (.inr ⟨t, rfl, hpool⟩))

/-- A thread starts a handler or a command, or takes its next action, or the code stays as it is. -/
theorem pool_cases {a : Act N} (h : step mp s a = some s') :
    s'.pool = s.pool ∨ (∃ t c, Starts mp t c ∧ s.pool.start t c = some s'.pool) ∨
      ∃ t, a = .work t ∧ s.pool.step t = some s'.pool := by
  rcases pool_step h with hpool | ⟨i, u, p, _, _, hpool⟩ | ⟨adminCommand, _, hpool⟩ | ⟨t, ha, hpool⟩
  · exact .inl hpool
  · exact .inr (.inl ⟨_, _, .handler i u p, hpool⟩)
  · exact .inr (.inl ⟨_, _, .command _, hpool⟩)
  · exact .inr (.inr ⟨t, ha, hpool⟩)

/-- An invariant of the code of the threads. -/
theorem pool_invariant {I : Code N → Prop} (h0 : I (init N).pool)
    (hstart : ∀ p p' t c, I p → Starts mp t c → p.Disciplined Mutex.rank → p.start t c = some p' → I p')
    (hwork : ∀ p p' t, I p → p.step t = some p' → I p') {tr : List (State N × Act N)}
    (h : Run (step mp) (init N) tr s) : I s.pool := by
  refine (h.invariant (I := fun s => Ok s ∧ I s.pool) ⟨ok_init N, h0⟩ ?_).2
  rintro s a s' ⟨hok, hI⟩ hst
  refine ⟨hok.step hst, ?_⟩
  rcases pool_cases hst with hpool | ⟨t, c, hc, hpool⟩ | ⟨t, _, hpool⟩
  · rwa [hpool]
  · exact hstart _ _ t c hI hc hok.disciplined hpool
  · exact hwork _ _ t hI hpool

/-! ## Accesses -/

/-- The next action of the thread accesses the table: it calls an operation on it, or sends to an address that it reads
from the connections. -/
def Accesses (s : State N) (t : Thread N) (T : Table) : Prop :=
  (∃ (β : Type) (o : ServerOp β) (k : β → ServerProg Unit), s.pool.code t = .call o k ∧ T ∈ o.tables) ∨
    ∃ d k, s.pool.code t = .send d k ∧ d.packetType = .SENDSERVERCOMMAND ∧ T = .activeConnections

theorem Starts.keeping {t : Thread N} {c : ServerProg Unit} (h : Starts mp t c) (s : Server) : Keeping ∅ s c := by
  cases h with
  | handler i u packet => exact keeping_handlePacket mp u packet
  | command action => exact keeping_code action

/-- All threads keep to their mutexes. -/
theorem secured_of_run {tr : List (State N × Act N)} (h : Run (step mp) (init N) tr s) :
    s.pool.Secured guards ToConnection := by
  refine pool_invariant (I := Pool.Secured guards ToConnection) (fun _ => trivial) ?_ (fun _ _ _ => Pool.Secured.step) h
  intro p p' t c hsec hc hdisc hst
  refine hsec.start ?_ hst
  have howned : p.owned t = ∅ :=
    Set.eq_empty_iff_forall_notMem.mpr fun m => hdisc.owns_nil (Pool.start_eq_some hst).1 m
  rw [howned]
  exact (hc.keeping p.shared).imp fun _ _ _ => trivial

/-- Who accesses a table holds its mutex. -/
theorem holding_of_accesses (hsec : s.pool.Secured guards ToConnection) {t : Thread N} {T : Table}
    (h : Accesses s t T) : s.pool.owner T.mutex = some t := by
  rcases h with ⟨β, o, k, hc, hT⟩ | ⟨d, k, hc, hd, rfl⟩
  · exact hsec.owns hc ⟨T, hT, rfl⟩
  · exact (hsec.sends hc hd).1

/-- **No data races**: in every reachable state, a thread that is about to access a table holds the mutex of the table,
so there is one such thread at most. -/
theorem race_free {tr : List (State N × Act N)} (h : Run (step mp) (init N) tr s) :
    (∀ t T, Accesses s t T → Holding s t T.mutex) ∧ ∀ t u T, Accesses s t T → Accesses s u T → t = u := by
  have hsec := secured_of_run h
  refine ⟨fun t T hT => ?_, fun t u T ht hu => ?_⟩
  · have hown := holding_of_accesses hsec hT
    cases T <;> exact hown
  · have htu := (holding_of_accesses hsec ht).symm.trans (holding_of_accesses hsec hu)
    exact Option.some.inj htu

theorem race_free_connectAndBroadcast :
    ∃ tr s, Run (step .reference) (init NUM_WORKER_THREADS) tr s ∧ tr.map Prod.snd = connectAndBroadcast ∧
      Accesses s (.worker 0) .sessions ∧ Accesses s .shell .activeConnections ∧
      (∀ t T, Accesses s t T → Holding s t T.mutex) ∧ ∀ t u T, Accesses s t T → Accesses s u T → t = u := by
  obtain ⟨s, hs, hworker, hshell⟩ : ∃ s, exec (step .reference) (init NUM_WORKER_THREADS) connectAndBroadcast = some s ∧
      Accesses s (.worker 0) .sessions ∧ Accesses s .shell .activeConnections :=
    ⟨_, rfl, .inl ⟨_, .generateSession 0, _, rfl, List.mem_cons_self⟩,
      .inl ⟨_, .connections, _, rfl, List.mem_cons_self⟩⟩
  obtain ⟨tr, hr, hacts⟩ := Run.of_exec hs
  exact ⟨tr, s, hr, hacts, hworker, hshell, race_free hr⟩

/-- **Messages go to current addresses**: whenever a step sends a message that is passed on, the connections have its
address for its session in the state in which it is sent. -/
theorem passed_on_current {tr : List (State N × Act N)} (h : Run (step mp) (init N) tr s) {a : Act N} {s' : State N}
    (hst : step mp s a = some s') {d : Datagram} (hout : s'.pool.out = s.pool.out ++ [d])
    (hd : d.packetType = .SENDSERVERCOMMAND) : ∃ sessionId command dest,
      d = serverCommand sessionId command dest ∧ s.pool.shared.activeConnections[sessionId]? = some dest := by
  have hne {p : Code N} (hp : p.out = s.pool.out) : p ≠ s'.pool := by
    rintro rfl
    rw [hp] at hout
    simp at hout
  rcases pool_cases hst with hpool | ⟨t, c, _, hpool⟩ | ⟨t, _, hpool⟩
  · exact absurd hpool.symm (hne rfl)
  · obtain ⟨_, hpool⟩ := Pool.start_eq_some hpool
    exact absurd hpool.symm (hne rfl)
  · rcases Pool.step_cases hpool with ⟨_, _, _, _, hsame, _⟩ | ⟨_, _, _, _, _, hsame, _⟩ | ⟨d', k, hc, _, hsent, _⟩
    · exact absurd rfl (hne hsame)
    · exact absurd rfl (hne hsame)
    · rw [hsent, List.append_cancel_left_eq, List.singleton_inj] at hout
      subst hout
      exact ((secured_of_run h).sends hc hd).2

/-- A `CONNECT` is handled, and the shell begins a broadcast. -/
def broadcastToOne : List (Act NUM_WORKER_THREADS) :=
  connectAndBroadcast.take 12 ++ List.replicate 7 (.work (.worker 0)) ++
    [.command (text "/h hello"), .work .shell, .work .shell]

/-- The message of the broadcast. -/
def helloToOne : Datagram := serverCommand 1 (text ">>>BROADCAST Celegraph Admin: hello <<<") connectPacket.source

theorem passed_on_current_broadcastToOne : ∃ tr s s',
    Run (step .reference) (init NUM_WORKER_THREADS) tr s ∧ tr.map Prod.snd = broadcastToOne ∧
      step .reference s (.work .shell) = some s' ∧ s'.pool.out = s.pool.out ++ [helloToOne] ∧
      ∃ sessionId command dest, helloToOne = serverCommand sessionId command dest ∧
        s.pool.shared.activeConnections[sessionId]? = some dest := by
  obtain ⟨s, hs, s', hst, hout⟩ : ∃ s, exec (step .reference) (init NUM_WORKER_THREADS) broadcastToOne = some s ∧
      ∃ s', step .reference s (.work .shell) = some s' ∧ s'.pool.out = s.pool.out ++ [helloToOne] :=
    ⟨_, rfl, _, rfl, rfl⟩
  obtain ⟨tr, hr, hacts⟩ := Run.of_exec hs
  exact ⟨tr, s, s', hr, hacts, hst, hout, passed_on_current hr hst hout rfl⟩

end Celegraph.Threads
