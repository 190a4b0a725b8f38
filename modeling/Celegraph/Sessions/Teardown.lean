import Celegraph.Queue.Machine
import Celegraph.Sessions.Workers

/-!
# The end of a session

`DisconnectSession` ends a session in `sessions` and `activeSessions` only. Between two packets the four tables agree
exactly as long as no live session has been ended (`torn_down_iff`): once one is, its entry of `activeConnections` stays
for good, and broadcasts keep going to its client.
-/

namespace Celegraph.Sessions

open Packets Utils Server Runs
open MessagePack (Obj)
open Queue (NUM_WORKER_THREADS)

/-! ## Steps that end a session -/

/-- The session that a call ends. -/
def disconnects {β : Type} : ServerOp β → Option Int32
  | .disconnectSession sessionId => some sessionId
  | _ => none

/-- The session that the next action of a program ends. -/
def nextDisconnect : ServerProg Unit → Option Int32
  | .call o _ => disconnects o
  | _ => none

variable {N : Nat}

/-- The step executes `DisconnectSession` for the live session `id`. -/
def EndsSession (p : Workers N) (a : Act N) (id : Int32) : Prop :=
  ∃ i, a = .work i ∧ nextDisconnect (p.code i) = some id ∧ id ∈ p.shared.serverState.sessions

/-- The sessions and the next number after a call. -/
theorem apply_sessions {β : Type} (o : ServerOp β) (s : Server) :
    ((Effect.apply o s).2.serverState.sessions = s.serverState.sessions ∧
      (Effect.apply o s).2.serverState.curSession = s.serverState.curSession) ∨
    (s.serverState.curSession ≠ Int32.maxValue ∧
      (Effect.apply o s).2.serverState.sessions = insert s.serverState.curSession s.serverState.sessions ∧
      (Effect.apply o s).2.serverState.curSession = s.serverState.curSession + 1) ∨
    ∃ id, disconnects o = some id ∧ id ∈ s.serverState.sessions ∧
      (Effect.apply o s).2.serverState.sessions = s.serverState.sessions.erase id ∧
      (Effect.apply o s).2.serverState.curSession = s.serverState.curSession := by
  cases o with
  | generateSession id =>
    rw [ServerOp.apply_generateSession]
    rcases s.serverState.generateSession_cases id with ⟨_, hg⟩ | ⟨_, _, hg⟩ | ⟨_, hmax, hg⟩
    · exact .inl (by rw [hg]; exact ⟨rfl, rfl⟩)
    · exact .inl (by rw [hg]; exact ⟨rfl, rfl⟩)
    · exact .inr (.inl (by rw [hg]; exact ⟨hmax, rfl, rfl⟩))
  | disconnectSession id =>
    by_cases hlive : id ∈ s.serverState.sessions
    · exact .inr (.inr ⟨id, rfl, hlive, rfl, rfl⟩)
    · exact .inl ⟨Finset.erase_eq_of_notMem hlive, rfl⟩
  | selectPlayer id => exact .inl (by simp)
  | getSessionAccountName id => exact .inl (by simp)
  | verifySession | setConnection | findConnection | connections => exact .inl ⟨rfl, rfl⟩

/-- The sessions and the next number after a step. -/
theorem step_sessions {p p' : Workers N} {a : Act N} (h : p.step a = some p') :
    (p'.shared.serverState.sessions = p.shared.serverState.sessions ∧
      p'.shared.serverState.curSession = p.shared.serverState.curSession) ∨
    (p.shared.serverState.curSession ≠ Int32.maxValue ∧
      p'.shared.serverState.sessions = insert p.shared.serverState.curSession p.shared.serverState.sessions ∧
      p'.shared.serverState.curSession = p.shared.serverState.curSession + 1) ∨
    ∃ id, EndsSession p a id ∧ p'.shared.serverState.sessions = p.shared.serverState.sessions.erase id ∧
      p'.shared.serverState.curSession = p.shared.serverState.curSession := by
  cases a with
  | start i u data client packetType =>
    obtain ⟨_, rfl⟩ := Pool.start_eq_some h
    exact .inl ⟨rfl, rfl⟩
  | work i =>
    rcases Pool.step_cases h with ⟨_, _, _, hsh, _⟩ | ⟨_, o, k, hc, hsh, _⟩ | ⟨_, _, _, hsh, _⟩
    · exact .inl (by rw [hsh]; exact ⟨rfl, rfl⟩)
    · rw [hsh]
      rcases apply_sessions o p.shared with h | h | ⟨id, hid, hlive, h⟩
      · exact .inl h
      · exact .inr (.inl h)
      · exact .inr (.inr ⟨id, ⟨i, rfl, by rw [hc]; exact hid, hlive⟩, h⟩)
    · exact .inl (by rw [hsh]; exact ⟨rfl, rfl⟩)

/-! ## Runs -/

variable {tr : List (Workers N × Act N)} {p : Workers N}

theorem run_ok (h : Run Workers.step (Workers.init N) tr p) : ∃ w, p.Ok (spec .anyone) w := by
  refine h.invariant (I := fun p => ∃ w, p.Ok (spec .anyone) w) ⟨_, Workers.ok_init N⟩ ?_
  rintro p a p' ⟨w, hok⟩ hst
  cases a with
  | start i u data client packetType =>
    exact ⟨w, hok.start (keeps_dispatch fun _ _ _ _ _ _ hinv hlive => hinv.live _ hlive) hst⟩
  | work i =>
    obtain ⟨w', _, hok'⟩ := hok.step hst
    exact ⟨w', hok'⟩

/-- All sessions that were issued are live. -/
def AllLive (s : Server) : Prop :=
  1 ≤ s.serverState.curSession ∧ ∀ id, id ∈ s.serverState.sessions ↔ 1 ≤ id ∧ id < s.serverState.curSession

theorem run_allLive (h : Run Workers.step (Workers.init N) tr p) (hC : ∀ x ∈ tr, ∀ id, ¬EndsSession x.1 x.2 id) :
    AllLive p.shared := by
  refine h.invariant_where (C := fun p a => ∀ id, ¬EndsSession p a id) (I := fun p => AllLive p.shared) ?_ ?_ hC
  · have hinv := inv_init (T := .anyone)
    refine ⟨hinv.positive, fun id => ?_⟩
    rw [show (Workers.init N).shared = Server.init from rfl, ← hinv.issued]
    simp [Server.init, ServerState.init, Ledger.empty]
  · rintro p a p' ⟨hpos, hall⟩ hne hst
    rcases step_sessions hst with ⟨hs, hc⟩ | ⟨hmax, hs, hc⟩ | ⟨id, hends, _⟩
    · exact ⟨hc ▸ hpos, fun id => by rw [hs, hc, hall]⟩
    · refine ⟨hc ▸ le_succ hmax hpos, fun id => ?_⟩
      rw [hs, hc, range_succ hmax hpos, Finset.mem_insert, hall]
    · exact absurd hends (hne id)

/-- The session was issued, and is not live any more. -/
def Gone (s : Server) (id : Int32) : Prop :=
  (1 ≤ id ∧ id < s.serverState.curSession) ∧ id ∉ s.serverState.sessions

/-- A session that is gone does not come back: numbers are not issued twice. -/
theorem Gone.step {p p' : Workers N} {a : Act N} {id : Int32} (hg : Gone p.shared id)
    (hpos : 1 ≤ p.shared.serverState.curSession) (h : p.step a = some p') : Gone p'.shared id := by
  obtain ⟨hrange, hnot⟩ := hg
  rcases step_sessions h with ⟨hs, hc⟩ | ⟨hmax, hs, hc⟩ | ⟨_, _, hs, hc⟩
  · exact ⟨hc ▸ hrange, hs ▸ hnot⟩
  · refine ⟨hc ▸ (range_succ hmax hpos).mpr (.inr hrange), ?_⟩
    rw [hs, Finset.mem_insert, not_or]
    refine ⟨?_, hnot⟩
    rintro rfl
    simp at hrange
  · exact ⟨hc ▸ hrange, by rw [hs]; exact fun hmem => hnot (Finset.mem_of_mem_erase hmem)⟩

theorem run_gone (h : Run Workers.step (Workers.init N) tr p) {x : Workers N × Act N} (hx : x ∈ tr) {id : Int32}
    (he : EndsSession x.1 x.2 id) : Gone p.shared id := by
  induction h with
  | init => cases hx
  | @step tr p p' a hr hst ih =>
    obtain ⟨w, hok⟩ := run_ok hr
    rcases List.mem_append.mp hx with hx | hx
    · exact (ih hx).step hok.inv.positive hst
    · rw [List.mem_singleton] at hx
      subst hx
      obtain ⟨i, rfl, hnext, hlive⟩ := he
      have hrange := (hok.inv.issued id).mp (hok.inv.live id hlive)
      rcases Pool.step_cases hst with ⟨m, k, hc, _⟩ | ⟨_, o, k, hc, hsh, _⟩ | ⟨_, _, hc, _⟩
      · rcases hc with hc | hc <;> rw [hc] at hnext <;> cases hnext
      · rw [hc] at hnext
        cases o with
        | disconnectSession id' =>
          cases hnext
          rw [hsh]
          exact ⟨hrange, Finset.notMem_erase id _⟩
        | _ => cases hnext
      · rw [hc] at hnext
        cases hnext

/-! ## The tables -/

/-- The tables agree on the live sessions. -/
structure TablesAgree (s : Server) : Prop where
  connections : ∀ id, id ∈ s.activeConnections ↔ id ∈ s.serverState.sessions
  active : s.serverState.activeSessions ⊆ s.serverState.sessions
  accounts : ∀ id ∈ s.serverState.sessionAccounts, id ∈ s.serverState.sessions

/-- Between two packets, the keys of `activeConnections` are the sessions issued. -/
theorem mem_activeConnections_of_quiescent (h : Run Workers.step (Workers.init N) tr p) (hq : p.Quiescent)
    (id : Int32) :
    id ∈ p.shared.activeConnections ↔ 1 ≤ id ∧ id < p.shared.serverState.curSession := by
  obtain ⟨w, hok⟩ := run_ok h
  rw [← hok.inv.issued]
  constructor
  · intro hid
    obtain ⟨client, hclient⟩ := Option.isSome_iff_exists.mp (Std.TreeMap.mem_iff_isSome_getElem?.mp hid)
    exact hok.inv.tenant id client hclient
  · intro hid
    obtain ⟨client, hclient⟩ := Option.isSome_iff_exists.mp hid
    have hsent := hok.sent_of_owes hq ⟨id, client, hclient, rfl⟩
    obtain ⟨id', heq, _, hbound⟩ := (hok.sent _ hsent).reply rfl
    rw [(connectReply_inj.mp heq).1]
    exact (hok.inv.bound _).mpr hbound

theorem tablesAgree_iff (h : Run Workers.step (Workers.init N) tr p) (hq : p.Quiescent) :
    TablesAgree p.shared ↔ AllLive p.shared := by
  obtain ⟨w, hok⟩ := run_ok h
  have hkeys := mem_activeConnections_of_quiescent h hq
  constructor
  · intro hagree
    exact ⟨hok.inv.positive, fun id => by rw [← hagree.connections, hkeys]⟩
  · rintro ⟨_, hall⟩
    refine ⟨fun id => by rw [hkeys, hall], hok.inv.active, fun id hid => ?_⟩
    exact (hall id).mpr ((hok.inv.issued id).mp (hok.inv.accounts id hid))

/-- What the end of sessions is to leave behind: tables that agree, no trace of a session that was ended, and no message
sent on its account since. -/
structure TornDown (tr : List (Workers N × Act N)) (p : Workers N) : Prop where
  agree : TablesAgree p.shared
  gone : ∀ x ∈ tr, ∀ id, EndsSession x.1 x.2 id → id ∉ p.shared.serverState.sessions ∧
    id ∉ p.shared.serverState.activeSessions ∧ id ∉ p.shared.serverState.sessionAccounts ∧
    id ∉ p.shared.activeConnections
  silent : ∀ x ∈ tr, ∀ id, EndsSession x.1 x.2 id →
    ∀ d ∈ p.out.drop x.1.out.length, ∀ command, d ≠ serverCommand id command d.dest

/-- **Session teardown is complete**, between two packets, exactly if no live session has been ended. -/
theorem torn_down_iff (h : Run Workers.step (Workers.init N) tr p) (hq : p.Quiescent) :
    TornDown tr p ↔ ∀ x ∈ tr, ∀ id, ¬EndsSession x.1 x.2 id := by
  constructor
  · rintro ⟨hagree, _, _⟩ x hx id he
    obtain ⟨hrange, hnot⟩ := run_gone h hx he
    exact hnot ((((tablesAgree_iff h hq).mp hagree).2 id).mpr hrange)
  · intro hC
    exact ⟨(tablesAgree_iff h hq).mpr (run_allLive h hC), fun x hx id he => absurd he (hC x hx id),
      fun x hx id he => absurd he (hC x hx id)⟩

/-! ## A client that connects and disconnects -/

def localClient : SockAddr := ⟨0x7f000001, 40000⟩

/-- `CONNECT` with session 0. -/
def connect : Obj := Connect.pack { packetId := 1, sessionId := 0 }

/-- `DISCONNECT` of session 1. -/
def disconnect : Obj := .array [.int 2, .int 1]

/-- The server after the `CONNECT`. -/
def afterConnect : Server :=
  ⟨{ ServerState.init with sessions := {1}, curSession := 2 }, (∅ : Std.TreeMap Int32 SockAddr).insert 1 localClient⟩

theorem run_connect :
    ∃ tr p, Run Workers.step (Workers.init NUM_WORKER_THREADS) tr p ∧ p.Resting ∧ p.shared = afterConnect := by
  have hrun : (dispatch ⟨0, 0⟩ connect localClient 3).run (Workers.init NUM_WORKER_THREADS).shared [] =
      .ok () afterConnect [] [connectReply 1 localClient] := rfl
  obtain ⟨n, p, hex, hrest, hs, _⟩ := Workers.exec_handle (Workers.resting_init NUM_WORKER_THREADS) 0 hrun
  obtain ⟨tr, hr, _⟩ := Run.of_exec hex
  exact ⟨tr, p, hr, hrest, hs⟩

/-- The four tables after the `CONNECT` agree. -/
theorem torn_down_connect :
    ∃ tr p, Run Workers.step (Workers.init NUM_WORKER_THREADS) tr p ∧ p.Quiescent ∧ p.shared = afterConnect ∧
      (TornDown tr p ↔ ∀ x ∈ tr, ∀ id, ¬EndsSession x.1 x.2 id) := by
  obtain ⟨tr, p, hr, hrest, hs⟩ := run_connect
  exact ⟨tr, p, hr, hrest.quiescent, hs, torn_down_iff hr hrest.quiescent⟩

/-- The server after the `DISCONNECT`, which may come from any client: session 1 has ended, and still has its
connection. -/
theorem run_disconnect (client : SockAddr) :
    ∃ tr p, Run Workers.step (Workers.init NUM_WORKER_THREADS) tr p ∧ p.Resting ∧ 1 ∈ p.shared.activeConnections ∧
      1 ∉ p.shared.serverState.sessions := by
  obtain ⟨tr, p, hr, hrest, hs⟩ := run_connect
  obtain ⟨s', hrun, hconn, hlive⟩ : ∃ s', (dispatch ⟨0, 0⟩ disconnect client 4).run p.shared [] = .ok () s' [] [] ∧
      1 ∈ s'.activeConnections ∧ 1 ∉ s'.serverState.sessions := by
    rw [hs]
    exact ⟨{ afterConnect with serverState := afterConnect.serverState.disconnectSession 1 }, rfl, by decide, by decide⟩
  obtain ⟨n, p', hex, hrest', hs', _⟩ := Workers.exec_handle hrest 0 hrun
  obtain ⟨tr', hr', _⟩ := hr.exec hex
  exact ⟨_, p', hr', hrest', hs' ▸ hconn, hs' ▸ hlive⟩

/-- After the `DISCONNECT`, session 1 still has its connection. -/
theorem not_torn_down :
    ¬∀ (N : Nat) (tr : List (Workers N × Act N)) (p : Workers N),
      Run Workers.step (Workers.init N) tr p → p.Quiescent → TablesAgree p.shared := by
  intro hall
  obtain ⟨tr, p, hr, hrest, hconn, hlive⟩ := run_disconnect localClient
  have hagree := hall NUM_WORKER_THREADS tr p hr hrest.quiescent
  exact hlive ((hagree.connections 1).mp hconn)

end Celegraph.Sessions
