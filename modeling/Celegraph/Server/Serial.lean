import Celegraph.AdminShell
import Celegraph.Lib.Serial
import Celegraph.Server.Crash
import Celegraph.Server.LockOrder

/-!
# Handlers in one critical section

Each handler does everything with the session tables in one critical section of `serverStateMutex`, and its reply
depends on what it finds there, whatever becomes of the connections in the meantime.

- `sessionTables`: the session tables and all packets but the messages that are passed on, as an `Observer`.
- `alone p v`: what is observed of a program that runs alone, from the session tables `v`.
- `serves_handlePacket`: every handler serves its packet with the effect that it has alone; `unseen_code`: the commands
  of the shell show nothing.
- `run_of_alone`: the effect of a handler alone does not depend on the connections.
-/

namespace Celegraph.Server

open CxxString Packets Utils Prog
open MessagePack (Obj)

/-- The session tables, and all packets but the messages that are passed on. -/
def sessionTables : Observer Server Mutex Datagram ServerState where
  mutex := .serverState
  view := Server.serverState
  sees d := d.packetType ≠ .SENDSERVERCOMMAND

theorem seen_relay {d : Datagram} (h : d.packetType = .SENDSERVERCOMMAND) : sessionTables.seen [d] = [] := by
  simp [Observer.seen, sessionTables, h]

/-- What is observed of an outcome. -/
def observed : Outcome Server Mutex Datagram Unit → Option (ServerState × List Datagram)
  | .ok _ s' _ out => some (s'.serverState, sessionTables.seen out)
  | .exception | .undefined | .deadlock => none

/-- What is observed of a program that runs alone, from the session tables `v`. -/
def alone (p : ServerProg Unit) (v : ServerState) : Option (ServerState × List Datagram) := observed (p.run ⟨v, ∅⟩ [])

/-! ## Programs that show nothing -/

/-- The program leaves the session tables alone, and sends nothing but messages that are passed on. -/
abbrev Unseen {α : Type} (p : ServerProg α) : Prop := p.Quiet sessionTables []

theorem unseen_return : Unseen (return) := rfl

theorem unseen_sendServerCommand (sessionId : Int32) (command : Bytes) (dest : SockAddr) :
    Unseen (sendServerCommand sessionId command dest) := by
  refine ⟨[], ?_, rfl⟩
  rw [seen_relay rfl, List.append_nil]

theorem unseen_broadcastLoop (isAdmin : Bool) (broadcast user : Bytes) (conns : List (Int32 × SockAddr)) :
    Unseen (broadcastLoop isAdmin broadcast user conns) := by
  induction conns with
  | nil => exact unseen_return
  | cons conn conns ih =>
    have hsend : Unseen (do sendServerCommand conn.1 broadcast conn.2; broadcastLoop isAdmin broadcast user conns) :=
      Quiet.bind (unseen_sendServerCommand _ _ _) fun _ => ih
    unfold broadcastLoop
    split
    · exact hsend
    · split
      · trivial
      · split
        · exact ih
        · exact hsend

theorem unseen_broadcastToConnections (msg user : Bytes) : Unseen (broadcastToConnections msg user) :=
  Quiet.withLock (by decide) fun _ => ⟨rfl, unseen_broadcastLoop _ _ _ _⟩

theorem unseen_sendMessageToConnection (msg fromUser toUser : Bytes) :
    Unseen (sendMessageToConnection msg fromUser toUser) := by
  simp only [sendMessageToConnection]
  generalize (if fromUser = text "admin" then text ">>>MESSAGE Celegraph Admin: " ++ msg ++ text " <<<"
    else text ">>>MESSAGE Client " ++ fromUser ++ text ": " ++ msg ++ text " <<<") = formattedMsg
  split
  · exact unseen_return
  · split
    · exact unseen_return
    · rename_i sessionId _
      refine Quiet.withLock (by decide) fun s => ⟨rfl, ?_⟩
      rw [ServerOp.apply_findConnection]
      cases s.activeConnections[sessionId]? with
      | none => exact unseen_return
      | some dest => exact unseen_sendServerCommand _ _ _

theorem unseen_playerCommand (pCommand : Bytes) (sessionId : Int32) : Unseen (playerCommand pCommand sessionId) := by
  rcases playerCommand_cases pCommand sessionId with ⟨_, _, h⟩ | ⟨_, _, h⟩ | ⟨_, _, _, _, h⟩ | ⟨_, _, _, h⟩
  · rw [h]
    trivial
  · rw [h]
    exact unseen_return
  · rw [h]
    exact unseen_sendMessageToConnection _ _ _
  · rw [h]
    exact unseen_broadcastToConnections _ _

/-- **The commands of the shell show nothing.** -/
theorem unseen_code (action : AdminShell.Action) : Unseen action.code := by
  cases action with
  | broadcastToConnections msg => exact unseen_broadcastToConnections _ _
  | sendMessageToConnection msg toUser => exact unseen_sendMessageToConnection _ _ _
  | throw | undefined => trivial
  | shutdown | getPacketQueueSize | other => exact unseen_return

/-! ## Programs in the section -/

variable {v : ServerState}

/-- The program runs in the section with the effect that it has alone, if it returns. -/
def Serving (v : ServerState) (p : ServerProg Unit) : Prop :=
  ((p.run ⟨v, ∅⟩ [.serverState] = .undefined) ∧ Inside sessionTables v none (do p; release .serverState)) ∨
    ∃ s' out, p.run ⟨v, ∅⟩ [.serverState] = .ok () s' [.serverState] out ∧
      Inside sessionTables v (some (s'.serverState, sessionTables.seen out)) (do p; release .serverState)

theorem serving_return : Serving v (return) := .inr ⟨⟨v, ∅⟩, [], rfl, [], rfl, rfl⟩

theorem serving_sendDataTo (body : Obj) (packetType : PTYPE) (dest : SockAddr) :
    Serving v (sendDataTo body packetType dest) := by
  refine .inr ⟨⟨v, ∅⟩, [⟨packetType, body, dest⟩], rfl, some (v, []), ?_, [], rfl, rfl⟩
  simp [sendFirst]

/-- A call on the session tables, and what follows. -/
theorem serving_call {β : Type} {o : ServerOp β} {b : ServerState → β} {f : ServerState → ServerState}
    (ho : ∀ s, Effect.apply o s = (b s.serverState, { s with serverState := f s.serverState }))
    {k : β → ServerProg Unit} (hk : Serving (f v) (k (b v))) : Serving v (do k (← perform o)) := by
  have hin {r : Option (ServerState × List Datagram)}
      (h : Inside sessionTables (f v) r (do k (b v); release .serverState)) :
      Inside sessionTables v r (do let y ← perform o; k y; release .serverState) := by
    rintro s rfl
    rw [ho]
    exact h
  have hrun : ((do k (← perform o)) : ServerProg Unit).run ⟨v, ∅⟩ [.serverState] =
      (k (b v)).run ⟨f v, ∅⟩ [.serverState] := by simp only [perform_bind, run, ho]
  rcases hk with ⟨hk, h⟩ | ⟨s', out, hk, h⟩
  · exact .inl ⟨hrun.trans hk, hin h⟩
  · exact .inr ⟨s', out, hrun.trans hk, hin h⟩

theorem serving_perform {o : ServerOp Unit} {f : ServerState → ServerState}
    (ho : ∀ s, Effect.apply o s = ((), { s with serverState := f s.serverState })) : Serving v (perform o) :=
  serving_call (b := fun _ => ()) (k := fun _ => return) ho serving_return

/-- The verification of a session. -/
theorem serving_verify {sessionId : Int32} {act refuse : ServerProg Unit} (hact : Serving v act)
    (hrefuse : Serving v refuse) :
    Serving v (do if ← perform (.verifySession sessionId) then act else refuse) := by
  refine serving_call (b := fun v => v.verifySession sessionId) (f := id) (fun _ => rfl) ?_
  split
  · exact hact
  · exact hrefuse

/-- A program that shows nothing, and what follows. -/
theorem serving_bind {p q : ServerProg Unit} {out : List Datagram} (hp : Unseen p)
    (hrun : p.run ⟨v, ∅⟩ [.serverState] = .ok () ⟨v, ∅⟩ [.serverState] out) (hq : Serving v q) :
    Serving v (do p; q) := by
  have hbind : (p >>= fun _ => q) >>= (fun _ => release .serverState) = p >>= fun _ => (do q; release .serverState) :=
    bind_assoc p _ _
  obtain ⟨_, hnil⟩ := Quiet.run hp hrun
  rcases hq with ⟨hq, hin⟩ | ⟨s', out', hq, hin⟩
  · refine .inl ⟨by rw [run_bind, hrun, Outcome.andThen, hq], ?_⟩
    rw [hbind]
    exact Inside.bind hp fun _ => hin
  · refine .inr ⟨s', out ++ out', by rw [run_bind, hrun, Outcome.andThen, hq], ?_⟩
    rw [Observer.seen_append, ← hnil, List.nil_append, hbind]
    exact Inside.bind hp fun _ => hin

/-- A player command, and what follows; nothing does if it leaves its tokens or its string. -/
theorem serving_playerCommand (pCommand : Bytes) (sessionId : Int32) {q : ServerProg Unit} (hq : Serving v q) :
    Serving v (do playerCommand pCommand sessionId; q) := by
  have hrun := run_playerCommand ⟨v, ∅⟩ held_serverState pCommand sessionId
  by_cases hsay : SayComplete pCommand
  · rw [if_pos hsay] at hrun
    exact serving_bind (unseen_playerCommand pCommand sessionId) hrun hq
  · rcases playerCommand_cases pCommand sessionId with ⟨_, _, h⟩ | ⟨hsay', _⟩ | ⟨_, _, hsay', _⟩ | ⟨_, hsay', _⟩
    · rw [h]
      exact .inl ⟨rfl, trivial⟩
    all_goals exact absurd hsay' hsay

/-- A scope with the lock of the session tables serves its packet. -/
theorem serves_withLock {p : ServerProg Unit} (h : ∀ v, Serving v p) :
    (withLock .serverState p).Serves sessionTables (alone (withLock .serverState p)) := by
  refine .inl ⟨rfl, fun v => ?_⟩
  rcases h v with ⟨hrun, hin⟩ | ⟨s', out, hrun, hin⟩
  · have halone : alone (withLock .serverState p) v = none := by
      rw [alone, run_withLock (by simp), hrun]
      rfl
    rw [halone]
    exact hin
  · have halone : alone (withLock .serverState p) v = some (s'.serverState, sessionTables.seen out) := by
      rw [alone, run_withLock_of_ok (by simp) hrun]
      rfl
    rw [halone]
    exact hin

/-! ## Handlers -/

/-- A program that only sends serves its packet. -/
theorem serves_sendErrorTo (errorMsg : Bytes) (dest : SockAddr) :
    Prog.Serves sessionTables (alone (sendErrorTo errorMsg dest)) (sendErrorTo errorMsg dest : ServerProg Unit) :=
  .inr ⟨sessionTables.seen [errorTo errorMsg dest], ⟨[], (List.append_nil _).symm, rfl⟩, fun _ => rfl⟩

theorem serves_return : Prog.Serves sessionTables (alone (return)) (return : ServerProg Unit) :=
  .inr ⟨[], rfl, fun _ => rfl⟩

theorem serves_sessionHandler {P : Type} {convert : Obj → Option P} {sessionId : P → Int32} {refuse : ServerProg Unit}
    {act : P → ServerProg Unit} {data : Obj} {client : SockAddr} (hrefuse : ∀ v, Serving v refuse)
    (hact : ∀ packet v, Serving v (act packet)) :
    (sessionHandler convert sessionId refuse act data client).Serves sessionTables
      (alone (sessionHandler convert sessionId refuse act data client)) := by
  unfold sessionHandler
  cases convert data with
  | none => exact serves_sendErrorTo _ client
  | some packet => exact serves_withLock fun v => serving_verify (hact packet v) (hrefuse v)

/-- `ConnectHandler` is done with the session tables before it saves the connection and replies. -/
theorem serves_connectHandler (u : Uninit) (data : Obj) (client : SockAddr) :
    (connectHandler u data client).Serves sessionTables (alone (connectHandler u data client)) := by
  cases hc : Connect.convert u data with
  | none =>
    simp only [connectHandler, hc]
    exact serves_sendErrorTo _ client
  | some packet =>
    have halone (v : ServerState) : alone (connectHandler u data client) v =
        (v.generateSession packet.sessionId).1.map fun newSession =>
          ((v.generateSession packet.sessionId).2, [connectReply newSession client]) := by
      simp only [alone, run_connectHandler hc]
      rcases v.generateSession_cases packet.sessionId with ⟨_, hg⟩ | ⟨_, _, hg⟩ | ⟨_, _, hg⟩ <;> rw [hg] <;> rfl
    generalize alone (connectHandler u data client) = f at halone ⊢
    simp only [connectHandler, hc]
    refine .inl ⟨rfl, fun v => ?_⟩
    rintro s rfl
    rw [halone, ServerOp.apply_generateSession]
    change Inside sessionTables (s.serverState.generateSession packet.sessionId).2 (Option.map _
      (s.serverState.generateSession packet.sessionId).1) _
    cases hg : (s.serverState.generateSession packet.sessionId).1 with
    | none => trivial
    | some newSession =>
      refine ⟨[connectReply newSession client], rfl, by decide, fun s => ⟨rfl, by decide, [], ?_, rfl⟩⟩
      rfl

theorem serves_dispatch (u : Uninit) (data : Obj) (client : SockAddr) (packetType : UInt8) :
    (dispatch u data client packetType).Serves sessionTables (alone (dispatch u data client packetType)) := by
  have hinvalid : ∀ v, Serving v (invalidSession client) := fun _ => serving_sendDataTo _ _ client
  have hreturn : ∀ v, Serving v (return) := fun _ => serving_return
  unfold dispatch
  split
  · exact serves_sendErrorTo _ client
  · cases PTYPE.ofValue packetType with
    | none => exact serves_sendErrorTo _ client
    | some t =>
      cases t with
      | CONNECT => exact serves_connectHandler u data client
      | GENERIC | ACK => exact serves_sessionHandler hreturn fun _ => hreturn
      | DISCONNECT =>
        exact serves_sessionHandler hreturn fun packet v =>
          serving_perform (f := fun v => v.disconnectSession packet.sessionId) fun _ => rfl
      | SELECTUSER =>
        exact serves_sessionHandler hinvalid fun packet v =>
          serving_perform (f := fun v => v.selectPlayer packet.sessionId) fun _ => rfl
      | CREATEUSER => exact serves_sessionHandler hinvalid fun _ => hreturn
      | LISTUSERS =>
        exact serves_sessionHandler hinvalid fun packet v =>
          serving_call (b := fun v => (v.getSessionAccountName packet.sessionId).1)
            (f := fun v => (v.getSessionAccountName packet.sessionId).2) (fun _ => rfl) (serving_sendDataTo _ _ client)
      | SENDPLAYERCOMMAND =>
        exact serves_sessionHandler hinvalid fun _ _ => serving_playerCommand _ _ (serving_sendDataTo _ _ client)
      | ERROR | SENDSERVERCOMMAND => exact serves_sendErrorTo _ client
      | DELETEUSER | INITIALIZEGAME | UPDATEPC | UPDATENPC | SENDPLAYERACTION | SENDSERVERACTION | UNITY =>
        exact serves_return

/-- **Every handler serves its packet in one critical section.** -/
theorem serves_handlePacket (mp : Msgpack) (u : Uninit) (packet : Packet) :
    (handlePacket mp u packet).Serves sessionTables (alone (handlePacket mp u packet)) := by
  unfold handlePacket
  split
  · exact .inl trivial
  · exact serves_dispatch _ _ _ _

/-! ## Alone, with any connections -/

theorem handlerDefined_iff (s : Server) (u : Uninit) (data : Obj) (t : Option PTYPE) :
    HandlerDefined s u data t ↔ HandlerDefined ⟨s.serverState, ∅⟩ u data t := by
  unfold HandlerDefined
  split <;> rfl

/-- A packet whose handler returns with some connections is handled with any. -/
theorem returns_handlePacket {mp : Msgpack} {u : Uninit} {packet : Packet} {s : Server}
    (h : Returns (handlePacket mp u packet) ⟨s.serverState, ∅⟩ []) : Returns (handlePacket mp u packet) s [] := by
  unfold handlePacket at h ⊢
  cases hget : getDataFromPacket mp packet.data with
  | none =>
    obtain ⟨_, _, hrun⟩ := h
    rw [hget] at hrun
    cases hrun
  | some r =>
    rw [hget] at h
    exact (returns_dispatch_iff _ _).mpr ((handlerDefined_iff s _ _ _).mpr ((returns_dispatch_iff _ _).mp h))

/-- **A handler that returns alone returns with any connections**, and what is observed is the same. -/
theorem run_of_alone {mp : Msgpack} {u : Uninit} {packet : Packet} {s : Server} {v : ServerState}
    {out : List Datagram} (h : alone (handlePacket mp u packet) s.serverState = some (v, out)) :
    ∃ s' out', (handlePacket mp u packet).run s [] = .ok () s' [] out' ∧ s'.serverState = v ∧
      sessionTables.seen out' = out := by
  have hreturns : Returns (handlePacket mp u packet) ⟨s.serverState, ∅⟩ [] := by
    unfold alone at h
    cases hrun : (handlePacket mp u packet).run ⟨s.serverState, ∅⟩ [] with
    | ok a s' held out' =>
      have hheld : held = [] := (inOrder_handlePacket mp u packet).run hrun
      subst hheld
      exact ⟨s', out', hrun⟩
    | exception | undefined | deadlock =>
      rw [hrun] at h
      cases h
  obtain ⟨s', out', hrun⟩ := returns_handlePacket hreturns
  have heffect := (serves_handlePacket mp u packet).run hrun
  rw [show sessionTables.view s = s.serverState from rfl, h, Option.some.injEq, Prod.mk.injEq] at heffect
  exact ⟨s', out', hrun, heffect.1.symm, heffect.2.symm⟩

end Celegraph.Server
