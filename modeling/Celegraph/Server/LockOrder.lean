import Celegraph.AdminShell
import Celegraph.Lib.LockOrder

/-!
# The lock order of the server

Every handler and every command of the admin shell locks `serverStateMutex` before `activeConnectionsMutex`, on all of
its paths, and returns with neither (`inOrder_handlePacket`, `inOrder_code`).
-/

namespace Celegraph

open CxxString Packets Utils Prog
open MessagePack (Obj)

/-- The order in which the mutexes are locked. -/
def Mutex.rank : Mutex → Nat
  | .serverState => 0
  | .activeConnections => 1
  | .packetQueue => 2

theorem Mutex.rank_le (m : Mutex) : m.rank ≤ 2 := by
  cases m <;> decide

namespace Server

variable {held : List Mutex}

/-- The program keeps the order, and returns with the mutexes that it started with. -/
abbrev InOrder (held : List Mutex) (p : ServerProg Unit) : Prop := p.Balanced Mutex.rank held

theorem inOrder_return : InOrder held (return) := rfl

theorem inOrder_sendDataTo (body : Obj) (packetType : PTYPE) (dest : SockAddr) :
    InOrder held (sendDataTo body packetType dest) := rfl

theorem inOrder_perform (o : ServerOp Unit) : InOrder held (perform o) := fun _ => rfl

theorem inOrder_broadcastLoop (isAdmin : Bool) (broadcast user : Bytes) (conns : List (Int32 × SockAddr)) :
    InOrder held (broadcastLoop isAdmin broadcast user conns) := by
  induction conns with
  | nil => exact inOrder_return
  | cons conn conns ih =>
    unfold broadcastLoop
    split
    · exact ih
    · split
      · trivial
      · split
        · exact ih
        · exact ih

/-- Nothing of a higher rank than `serverStateMutex` is held. -/
def BelowConnections (held : List Mutex) : Prop := ∀ h ∈ held, h.rank < Mutex.rank .activeConnections

theorem inOrder_broadcastToConnections (h : BelowConnections held) (msg user : Bytes) :
    InOrder held (broadcastToConnections msg user) :=
  Balanced.withLock h fun _ => inOrder_broadcastLoop _ _ _ _

theorem inOrder_sendMessageToConnection (h : BelowConnections held) (msg fromUser toUser : Bytes) :
    InOrder held (sendMessageToConnection msg fromUser toUser) := by
  simp only [sendMessageToConnection]
  generalize (if fromUser = text "admin" then text ">>>MESSAGE Celegraph Admin: " ++ msg ++ text " <<<"
    else text ">>>MESSAGE Client " ++ fromUser ++ text ": " ++ msg ++ text " <<<") = formattedMsg
  split
  · exact inOrder_return
  · split
    · exact inOrder_return
    · refine Balanced.withLock h fun conn => ?_
      cases conn with
      | none => exact inOrder_return
      | some dest => exact inOrder_sendDataTo _ _ dest

theorem inOrder_playerCommand (h : BelowConnections held) (pCommand : Bytes) (sessionId : Int32) :
    InOrder held (playerCommand pCommand sessionId) := by
  unfold playerCommand
  split
  · trivial
  · trivial
  · split
    · split
      · trivial
      · split
        · trivial
        · exact inOrder_sendMessageToConnection h _ _ _
    · split
      · split
        · split
          · trivial
          · exact inOrder_broadcastToConnections h _ _
        · exact inOrder_return
      · exact inOrder_return

/-- A handler that verifies the session locks the tables around everything else. -/
theorem inOrder_sessionHandler {P : Type} {convert : Obj → Option P} {sessionId : P → Int32} {refuse : ServerProg Unit}
    {act : P → ServerProg Unit} {data : Obj} {client : SockAddr} (hrefuse : InOrder [.serverState] refuse)
    (hact : ∀ packet, InOrder [.serverState] (act packet)) :
    InOrder [] (sessionHandler convert sessionId refuse act data client) := by
  unfold sessionHandler
  split
  · exact inOrder_sendDataTo _ _ client
  · rename_i packet _
    refine Balanced.withLock (by simp) fun live => ?_
    cases live with
    | false => exact hrefuse
    | true => exact hact packet

/-- `ConnectHandler` unlocks the tables before it locks the connections. -/
theorem inOrder_connectHandler (u : Uninit) (data : Obj) (client : SockAddr) :
    InOrder [] (connectHandler u data client) := by
  unfold connectHandler
  split
  · exact inOrder_sendDataTo _ _ client
  · refine ⟨by simp, fun newSession => ?_⟩
    cases newSession with
    | none => trivial
    | some newSession => exact ⟨List.mem_cons_self, by simp, fun _ => ⟨List.mem_cons_self, rfl⟩⟩

theorem belowConnections_serverState : BelowConnections [.serverState] := by
  intro h hmem
  rw [List.mem_singleton] at hmem
  subst hmem
  decide

theorem inOrder_dispatch (u : Uninit) (data : Obj) (client : SockAddr) (packetType : UInt8) :
    InOrder [] (dispatch u data client packetType) := by
  have hinvalid : InOrder [.serverState] (invalidSession client) := inOrder_sendDataTo _ _ client
  unfold dispatch
  split
  · exact inOrder_sendDataTo _ _ client
  · cases PTYPE.ofValue packetType with
    | none => exact inOrder_sendDataTo _ _ client
    | some t =>
      cases t with
      | CONNECT => exact inOrder_connectHandler u data client
      | GENERIC | ACK => exact inOrder_sessionHandler inOrder_return fun _ => inOrder_return
      | DISCONNECT => exact inOrder_sessionHandler inOrder_return fun _ => inOrder_perform _
      | SELECTUSER => exact inOrder_sessionHandler hinvalid fun _ => inOrder_perform _
      | CREATEUSER => exact inOrder_sessionHandler hinvalid fun _ => inOrder_return
      | LISTUSERS => exact inOrder_sessionHandler hinvalid fun _ _ => inOrder_sendDataTo _ _ client
      | SENDPLAYERCOMMAND =>
        exact inOrder_sessionHandler hinvalid fun _ =>
          Balanced.bind (inOrder_playerCommand belowConnections_serverState _ _) fun _ => inOrder_sendDataTo _ _ client
      | ERROR | SENDSERVERCOMMAND => exact inOrder_sendDataTo _ _ client
      | DELETEUSER | INITIALIZEGAME | UPDATEPC | UPDATENPC | SENDPLAYERACTION | SENDSERVERACTION | UNITY =>
        exact inOrder_return

/-- **Every handler keeps the lock order**, and returns with no mutex. -/
theorem inOrder_handlePacket (mp : Msgpack) (u : Uninit) (packet : Packet) : InOrder [] (handlePacket mp u packet) := by
  unfold handlePacket
  split
  · trivial
  · exact inOrder_dispatch _ _ _ _

/-- **Every command of the shell keeps the lock order**, and returns with no mutex. -/
theorem inOrder_code (action : AdminShell.Action) : InOrder [] action.code := by
  cases action with
  | broadcastToConnections msg => exact inOrder_broadcastToConnections (by intro h hmem; cases hmem) _ _
  | sendMessageToConnection msg toUser =>
    exact inOrder_sendMessageToConnection (by intro h hmem; cases hmem) _ _ _
  | throw | undefined => trivial
  | shutdown | getPacketQueueSize | other => exact inOrder_return

end Server

end Celegraph
