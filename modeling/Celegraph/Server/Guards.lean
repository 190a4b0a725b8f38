import Celegraph.Lib.Sections
import Celegraph.Server.LockOrder
import Celegraph.Server.Relays

/-!
# What the mutexes of the server guard

- `Table`, `ServerOp.tables`: the tables, and those that a call reads or writes; `Table.mutex`: the mutex of each.
- `guards`: a call needs the mutexes of its tables, and leaves alone what the others guard.
- `ToConnection`: a message that is passed on is sent with the connections locked, to the address that they have for its
  session.
- `keeping_handlePacket`, `keeping_code`: all code of the workers and of the shell keeps to this.
-/

namespace Celegraph

open CxxString Packets Utils Prog
open MessagePack (Obj)

/-- The tables of the server. -/
inductive Table where
  | sessions
  | activeSessions
  | sessionAccounts
  | curSession
  | activeConnections
  deriving DecidableEq

/-- The mutex that is locked around the accesses to a table. -/
def Table.mutex : Table → Mutex
  | .activeConnections => .activeConnections
  | .sessions | .activeSessions | .sessionAccounts | .curSession => .serverState

/-- The tables that a call reads or writes. -/
def ServerOp.tables {β : Type} : ServerOp β → List Table
  | .verifySession _ => [.sessions]
  | .generateSession _ => [.sessions, .curSession]
  | .disconnectSession _ => [.activeSessions, .sessions]
  | .selectPlayer _ => [.sessions, .activeSessions]
  | .getSessionAccountName _ => [.sessionAccounts]
  | .setConnection _ _ | .findConnection _ | .connections => [.activeConnections]

namespace Server

/-- The states that do not differ in the tables of a mutex. -/
def alikeFor : Mutex → Setoid Server
  | .serverState => Setoid.ker Server.serverState
  | .activeConnections => Setoid.ker Server.activeConnections
  | .packetQueue => ⊤

/-- A call changes its own tables only. -/
theorem alikeFor_apply {β : Type} {o : ServerOp β} {m : Mutex} (s : Server) (h : ∀ T ∈ o.tables, T.mutex ≠ m) :
    alikeFor m s (Effect.apply o s).2 := by
  cases m with
  | packetQueue => trivial
  | serverState =>
    cases o with
    | verifySession | setConnection | findConnection | connections => rfl
    | generateSession => exact absurd rfl (h .sessions List.mem_cons_self)
    | disconnectSession | selectPlayer => exact absurd rfl (h .activeSessions (by simp [ServerOp.tables]))
    | getSessionAccountName => exact absurd rfl (h .sessionAccounts List.mem_cons_self)
  | activeConnections =>
    cases o with
    | setConnection => exact absurd rfl (h .activeConnections List.mem_cons_self)
    | _ => rfl

/-- What the mutexes guard. -/
def guards : Guards ServerOp Mutex Server where
  needs o := {m | ∃ T ∈ o.tables, T.mutex = m}
  alike := alikeFor
  frame s hm := alikeFor_apply s fun T hT heq => hm ⟨T, hT, heq⟩

/-- A message that is passed on is sent with the connections locked, to the address that they have for its session. -/
def ToConnection (H : Set Mutex) (s : Server) (d : Datagram) : Prop :=
  d.packetType = .SENDSERVERCOMMAND → .activeConnections ∈ H ∧
    ∃ sessionId command dest, d = serverCommand sessionId command dest ∧ s.activeConnections[sessionId]? = some dest

variable {H : Set Mutex} {s : Server}

/-- The program keeps to the mutexes, and returns with those that it started with. -/
abbrev Keeping (H : Set Mutex) (s : Server) (p : ServerProg Unit) : Prop := p.Keeping guards ToConnection H s

/-- A call with the one mutex that it needs. -/
theorem needs_subset {β : Type} {o : ServerOp β} {m : Mutex} (hm : m ∈ H) (h : ∀ T ∈ o.tables, T.mutex = m) :
    guards.needs o ⊆ H := by
  rintro m' ⟨T, hT, rfl⟩
  rwa [h T hT]

theorem keeping_return : Keeping H s (return) := rfl

theorem keeping_sendDataTo (body : Obj) {packetType : PTYPE} (dest : SockAddr) (h : packetType ≠ .SENDSERVERCOMMAND) :
    Keeping H s (sendDataTo body packetType dest) := ⟨fun _ _ heq => absurd heq h, rfl⟩

theorem keeping_sendErrorTo (errorMsg : Bytes) (dest : SockAddr) : Keeping H s (sendErrorTo errorMsg dest) :=
  keeping_sendDataTo _ dest (by decide)

/-- A message to an entry of the connections, which the thread has locked. -/
theorem keeping_sendServerCommand (hm : .activeConnections ∈ H) {sessionId : Int32} {dest : SockAddr}
    (hconn : s.activeConnections[sessionId]? = some dest) (command : Bytes) {k : ServerProg Unit}
    (hk : Keeping H s k) : Keeping H s (do sendServerCommand sessionId command dest; k) := by
  refine ⟨fun s' hs' _ => ⟨hm, sessionId, command, dest, rfl, ?_⟩, hk⟩
  have heq : s.activeConnections = s'.activeConnections := hs' _ hm
  rw [← heq, hconn]

theorem keeping_broadcastLoop (hm : .activeConnections ∈ H) (isAdmin : Bool) (broadcast user : Bytes)
    {conns : List (Int32 × SockAddr)} (h : ∀ conn ∈ conns, s.activeConnections[conn.1]? = some conn.2) :
    Keeping H s (broadcastLoop isAdmin broadcast user conns) := by
  induction conns with
  | nil => exact keeping_return
  | cons conn conns ih =>
    have hrest := ih fun c hc => h c (List.mem_cons_of_mem _ hc)
    have hsend := keeping_sendServerCommand hm (h conn List.mem_cons_self) broadcast hrest
    unfold broadcastLoop
    split
    · exact hsend
    · split
      · trivial
      · split
        · exact hrest
        · exact hsend

theorem keeping_broadcastToConnections (hH : .activeConnections ∉ H) (msg user : Bytes) :
    Keeping H s (broadcastToConnections msg user) := by
  have hm : Mutex.activeConnections ∈ insert .activeConnections H := Set.mem_insert _ _
  refine Keeping.withLock hH fun s' => ⟨needs_subset hm (by simp [ServerOp.tables, Table.mutex]), fun s'' _ => ?_⟩
  exact keeping_broadcastLoop hm _ _ _ fun conn hconn => Std.TreeMap.mem_toList_iff_getElem?_eq_some.mp hconn

theorem keeping_sendMessageToConnection (hH : .activeConnections ∉ H) (msg fromUser toUser : Bytes) :
    Keeping H s (sendMessageToConnection msg fromUser toUser) := by
  simp only [sendMessageToConnection]
  generalize (if fromUser = text "admin" then text ">>>MESSAGE Celegraph Admin: " ++ msg ++ text " <<<"
    else text ">>>MESSAGE Client " ++ fromUser ++ text ": " ++ msg ++ text " <<<") = formattedMsg
  split
  · exact keeping_return
  · split
    · exact keeping_return
    · rename_i sessionId _
      have hm : Mutex.activeConnections ∈ insert .activeConnections H := Set.mem_insert _ _
      refine Keeping.withLock hH fun s' => ⟨needs_subset hm (by simp [ServerOp.tables, Table.mutex]), fun s'' _ => ?_⟩
      rw [ServerOp.apply_findConnection]
      cases hconn : s''.activeConnections[sessionId]? with
      | none => exact keeping_return
      | some dest => exact keeping_sendServerCommand hm hconn _ keeping_return

theorem keeping_playerCommand (hH : .activeConnections ∉ H) (pCommand : Bytes) (sessionId : Int32) :
    Keeping H s (playerCommand pCommand sessionId) := by
  rcases playerCommand_cases pCommand sessionId with ⟨_, _, h⟩ | ⟨_, _, h⟩ | ⟨_, _, _, _, h⟩ | ⟨_, _, _, h⟩ <;> rw [h]
  · trivial
  · exact keeping_return
  · exact keeping_sendMessageToConnection hH _ _ _
  · exact keeping_broadcastToConnections hH _ _

/-- A handler that verifies the session locks the session tables around all its calls. -/
theorem keeping_sessionHandler {P : Type} {convert : Obj → Option P} {sessionId : P → Int32} {refuse : ServerProg Unit}
    {act : P → ServerProg Unit} {data : Obj} {client : SockAddr} (hrefuse : ∀ s, Keeping {.serverState} s refuse)
    (hact : ∀ packet s, Keeping {.serverState} s (act packet)) :
    Keeping ∅ s (sessionHandler convert sessionId refuse act data client) := by
  unfold sessionHandler
  split
  · exact keeping_sendErrorTo _ client
  · rename_i packet _
    refine Keeping.withLock (by simp) fun s' => ?_
    rw [insert_empty_eq]
    refine ⟨needs_subset rfl (by simp [ServerOp.tables, Table.mutex]), fun s'' _ => ?_⟩
    cases (Effect.apply (ServerOp.verifySession (sessionId packet)) s'').1 with
    | false => exact hrefuse _
    | true => exact hact packet _

/-- A call on the session tables. -/
theorem keeping_call {β : Type} {o : ServerOp β} (ho : ∀ T ∈ o.tables, T.mutex = .serverState)
    {k : β → ServerProg Unit} (hk : ∀ b s, Keeping {.serverState} s (k b)) :
    Keeping {.serverState} s (do k (← perform o)) :=
  ⟨needs_subset rfl ho, fun _ _ => hk _ _⟩

theorem keeping_connectHandler (u : Uninit) (data : Obj) (client : SockAddr) :
    Keeping ∅ s (connectHandler u data client) := by
  unfold connectHandler
  split
  · exact keeping_sendErrorTo _ client
  · rename_i packet _
    intro s' _
    rw [insert_empty_eq]
    refine ⟨needs_subset rfl (by simp [ServerOp.tables, Table.mutex]), fun s'' _ => ?_⟩
    cases (Effect.apply (ServerOp.generateSession packet.sessionId) s'').1 with
    | none => trivial
    | some newSession =>
      have hfree :
          (insert .activeConnections ({.serverState} \ {.serverState}) \ {.activeConnections} : Set Mutex) = ∅ := by
        simp
      refine ⟨rfl, fun s₁ _ => ⟨needs_subset (Set.mem_insert _ _) (by simp [ServerOp.tables, Table.mutex]), ?_⟩⟩
      refine fun s₂ _ => ⟨Set.mem_insert _ _, fun _ _ heq => PTYPE.noConfusion heq, ?_⟩
      rw [hfree]
      exact keeping_return

theorem keeping_dispatch (u : Uninit) (data : Obj) (client : SockAddr) (packetType : UInt8) :
    Keeping ∅ s (dispatch u data client packetType) := by
  have hinvalid : ∀ s, Keeping {.serverState} s (invalidSession client) := fun _ => keeping_sendErrorTo _ client
  have hreturn : ∀ s, Keeping {.serverState} s (return) := fun _ => keeping_return
  unfold dispatch
  split
  · exact keeping_sendErrorTo _ client
  · cases PTYPE.ofValue packetType with
    | none => exact keeping_sendErrorTo _ client
    | some t =>
      cases t with
      | CONNECT => exact keeping_connectHandler u data client
      | GENERIC | ACK => exact keeping_sessionHandler hreturn fun _ => hreturn
      | DISCONNECT =>
        exact keeping_sessionHandler hreturn fun _ s =>
          keeping_call (s := s) (by simp [ServerOp.tables, Table.mutex]) fun _ => hreturn
      | SELECTUSER =>
        exact keeping_sessionHandler hinvalid fun _ s =>
          keeping_call (s := s) (by simp [ServerOp.tables, Table.mutex]) fun _ => hreturn
      | CREATEUSER => exact keeping_sessionHandler hinvalid fun _ => hreturn
      | LISTUSERS =>
        refine keeping_sessionHandler hinvalid fun _ s => ?_
        exact keeping_call (s := s) (by simp [ServerOp.tables, Table.mutex]) fun _ _ =>
          keeping_sendDataTo _ client (by decide)
      | SENDPLAYERCOMMAND =>
        refine keeping_sessionHandler hinvalid fun _ s => ?_
        exact Keeping.bind (keeping_playerCommand (by simp) _ _) fun _ _ => keeping_sendDataTo _ client (by decide)
      | ERROR | SENDSERVERCOMMAND => exact keeping_sendErrorTo _ client
      | DELETEUSER | INITIALIZEGAME | UPDATEPC | UPDATENPC | SENDPLAYERACTION | SENDSERVERACTION | UNITY =>
        exact keeping_return

/-- **Every handler keeps to the mutexes.** -/
theorem keeping_handlePacket (mp : Msgpack) (u : Uninit) (packet : Packet) :
    Keeping ∅ s (handlePacket mp u packet) := by
  unfold handlePacket
  split
  · trivial
  · exact keeping_dispatch _ _ _ _

/-- **Every command of the shell keeps to the mutexes.** -/
theorem keeping_code (action : AdminShell.Action) : Keeping ∅ s action.code := by
  cases action with
  | broadcastToConnections msg => exact keeping_broadcastToConnections (by simp) _ _
  | sendMessageToConnection msg toUser => exact keeping_sendMessageToConnection (by simp) _ _ _
  | throw | undefined => trivial
  | shutdown | getPacketQueueSize | other => exact keeping_return

end Server

end Celegraph
