import Celegraph.ServerState
import Celegraph.Utils

/-!
# The handlers of the server

`Server.cpp` and `ServerState::PlayerCommand` as programs (`Prog`): the mutexes they lock, the calls they make on the
tables, the packets they send. What they print is left out.

- `sessionHandler`: convert the packet, lock the session tables, verify the session, and act or refuse. All handlers
  with an effect but `connectHandler` are of this form; a packet that does not convert is answered with an error.
- `connectHandler`: two critical sections, and the reply.
- `playerCommand`, with the two ways a message is passed on.
- `dispatch`: the switch over the packet type; `handlePacket`: the body of the worker loop, after it has its packet.

The packet of a handler is a local variable whose `int32_t` members are not initialised: `Uninit` is what they hold.
-/

namespace Celegraph

open CxxString Packets Utils Prog
open MessagePack (Obj)

/-- The code of a worker. -/
abbrev ServerProg (α : Type) := Prog ServerOp Mutex Datagram α

namespace Server

/-! ## Messages to clients -/

/-- The packet that carries a message to the client of a session. -/
def serverCommand (sessionId : Int32) (command : Bytes) (dest : SockAddr) : Datagram :=
  ⟨.SENDSERVERCOMMAND, Sendservercommand.pack { packetId := 0, sessionId, command }, dest⟩

def sendServerCommand (sessionId : Int32) (command : Bytes) (dest : SockAddr) : ServerProg Unit :=
  sendDataTo (serverCommand sessionId command dest).body .SENDSERVERCOMMAND dest

/-- The loop over the connections. `user` is parsed for each of them. -/
def broadcastLoop (isAdmin : Bool) (broadcast user : Bytes) : List (Int32 × SockAddr) → ServerProg Unit
  | [] => return
  | (sessionId, dest) :: rest => do
    if isAdmin then
      sendServerCommand sessionId broadcast dest
      broadcastLoop isAdmin broadcast user rest
    else match stoi user with
      | none => .throw
      | some n =>
        -- not to the originator of the message
        if sessionId = n then broadcastLoop isAdmin broadcast user rest
        else
          sendServerCommand sessionId broadcast dest
          broadcastLoop isAdmin broadcast user rest

def broadcastToConnections (msg user : Bytes) : ServerProg Unit := do
  let isAdmin := user = text "admin"
  let broadcast :=
    if isAdmin then text ">>>BROADCAST Celegraph Admin: " ++ msg ++ text " <<<"
    else text ">>>BROADCAST Client " ++ user ++ text ": " ++ msg ++ text " <<<"
  withLock .activeConnections do
    broadcastLoop isAdmin broadcast user (← perform .connections)

def sendMessageToConnection (msg fromUser toUser : Bytes) : ServerProg Unit := do
  let formattedMsg :=
    if fromUser = text "admin" then text ">>>MESSAGE Celegraph Admin: " ++ msg ++ text " <<<"
    else text ">>>MESSAGE Client " ++ fromUser ++ text ": " ++ msg ++ text " <<<"
  if toUser = text "admin" then return
  else match stoi toUser with
    | none => return
    | some sessionId => withLock .activeConnections do
      match ← perform (.findConnection sessionId) with
      | none => return
      | some dest => sendServerCommand sessionId formattedMsg dest

/-- `ServerState::PlayerCommand`. The other commands only print. -/
def playerCommand (pCommand : Bytes) (sessionId : Int32) : ServerProg Unit :=
  match tokenfy pCommand 32 with
  | none => .throw
  | some [] => .undefined
  | some (token₀ :: tokens) =>
    if token₀ = text "/s" then
      match tokens with
      -- `pCommandTokens[1]` is out of bounds
      | [] => .undefined
      | token₁ :: _ =>
        match cString pCommand (token₀.length + 1 + token₁.length + 1) with
        | none => .undefined
        | some msg => sendMessageToConnection msg (CxxString.toString sessionId) token₁
    else if token₀ = text "/h" then
      if 1 < (token₀ :: tokens).length then
        match substr pCommand 3 none with
        | none => .throw
        | some msg => broadcastToConnections msg (CxxString.toString sessionId)
      else return
    else return

/-! ## Handlers -/

/-- A handler that does nothing for a session that is not live. -/
def sessionHandler {P : Type} (convert : Obj → Option P) (sessionId : P → Int32) (refuse : ServerProg Unit)
    (act : P → ServerProg Unit) (data : Obj) (client : SockAddr) : ServerProg Unit :=
  match convert data with
  | none => sendErrorTo (text "Failed to convert/cast msgpack object") client
  | some packet => withLock .serverState do
    if ← perform (.verifySession (sessionId packet)) then act packet
    else refuse

variable (u : Uninit) (data : Obj) (client : SockAddr)

/-- The answer to a session that is not live, where there is one. -/
def invalidSession : ServerProg Unit := sendErrorTo (text "Invalid session") client

def genericHandler : ServerProg Unit :=
  sessionHandler (Generic.convert u) Generic.sessionId (return) (fun _ => return) data client

def ackHandler : ServerProg Unit :=
  sessionHandler (Ack.convert u) Ack.sessionId (return) (fun _ => return) data client

/-- The reply to a `CONNECT`. -/
def connectReply (newSession : Int32) (dest : SockAddr) : Datagram :=
  ⟨.CONNECT, Connect.pack { packetId := 0, sessionId := newSession }, dest⟩

theorem connectReply_inj {id id' : Int32} {client client' : SockAddr} :
    connectReply id client = connectReply id' client' ↔ id = id' ∧ client = client' := by
  simp [connectReply, Connect.pack, packInt32, Int32.toInt_inj]

/-- The second half of `ConnectHandler`: save the connection, and reply. -/
def saveConnection (newSession : Int32) : ServerProg Unit := do
  acquire .activeConnections
  perform (.setConnection newSession client)
  release .activeConnections
  sendDataTo (connectReply newSession client).body .CONNECT client

def connectHandler : ServerProg Unit :=
  match Connect.convert u data with
  | none => sendErrorTo (text "Failed to convert/cast msgpack object") client
  | some packet => do
    acquire .serverState
    match ← perform (.generateSession packet.sessionId) with
    | none => .undefined
    | some newSession =>
      release .serverState
      saveConnection client newSession

def disconnectHandler : ServerProg Unit :=
  sessionHandler (Disconnect.convert u) Disconnect.sessionId (return)
    (fun packet => perform (.disconnectSession packet.sessionId)) data client

/-- The user list, for testing only. -/
def testUsers : List Bytes := [text "Grapthar", text "Harry Potter", text "Willy Wonka"]

def listUsersHandler : ServerProg Unit :=
  sessionHandler (Listusers.convert u) Listusers.sessionId (invalidSession client)
    (fun packet => do
      let _ ← perform (.getSessionAccountName packet.sessionId)
      sendDataTo (Listusers.pack { packet with users := testUsers }) .LISTUSERS client) data client

def selectUserHandler : ServerProg Unit :=
  sessionHandler (Selectuser.convert u) Selectuser.sessionId (invalidSession client)
    (fun packet => perform (.selectPlayer packet.sessionId)) data client

def createUserHandler : ServerProg Unit :=
  sessionHandler (Createuser.convert u) Createuser.sessionId (invalidSession client) (fun _ => return) data client

def sendPlayerCommandHandler : ServerProg Unit :=
  sessionHandler (Sendplayercommand.convert u) Sendplayercommand.sessionId (invalidSession client)
    (fun packet => do
      playerCommand packet.command packet.sessionId
      sendDataTo (Sendplayercommand.pack { packet with command := text "Command successfully received" })
        .SENDPLAYERCOMMAND client) data client

/-- The switch over the packet type. The types whose handlers only print have no effect. -/
def dispatch (packetType : UInt8) : ServerProg Unit :=
  if packetType = 0 then sendErrorTo (text "Invalid packetType. Ignoring packet.") client
  else match PTYPE.ofValue packetType with
    | some .GENERIC => genericHandler u data client
    | some .ACK => ackHandler u data client
    | some .CONNECT => connectHandler u data client
    | some .DISCONNECT => disconnectHandler u data client
    | some .LISTUSERS => listUsersHandler u data client
    | some .SELECTUSER => selectUserHandler u data client
    | some .CREATEUSER => createUserHandler u data client
    | some .SENDPLAYERCOMMAND => sendPlayerCommandHandler u data client
    | some .DELETEUSER | some .INITIALIZEGAME | some .UPDATEPC | some .UPDATENPC | some .SENDPLAYERACTION
    | some .SENDSERVERACTION | some .UNITY => return
    | some .ERROR | some .SENDSERVERCOMMAND | none =>
      sendErrorTo (text "Received unknown packet of type " ++ [packetType]) client

/-- The body of `WorkerThread`'s loop, from `GetDataFromPacket` to the end of the switch. Nothing catches an exception
of `GetDataFromPacket`. -/
def handlePacket (mp : Msgpack) (u : Uninit) (packet : Packet) : ServerProg Unit :=
  match getDataFromPacket mp packet.data with
  | none => .throw
  | some (packetType, data) => dispatch u data packet.source packetType

end Server

end Celegraph
