import Celegraph.Lib.Pool
import Celegraph.Server.Oversize
import Celegraph.Wire

/-!
# What the handlers send, and where

- `Outgoing A T`: a packet that is no message is one of the packets of `Wire.lean` and fits; a message goes to an
  address of `A`, and its text is one of `T`.
- `sending_handlePacket`, `sending_code`: this is all that a handler or a command sends, if the connections lead to
  addresses of `A`, whatever the other threads do that keep it so.
-/

namespace Celegraph.Server

open CxxString Packets Utils Prog
open MessagePack (Obj)

/-- The packet is a `CONNECT` that converts, so that its source becomes a connection. -/
def Registers (mp : Msgpack) (u : Uninit) (packet : Packet) : Prop :=
  ∃ data connect, getDataFromPacket mp packet.data = some (PTYPE.CONNECT.value, data) ∧
    Connect.convert u data = some connect

structure Outgoing (A : Set SockAddr) (T : Bytes → Prop) (d : Datagram) : Prop where
  answer : d.packetType ≠ .SENDSERVERCOMMAND → ∃ p : AnyPacket, d = p.datagram d.dest ∧ p.pack.Valid ∧ Fits p.pack
  message : d.packetType = .SENDSERVERCOMMAND → d.dest ∈ A ∧
    ∃ sessionId command, T command ∧ d = serverCommand sessionId command d.dest

/-- Nothing is remembered of what was sent before. -/
instance : Preorder Unit := PUnit.instLinearOrder.toPreorder

/-- The connections lead to `A`, and what is sent is as it should be. -/
def outgoing (A : Set SockAddr) (T : Bytes → Prop) : Spec Unit Server Datagram where
  inv _ s := ∀ (sessionId : Int32) (dest : SockAddr), s.activeConnections[sessionId]? = some dest → dest ∈ A
  emits _ d := Outgoing A T d
  owes _ _ := False
  emits_mono _ h := h

variable {A : Set SockAddr} {T : Bytes → Prop}

abbrev Sending (A : Set SockAddr) (T : Bytes → Prop) (p : ServerProg Unit) : Prop :=
  p.Safe (outgoing A T) (fun _ _ => True) ()

theorem sending_return : Sending A T (return) := trivial

/-- A packet that is no message, and fits. -/
theorem sending_packet {p : AnyPacket} (ht : p.packetType ≠ .SENDSERVERCOMMAND) (hvalid : p.pack.Valid)
    (hfit : Fits p.pack) (dest : SockAddr) : Sending A T (sendDataTo p.pack p.packetType dest) :=
  ⟨⟨fun _ => ⟨p, rfl, hvalid, hfit⟩, fun h => absurd h ht⟩, trivial⟩

theorem sending_sendErrorTo {errorMsg : Bytes} (hlen : errorMsg.length ≤ 40) (dest : SockAddr) :
    Sending A T (sendErrorTo errorMsg dest) := by
  have hfit : Fits (AnyPacket.error ⟨0, 0, errorMsg⟩).pack := by
    refine (fits_textBody_iff 0 0 errorMsg).mpr ?_
    have hzero : intSize 0 = 1 := rfl
    omega
  exact sending_packet (p := .error ⟨0, 0, errorMsg⟩) (fun h => PTYPE.noConfusion h) (valid_of_fits hfit) hfit dest

/-- A message to a connection. -/
theorem sending_sendServerCommand {command : Bytes} {dest : SockAddr} (hT : T command) (hdest : dest ∈ A)
    (sessionId : Int32) {k : ServerProg Unit} (hk : Sending A T k) :
    Sending A T (do sendServerCommand sessionId command dest; k) :=
  ⟨⟨fun h => absurd rfl h, fun _ => ⟨hdest, sessionId, command, hT, rfl⟩⟩, hk⟩

theorem sending_broadcastLoop (isAdmin : Bool) {broadcast : Bytes} (user : Bytes) (hT : T broadcast)
    {conns : List (Int32 × SockAddr)} (h : ∀ conn ∈ conns, conn.2 ∈ A) :
    Sending A T (broadcastLoop isAdmin broadcast user conns) := by
  induction conns with
  | nil => exact sending_return
  | cons conn conns ih =>
    have hrest := ih fun c hc => h c (List.mem_cons_of_mem _ hc)
    have hsend := sending_sendServerCommand hT (h conn List.mem_cons_self) conn.1 hrest
    unfold broadcastLoop
    split
    · exact hsend
    · split
      · trivial
      · split
        · exact hrest
        · exact hsend

theorem sending_broadcastToConnections {msg user : Bytes} (hT : T (broadcastText user msg)) :
    Sending A T (broadcastToConnections msg user) := by
  refine Safe.withLock (Safe.call_of fun _ _ s hs => ⟨hs, ?_⟩)
  refine sending_broadcastLoop _ user hT fun conn hconn => ?_
  exact hs conn.1 conn.2 (Std.TreeMap.mem_toList_iff_getElem?_eq_some.mp hconn)

theorem sending_sendMessageToConnection {msg fromUser : Bytes} (toUser : Bytes) (hT : T (messageText fromUser msg)) :
    Sending A T (sendMessageToConnection msg fromUser toUser) := by
  by_cases hadmin : toUser = text "admin"
  · simp only [sendMessageToConnection, if_pos hadmin]
    exact sending_return
  · simp only [sendMessageToConnection, if_neg hadmin]
    cases stoi toUser with
    | none => exact sending_return
    | some sessionId =>
      refine Safe.withLock (Safe.call_of fun _ _ s hs => ⟨hs, ?_⟩)
      rw [ServerOp.apply_findConnection]
      cases hconn : s.activeConnections[sessionId]? with
      | none => exact sending_return
      | some dest => exact sending_sendServerCommand hT (hs _ _ hconn) sessionId sending_return

theorem sending_playerCommand {pCommand : Bytes} {sessionId : Int32}
    (hT : ∀ relay, relayOf pCommand = some relay → T (relayText sessionId relay)) :
    Sending A T (playerCommand pCommand sessionId) := by
  rcases playerCommand_cases pCommand sessionId with ⟨_, _, h⟩ | ⟨_, _, h⟩ | ⟨toUser, msg, _, hr, h⟩ |
    ⟨msg, _, hr, h⟩ <;> rw [h]
  · trivial
  · exact sending_return
  · refine sending_sendMessageToConnection toUser ?_
    rw [messageText_toString sessionId toUser]
    exact hT _ hr
  · refine sending_broadcastToConnections ?_
    rw [broadcastText_toString]
    exact hT _ hr

/-! ## Handlers -/

section Handlers

variable {data : Obj} {client : SockAddr}

theorem sending_sessionHandler {P : Type} {convert : Obj → Option P} {sessionId : P → Int32} {refuse : ServerProg Unit}
    {act : P → ServerProg Unit} (hrefuse : Sending A T refuse)
    (hact : ∀ packet, convert data = some packet → Sending A T (act packet)) :
    Sending A T (sessionHandler convert sessionId refuse act data client) := by
  unfold sessionHandler
  split
  · exact sending_sendErrorTo (by decide) client
  · rename_i packet hconvert
    refine Safe.withLock (Safe.call_of fun _ _ s hs => ⟨hs, ?_⟩)
    change Sending A T (if s.serverState.verifySession (sessionId packet) then act packet else refuse)
    split
    · exact hact packet hconvert
    · exact hrefuse

/-- A call that leaves the connections alone. -/
theorem sending_call {β : Type} {o : ServerOp β}
    (ho : ∀ s : Server, (Effect.apply o s).2.activeConnections = s.activeConnections) {k : β → ServerProg Unit}
    (hk : ∀ b, Sending A T (k b)) : Sending A T (do k (← perform o)) :=
  Safe.call_of fun _ _ s hs => ⟨fun sessionId dest h => hs sessionId dest (ho s ▸ h), hk _⟩

/-- The client becomes a connection, and is told so. -/
theorem sending_saveConnection (hA : client ∈ A) (newSession : Int32) :
    Sending A T (saveConnection client newSession) := by
  refine fun _ _ s hs => ⟨(), le_rfl, fun sessionId dest h => ?_, ?_, fun _ h => h.elim⟩
  · rw [ServerOp.apply_setConnection, Std.TreeMap.getElem?_insert] at h
    split at h
    · cases h
      exact hA
    · exact hs sessionId dest h
  · exact sending_packet (p := .connect ⟨0, newSession⟩) (fun h => PTYPE.noConfusion h) (Connect.valid_pack _)
      (fits_connect _) client

theorem sending_connectHandler {u : Uninit} (hA : ∀ packet, Connect.convert u data = some packet → client ∈ A) :
    Sending A T (connectHandler u data client) := by
  unfold connectHandler
  split
  · exact sending_sendErrorTo (by decide) client
  · rename_i packet hconvert
    refine sending_call (o := .generateSession packet.sessionId) (fun _ => rfl) fun newSession => ?_
    cases newSession with
    | none => trivial
    | some newSession => exact sending_saveConnection (hA packet hconvert) newSession

theorem sending_commandReply (packet : Sendplayercommand) :
    Sending A T (sendDataTo (commandReply client packet).body .SENDPLAYERCOMMAND client) := by
  have hp := intSize_bounds packet.packetId
  have hs := intSize_bounds packet.sessionId
  have hfit : Fits (commandReply client packet).body := by
    refine (fits_textBody_iff packet.packetId packet.sessionId _).mpr ?_
    change 29 + _ + _ ≤ _
    omega
  exact sending_packet (p := .sendplayercommand { packet with command := text "Command successfully received" })
    (fun h => PTYPE.noConfusion h) (valid_of_fits hfit) hfit client

theorem sending_listUsersReply (packet : Listusers) :
    Sending A T (sendDataTo (listUsersReply client packet).body .LISTUSERS client) := by
  have husers : (MessagePack.encodeList [.array (testUsers.map .str)]).length = 35 := by decide
  have hfit : Fits (listUsersReply client packet).body :=
    fits_members packet.packetId packet.sessionId (by simp) (husers.trans_le (by decide))
  have hvalid : (listUsersReply client packet).body.Valid :=
    Listusers.valid_pack (by decide : testUsers.length < 2 ^ 32) (by decide : ∀ s ∈ testUsers, _)
  exact sending_packet (p := .listusers { packet with users := testUsers }) (fun h => PTYPE.noConfusion h) hvalid hfit
    client

/-- **What a handler sends**: its client becomes a connection only if it is in `A`, and what it passes on is in `T`. -/
theorem sending_dispatch {u : Uninit} {packetType : UInt8}
    (hA : PTYPE.ofValue packetType = some .CONNECT → ∀ packet, Connect.convert u data = some packet → client ∈ A)
    (hT : PTYPE.ofValue packetType = some .SENDPLAYERCOMMAND → ∀ packet,
      Sendplayercommand.convert u data = some packet → ∀ relay, relayOf packet.command = some relay →
        T (relayText packet.sessionId relay)) :
    Sending A T (dispatch u data client packetType) := by
  have hinvalid : Sending A T (invalidSession client) := sending_sendErrorTo (by decide) client
  unfold dispatch
  split
  · exact sending_sendErrorTo (by decide) client
  · cases ht : PTYPE.ofValue packetType with
    | none => exact sending_sendErrorTo (by simp [text]) client
    | some t =>
      cases t with
      | CONNECT => exact sending_connectHandler (hA ht)
      | GENERIC | ACK => exact sending_sessionHandler sending_return fun _ _ => sending_return
      | DISCONNECT =>
        exact sending_sessionHandler sending_return fun _ _ => sending_call (fun _ => rfl) fun _ => sending_return
      | SELECTUSER =>
        exact sending_sessionHandler hinvalid fun _ _ => sending_call (fun _ => rfl) fun _ => sending_return
      | CREATEUSER => exact sending_sessionHandler hinvalid fun _ _ => sending_return
      | LISTUSERS =>
        exact sending_sessionHandler hinvalid fun packet _ =>
          sending_call (fun _ => rfl) fun _ => sending_listUsersReply packet
      | SENDPLAYERCOMMAND =>
        exact sending_sessionHandler hinvalid fun packet hconvert =>
          (sending_playerCommand (hT ht packet hconvert)).bind fun _ _ _ => sending_commandReply packet
      | ERROR | SENDSERVERCOMMAND => exact sending_sendErrorTo (by simp [text]) client
      | DELETEUSER | INITIALIZEGAME | UPDATEPC | UPDATENPC | SENDPLAYERACTION | SENDSERVERACTION | UNITY =>
        exact sending_return

/-- **What the handling of a packet sends.** -/
theorem sending_handlePacket {mp : Msgpack} {u : Uninit} {packet : Packet}
    (hA : Registers mp u packet → packet.source ∈ A)
    (hT : ∀ command, CommandOf mp u packet command → ∀ relay, relayOf command.command = some relay →
      T (relayText command.sessionId relay)) : Sending A T (handlePacket mp u packet) := by
  unfold handlePacket
  split
  · trivial
  · rename_i packetType data hget
    refine sending_dispatch (fun ht connect hconvert => ?_) fun ht command hconvert => ?_
    · rw [← PTYPE.value_of_ofValue ht] at hget
      exact hA ⟨data, connect, hget, hconvert⟩
    · rw [← PTYPE.value_of_ofValue ht] at hget
      exact hT command ⟨data, hget, hconvert⟩

end Handlers

/-- **What a command of the admin sends.** -/
theorem sending_code {action : AdminShell.Action}
    (hT : ∀ msg, action = .broadcastToConnections msg ∨ (∃ toUser, action = .sendMessageToConnection msg toUser) →
      T (broadcastText (text "admin") msg) ∧ T (messageText (text "admin") msg)) : Sending A T action.code := by
  cases action with
  | broadcastToConnections msg => exact sending_broadcastToConnections (hT msg (.inl rfl)).1
  | sendMessageToConnection msg toUser =>
    exact sending_sendMessageToConnection toUser (hT msg (.inr ⟨toUser, rfl⟩)).2
  | throw | undefined => trivial
  | shutdown | getPacketQueueSize | other => exact sending_return

/-! ## The lengths of texts -/

theorem length_msg_le {command : Bytes} {relay : Relay} (h : relayOf command = some relay) :
    relay.msg.length ≤ command.length := by
  unfold relayOf at h
  split at h
  · rename_i token₀ token₁ tokens _
    split at h
    · split at h
      · cases h
      · cases h
        have htake := (List.takeWhile_sublist (p := (· ≠ 0))
          (l := command.drop (token₀.length + 1 + token₁.length + 1))).length_le
        have hdrop := List.length_drop (i := token₀.length + 1 + token₁.length + 1) (l := command)
        simp only [Relay.msg]
        omega
    · split at h
      · cases h
        simp [Relay.msg]
      · cases h
  · cases h

/-- A text that is passed on is little longer than the command that asks for it. -/
theorem length_relayText_le {command : Bytes} {relay : Relay} (h : relayOf command = some relay) (sessionId : Int32) :
    (relayText sessionId relay).length ≤ command.length + 37 := by
  have hmsg := length_msg_le h
  have hnumber := length_toString_le sessionId
  rw [length_relayText]
  cases relay <;> simp only [Relay.decoration] at * <;> omega

theorem length_cString_le {s msg : Bytes} {off : Nat} (h : cString s off = some msg) : msg.length ≤ s.length := by
  unfold cString at h
  split at h
  · cases h
    have htake := (List.takeWhile_sublist (p := (· ≠ 0)) (l := s.drop off)).length_le
    have hdrop := List.length_drop (i := off) (l := s)
    omega
  · cases h

end Celegraph.Server
