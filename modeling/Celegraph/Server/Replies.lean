import Celegraph.Codec
import Celegraph.Server.Alone

/-!
# What a packet is answered with

- `passedOn`, `reply`: the messages that the handling of a packet passes on, and the one packet at most that is sent to
  its source.
- `sends_dispatch`: a handler that runs alone sends these, in this order.
-/

namespace Celegraph.Server

open CxxString Packets Utils Prog
open MessagePack (Obj)

variable (s : Server) (u : Uninit) (data : Obj) (client : SockAddr)

/-- The error for a packet that does not convert. -/
def conversionError : Datagram := errorTo (text "Failed to convert/cast msgpack object") client

/-- The error for a session that is not live. -/
def invalidSessionError : Datagram := errorTo (text "Invalid session") client

/-- The reply to a `LISTUSERS`. -/
def listUsersReply (packet : Listusers) : Datagram :=
  ⟨.LISTUSERS, Listusers.pack { packet with users := testUsers }, client⟩

/-- The reply to a `SENDPLAYERCOMMAND`. -/
def commandReply (packet : Sendplayercommand) : Datagram :=
  ⟨.SENDPLAYERCOMMAND, Sendplayercommand.pack { packet with command := text "Command successfully received" }, client⟩

/-- The reply of a handler that verifies the session. -/
def sessionReply {P : Type} (convert : Obj → Option P) (sessionId : P → Int32) (refuse : Option Datagram)
    (act : P → Option Datagram) : Option Datagram :=
  match convert data with
  | none => some (conversionError client)
  | some packet => if sessionId packet ∈ s.serverState.sessions then act packet else refuse

/-- The reply of `ConnectHandler`. -/
def connectAnswer : Option Datagram :=
  match Connect.convert u data with
  | none => some (conversionError client)
  | some packet => (s.serverState.generateSession packet.sessionId).1.map fun newSession =>
      connectReply newSession client

/-- The packet that is sent to the source of a packet. -/
def reply (packetType : UInt8) : Option Datagram :=
  if packetType = 0 then some (errorTo (text "Invalid packetType. Ignoring packet.") client)
  else match PTYPE.ofValue packetType with
    | some .GENERIC => sessionReply s data client (Generic.convert u) Generic.sessionId none fun _ => none
    | some .ACK => sessionReply s data client (Ack.convert u) Ack.sessionId none fun _ => none
    | some .CONNECT => connectAnswer s u data client
    | some .DISCONNECT => sessionReply s data client (Disconnect.convert u) Disconnect.sessionId none fun _ => none
    | some .LISTUSERS =>
      sessionReply s data client (Listusers.convert u) Listusers.sessionId (some (invalidSessionError client))
        fun packet => some (listUsersReply client packet)
    | some .SELECTUSER =>
      sessionReply s data client (Selectuser.convert u) Selectuser.sessionId (some (invalidSessionError client))
        fun _ => none
    | some .CREATEUSER =>
      sessionReply s data client (Createuser.convert u) Createuser.sessionId (some (invalidSessionError client))
        fun _ => none
    | some .SENDPLAYERCOMMAND =>
      sessionReply s data client (Sendplayercommand.convert u) Sendplayercommand.sessionId
        (some (invalidSessionError client)) fun packet =>
          if SayComplete packet.command then some (commandReply client packet) else none
    | some .DELETEUSER | some .INITIALIZEGAME | some .UPDATEPC | some .UPDATENPC | some .SENDPLAYERACTION
    | some .SENDSERVERACTION | some .UNITY => none
    | some .ERROR | some .SENDSERVERCOMMAND | none =>
      some (errorTo (text "Received unknown packet of type " ++ [packetType]) client)

/-- The player command of a packet, if its session is live. -/
def liveCommand (packetType : UInt8) : Option Sendplayercommand :=
  if PTYPE.ofValue packetType = some .SENDPLAYERCOMMAND then
    (Sendplayercommand.convert u data).filter fun packet => packet.sessionId ∈ s.serverState.sessions
  else none

/-- The packets that are passed on. -/
def passedOn (packetType : UInt8) : List Datagram :=
  match liveCommand s u data packetType with
  | none => []
  | some packet => relays s packet.sessionId packet.command

/-! ## Sending them -/

section Sends

variable {s u data client} {held : List Mutex}

@[simp] theorem sends_return : (return : ServerProg Unit).sends s held = [] := rfl

@[simp] theorem sends_sendDataTo (body : Obj) (packetType : PTYPE) (dest : SockAddr) :
    (sendDataTo body packetType dest : ServerProg Unit).sends s held = [⟨packetType, body, dest⟩] := rfl

@[simp] theorem sends_sendErrorTo (errorMsg : Bytes) (dest : SockAddr) :
    (sendErrorTo errorMsg dest : ServerProg Unit).sends s held = [errorTo errorMsg dest] := rfl

/-- A handler that verifies the session sends what it does for a live session, or refuses. -/
theorem sends_sessionHandler {P : Type} {convert : Obj → Option P} {sessionId : P → Int32} {refuse : ServerProg Unit}
    {act : P → ServerProg Unit} {refuse' : Option Datagram} {act' : P → Option Datagram}
    (hrefuse : refuse.sends s [.serverState] = refuse'.toList)
    (hact : ∀ packet, (act packet).sends s [.serverState] = (act' packet).toList) :
    (sessionHandler convert sessionId refuse act data client).sends s [] =
      (sessionReply s data client convert sessionId refuse' act').toList := by
  unfold sessionHandler sessionReply
  cases convert data with
  | none => rfl
  | some packet =>
    simp only
    rw [sends_withLock (by simp)]
    simp only [perform_bind, sends, ServerOp.apply_verifySession, ServerState.verifySession, decide_eq_true_eq]
    split
    · exact hact packet
    · exact hrefuse

theorem sends_connectHandler :
    (connectHandler u data client).sends s [] = (connectAnswer s u data client).toList := by
  unfold connectHandler connectAnswer
  cases Connect.convert u data with
  | none => rfl
  | some packet =>
    simp only [acquire_bind, perform_bind, sends, ServerOp.apply_generateSession]
    rcases s.serverState.generateSession_cases packet.sessionId with ⟨_, hg⟩ | ⟨_, _, hg⟩ | ⟨_, _, hg⟩ <;> rw [hg] <;>
      rfl

/-- A player command is answered after it has been passed on. -/
theorem sends_sendPlayerCommandHandler : (sendPlayerCommandHandler u data client).sends s [] =
    passedOn s u data PTYPE.SENDPLAYERCOMMAND.value ++
      (reply s u data client PTYPE.SENDPLAYERCOMMAND.value).toList := by
  unfold sendPlayerCommandHandler sessionHandler passedOn liveCommand
  cases hc : Sendplayercommand.convert u data with
  | none =>
    simp [reply, sessionReply, hc]
    rfl
  | some packet =>
    simp only
    rw [sends_withLock (by simp)]
    simp only [perform_bind, sends, ServerOp.apply_verifySession, ServerState.verifySession, decide_eq_true_eq]
    by_cases hlive : packet.sessionId ∈ s.serverState.sessions
    · have hrun := run_playerCommand s (by decide : Mutex.activeConnections ∉ [Mutex.serverState]) packet.command
        packet.sessionId
      rw [if_pos hlive, sends_bind, sends_playerCommand s (by decide), hrun]
      by_cases hsay : SayComplete packet.command
      · simp [reply, sessionReply, hc, hlive, hsay, commandReply, Option.filter]
      · simp [reply, sessionReply, hc, hlive, hsay, Option.filter]
    · rw [if_neg hlive]
      simp [reply, sessionReply, hc, hlive, Option.filter]
      rfl

/-- **What the handling of a packet sends**: the messages passed on, and the reply. -/
theorem sends_dispatch (s : Server) (u : Uninit) (data : Obj) (client : SockAddr) (packetType : UInt8) :
    (dispatch u data client packetType).sends s [] =
      passedOn s u data packetType ++ (reply s u data client packetType).toList := by
  unfold dispatch reply
  split
  · rename_i h0
    subst h0
    rfl
  · have hpassed (h : PTYPE.ofValue packetType ≠ some .SENDPLAYERCOMMAND) : passedOn s u data packetType = [] := by
      simp [passedOn, liveCommand, h]
    cases ht : PTYPE.ofValue packetType with
    | none => rw [hpassed (by simp [ht])]; rfl
    | some t =>
      cases t with
      | SENDPLAYERCOMMAND =>
        have hv := PTYPE.value_of_ofValue ht
        subst hv
        exact sends_sendPlayerCommandHandler
      | CONNECT =>
        rw [hpassed (by simp [ht])]
        exact sends_connectHandler
      | GENERIC | ACK | DISCONNECT | CREATEUSER | SELECTUSER | LISTUSERS =>
        rw [hpassed (by simp [ht])]
        exact sends_sessionHandler rfl fun _ => rfl
      | ERROR | SENDSERVERCOMMAND | DELETEUSER | INITIALIZEGAME | UPDATEPC | UPDATENPC | SENDPLAYERACTION
      | SENDSERVERACTION | UNITY =>
        rw [hpassed (by simp [ht])]
        rfl

end Sends

/-! ## What the packets are -/

section Cases

variable {s u data client} {packetType : UInt8} {d : Datagram}

/-- The reply of a handler that verifies the session: an error, a refusal, or the answer to a live session. -/
theorem sessionReply_cases {P : Type} {convert : Obj → Option P} {sessionId : P → Int32} {refuse : Option Datagram}
    {act : P → Option Datagram} (h : sessionReply s data client convert sessionId refuse act = some d) :
    d = conversionError client ∨ refuse = some d ∨
      ∃ packet, convert data = some packet ∧ sessionId packet ∈ s.serverState.sessions ∧ act packet = some d := by
  unfold sessionReply at h
  split at h
  · exact .inl (Option.some.inj h).symm
  · rename_i packet hc
    split at h
    · rename_i hlive
      exact .inr (.inr ⟨packet, hc, hlive, h⟩)
    · exact .inr (.inl h)

/-- An error to the source, with a short text. -/
def ShortError (client : SockAddr) (d : Datagram) : Prop :=
  ∃ errorMsg, errorMsg.length ≤ 40 ∧ d = errorTo errorMsg client

theorem shortError_conversion : ShortError client (conversionError client) := ⟨_, by decide, rfl⟩

/-- Everything a reply can be. -/
theorem reply_cases (h : reply s u data client packetType = some d) :
    ShortError client d ∨
    (packetType = PTYPE.CONNECT.value ∧ ∃ id, d = connectReply id client) ∨
    (packetType = PTYPE.LISTUSERS.value ∧ ∃ packet, Listusers.convert u data = some packet ∧
      packet.sessionId ∈ s.serverState.sessions ∧ d = listUsersReply client packet) ∨
    (packetType = PTYPE.SENDPLAYERCOMMAND.value ∧ ∃ packet, Sendplayercommand.convert u data = some packet ∧
      packet.sessionId ∈ s.serverState.sessions ∧ SayComplete packet.command ∧ d = commandReply client packet) := by
  have hinvalid {e : Datagram} (he : some (invalidSessionError client) = some e) : ShortError client e := by
    cases he
    exact ⟨_, by decide, rfl⟩
  unfold reply at h
  split at h
  · cases h
    exact .inl ⟨_, by decide, rfl⟩
  · split at h
    case h_1 | h_2 | h_4 =>
      rcases sessionReply_cases h with rfl | h | ⟨_, _, _, h⟩
      · exact .inl shortError_conversion
      all_goals cases h
    case h_3 ht =>
      unfold connectAnswer at h
      split at h
      · cases h
        exact .inl shortError_conversion
      · obtain ⟨id, _, rfl⟩ := Option.map_eq_some_iff.mp h
        exact .inr (.inl ⟨(PTYPE.value_of_ofValue ht).symm, id, rfl⟩)
    case h_5 ht =>
      rcases sessionReply_cases h with rfl | h | ⟨packet, hc, hlive, h⟩
      · exact .inl shortError_conversion
      · exact .inl (hinvalid h)
      · cases h
        exact .inr (.inr (.inl ⟨(PTYPE.value_of_ofValue ht).symm, packet, hc, hlive, rfl⟩))
    case h_6 | h_7 =>
      rcases sessionReply_cases h with rfl | h | ⟨_, _, _, h⟩
      · exact .inl shortError_conversion
      · exact .inl (hinvalid h)
      · cases h
    case h_8 ht =>
      rcases sessionReply_cases h with rfl | h | ⟨packet, hc, hlive, h⟩
      · exact .inl shortError_conversion
      · exact .inl (hinvalid h)
      · split at h
        · rename_i hsay
          cases h
          exact .inr (.inr (.inr ⟨(PTYPE.value_of_ofValue ht).symm, packet, hc, hlive, hsay, rfl⟩))
        · cases h
    case h_9 | h_10 | h_11 | h_12 | h_13 | h_14 | h_15 => cases h
    case h_16 | h_17 | h_18 =>
      cases h
      exact .inl ⟨_, by simp [text], rfl⟩

/-- A reply goes to the source of the packet, and is no message of another client. -/
theorem reply_dest (h : reply s u data client packetType = some d) :
    d.dest = client ∧ d.packetType ≠ .SENDSERVERCOMMAND := by
  rcases reply_cases h with ⟨_, _, rfl⟩ | ⟨_, _, rfl⟩ | ⟨_, _, _, _, rfl⟩ | ⟨_, _, _, _, _, rfl⟩ <;>
    exact ⟨rfl, fun h => PTYPE.noConfusion h⟩

/-- A reply fits. -/
theorem reply_fits (h : reply s u data client packetType = some d) : Fits d.body ∧ d.body.Valid := by
  have htext {packetId sessionId : Int32} {t : Bytes} (ht : t.length ≤ 40) :
      Fits (textBody packetId sessionId t) ∧ (textBody packetId sessionId t).Valid := by
    have hp := intSize_bounds packetId
    have hs := intSize_bounds sessionId
    have hfit : Fits (textBody packetId sessionId t) := (fits_textBody_iff _ _ _).mpr (by omega)
    exact ⟨hfit, valid_of_fits hfit⟩
  rcases reply_cases h with ⟨errorMsg, hlen, rfl⟩ | ⟨_, id, rfl⟩ | ⟨_, packet, _, _, rfl⟩ | ⟨_, packet, _, _, _, rfl⟩
  · exact htext hlen
  · exact ⟨fits_connect _, Connect.valid_pack _⟩
  · have husers : (MessagePack.encodeList [.array (testUsers.map .str)]).length = 35 := by decide
    have hfit : Fits (listUsersReply client packet).body :=
      fits_members packet.packetId packet.sessionId (by simp) (husers.trans_le (by decide))
    exact ⟨hfit, Listusers.valid_pack (by decide : testUsers.length < 2 ^ 32) (by decide : ∀ s ∈ testUsers, _)⟩
  · exact htext (show (text "Command successfully received").length ≤ 40 by decide)

/-- Everything that is passed on. -/
theorem mem_passedOn (h : d ∈ passedOn s u data packetType) : ∃ packet relay conn,
    liveCommand s u data packetType = some packet ∧ relayOf packet.command = some relay ∧
      conn ∈ addressees s packet.sessionId relay ∧
      d = serverCommand conn.1 (relayText packet.sessionId relay) conn.2 := by
  unfold passedOn at h
  split at h
  · cases h
  · rename_i packet hp
    unfold relays at h
    split at h
    · cases h
    · rename_i relay hr
      obtain ⟨conn, hconn, rfl⟩ := List.mem_map.mp h
      exact ⟨packet, relay, conn, hp, hr, hconn, rfl⟩

theorem packetType_of_mem_passedOn (h : d ∈ passedOn s u data packetType) : d.packetType = .SENDSERVERCOMMAND := by
  obtain ⟨_, _, _, _, _, _, rfl⟩ := mem_passedOn h
  rfl

end Cases

/-! ## Among other threads -/

section MaySend

variable {u data client} {packetType : UInt8} {ds : List Datagram}

/-- At most one packet, to the source, that is no message of another client. -/
def AtMostReply (client : SockAddr) (ds : List Datagram) : Prop :=
  ds = [] ∨ ∃ d, ds = [d] ∧ d.dest = client ∧ d.packetType ≠ .SENDSERVERCOMMAND

/-- Messages passed on for the command of `data`. -/
def PassedOn (u : Uninit) (data : Obj) (ds : List Datagram) : Prop :=
  ds = [] ∨ ∃ packet relay conns, Sendplayercommand.convert u data = some packet ∧
    relayOf packet.command = some relay ∧ (conns.map Prod.fst).Nodup ∧
    ds = sentTo (relayText packet.sessionId relay) conns

theorem atMostReply_sendDataTo {body : Obj} {t : PTYPE} (ht : t ≠ .SENDSERVERCOMMAND)
    (h : (sendDataTo body t client : ServerProg Unit).MaySend ds) : AtMostReply client ds := by
  rcases h with h | ⟨ds', rfl, hnil⟩
  · exact .inl h
  · have hnil : ds' = [] := hnil
    subst hnil
    exact .inr ⟨_, rfl, rfl, ht⟩

/-- After a call of a library, or with a mutex, the handler goes on. -/
theorem atMostReply_of_next {ρ : Type} {k : ρ → ServerProg Unit} (h : ds = [] ∨ ∃ r, (k r).MaySend ds)
    (hk : ∀ r, (k r).MaySend ds → AtMostReply client ds) : AtMostReply client ds := by
  rcases h with h | ⟨r, h⟩
  · exact .inl h
  · exact hk r h

/-- A handler that verifies the session sends what its parts can send. -/
theorem maySend_sessionHandler {P : Type} {convert : Obj → Option P} {sessionId : P → Int32} {refuse : ServerProg Unit}
    {act : P → ServerProg Unit} (h : (sessionHandler convert sessionId refuse act data client).MaySend ds) :
    AtMostReply client ds ∨ ∃ packet, convert data = some packet ∧ ((act packet).MaySend ds ∨ refuse.MaySend ds) := by
  unfold sessionHandler at h
  split at h
  · exact .inl (atMostReply_sendDataTo (by decide) h)
  · rename_i packet hc
    rcases MaySend.of_withLock h with h | ⟨s, h⟩
    · exact .inl (.inl h)
    · refine .inr ⟨packet, hc, ?_⟩
      change (if s.serverState.verifySession (sessionId packet) then act packet else refuse).MaySend ds at h
      split at h
      · exact .inl h
      · exact .inr h

/-- A handler that passes nothing on. -/
theorem atMostReply_sessionHandler {P : Type} {convert : Obj → Option P} {sessionId : P → Int32}
    {refuse : ServerProg Unit} {act : P → ServerProg Unit} (hrefuse : refuse.MaySend ds → AtMostReply client ds)
    (hact : ∀ packet, (act packet).MaySend ds → AtMostReply client ds)
    (h : (sessionHandler convert sessionId refuse act data client).MaySend ds) : AtMostReply client ds := by
  rcases maySend_sessionHandler h with h | ⟨packet, _, h | h⟩
  · exact h
  · exact hact packet h
  · exact hrefuse h

theorem atMostReply_connectHandler (h : (connectHandler u data client).MaySend ds) : AtMostReply client ds := by
  unfold connectHandler at h
  split at h
  · exact atMostReply_sendDataTo (by decide) h
  · rename_i packet _
    rcases h with h | ⟨s, h⟩
    · exact .inl h
    · simp only [Prog.bind, ServerOp.apply_generateSession] at h
      cases hg : (s.serverState.generateSession packet.sessionId).1 with
      | none => exact .inl (by rwa [hg] at h)
      | some newSession =>
        rw [hg] at h
        exact atMostReply_of_next h fun _ => atMostReply_sendDataTo (by decide)

/-- A player command is answered after everything that it passes on. -/
theorem maySend_sendPlayerCommandHandler (h : (sendPlayerCommandHandler u data client).MaySend ds) :
    ∃ ds₁ ds₂, ds = ds₁ ++ ds₂ ∧ PassedOn u data ds₁ ∧ AtMostReply client ds₂ := by
  rcases maySend_sessionHandler h with h | ⟨packet, hc, h | h⟩
  · exact ⟨[], ds, rfl, .inl rfl, h⟩
  · obtain ⟨ds₁, ds₂, rfl, h₁, h₂⟩ := MaySend.of_bind h
    refine ⟨ds₁, ds₂, rfl, ?_, ?_⟩
    · rcases maySend_playerCommand h₁ with h₁ | ⟨relay, conns, hr, hnodup, h₁⟩
      · exact .inl h₁
      · exact .inr ⟨packet, relay, conns, hc, hr, hnodup, h₁⟩
    · exact atMostReply_of_next h₂ fun _ => atMostReply_sendDataTo (by decide)
  · exact ⟨[], ds, rfl, .inl rfl, atMostReply_sendDataTo (by decide) h⟩

/-- **What the handling of a packet can send**, among other threads: the messages that a player command passes on, and
then a reply at most. -/
theorem maySend_dispatch (h : (dispatch u data client packetType).MaySend ds) :
    ∃ ds₁ ds₂, ds = ds₁ ++ ds₂ ∧ AtMostReply client ds₂ ∧
      (ds₁ = [] ∨ PTYPE.ofValue packetType = some .SENDPLAYERCOMMAND ∧ PassedOn u data ds₁) := by
  have hnothing (h : AtMostReply client ds) : ∃ ds₁ ds₂, ds = ds₁ ++ ds₂ ∧ AtMostReply client ds₂ ∧
      (ds₁ = [] ∨ PTYPE.ofValue packetType = some .SENDPLAYERCOMMAND ∧ PassedOn u data ds₁) :=
    ⟨[], ds, rfl, h, .inl rfl⟩
  have hreturn (h : (return : ServerProg Unit).MaySend ds) : AtMostReply client ds := .inl h
  have hinvalid (h : (invalidSession client).MaySend ds) : AtMostReply client ds :=
    atMostReply_sendDataTo (by decide) h
  have hcall {o : ServerOp Unit} (h : (perform o : ServerProg Unit).MaySend ds) : AtMostReply client ds :=
    atMostReply_of_next h fun _ => .inl
  unfold dispatch at h
  split at h
  · exact hnothing (atMostReply_sendDataTo (by decide) h)
  · obtain ⟨o, ht⟩ : ∃ o, PTYPE.ofValue packetType = o := ⟨_, rfl⟩
    rw [ht] at h
    cases o with
    | none => exact hnothing (atMostReply_sendDataTo (by decide) h)
    | some t =>
      cases t with
      | SENDPLAYERCOMMAND =>
        obtain ⟨ds₁, ds₂, rfl, h₁, h₂⟩ := maySend_sendPlayerCommandHandler h
        exact ⟨ds₁, ds₂, rfl, h₂, .inr ⟨ht, h₁⟩⟩
      | CONNECT => exact hnothing (atMostReply_connectHandler h)
      | GENERIC | ACK => exact hnothing (atMostReply_sessionHandler hreturn (fun _ => hreturn) h)
      | DISCONNECT => exact hnothing (atMostReply_sessionHandler hreturn (fun _ => hcall) h)
      | SELECTUSER => exact hnothing (atMostReply_sessionHandler hinvalid (fun _ => hcall) h)
      | CREATEUSER => exact hnothing (atMostReply_sessionHandler hinvalid (fun _ => hreturn) h)
      | LISTUSERS =>
        refine hnothing (atMostReply_sessionHandler hinvalid (fun packet h => ?_) h)
        exact atMostReply_of_next h fun _ => atMostReply_sendDataTo (by decide)
      | ERROR | SENDSERVERCOMMAND => exact hnothing (atMostReply_sendDataTo (by decide) h)
      | DELETEUSER | INITIALIZEGAME | UPDATEPC | UPDATENPC | SENDPLAYERACTION | SENDSERVERACTION | UNITY =>
        exact hnothing (hreturn h)

end MaySend

end Celegraph.Server
