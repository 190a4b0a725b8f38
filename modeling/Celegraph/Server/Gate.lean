import Celegraph.Server.Alone

/-!
# The session gate

A packet that does not convert, or whose session is not live, or whose type has no effect, changes nothing: whatever
its handler does with the mutexes, it frees them, and it sends at most one packet, an error to the sender
(`gate_frame`).
-/

namespace Celegraph.Server

open CxxString Packets Utils Prog
open MessagePack (Obj)

/-- The types that are handled with a conversion. -/
def converts : PTYPE → Bool
  | .GENERIC | .ACK | .CONNECT | .DISCONNECT | .LISTUSERS | .SELECTUSER | .CREATEUSER | .SENDPLAYERCOMMAND => true
  | .ERROR | .DELETEUSER | .INITIALIZEGAME | .UPDATEPC | .UPDATENPC | .SENDSERVERCOMMAND | .SENDPLAYERACTION
  | .SENDSERVERACTION | .UNITY => false

/-- The session of the converted packet; `none` if there is no conversion, or it fails. -/
def convertSession (u : Uninit) (data : Obj) : PTYPE → Option Int32
  | .GENERIC => (Generic.convert u data).map Generic.sessionId
  | .ACK => (Ack.convert u data).map Ack.sessionId
  | .CONNECT => (Connect.convert u data).map Connect.sessionId
  | .DISCONNECT => (Disconnect.convert u data).map Disconnect.sessionId
  | .LISTUSERS => (Listusers.convert u data).map Listusers.sessionId
  | .SELECTUSER => (Selectuser.convert u data).map Selectuser.sessionId
  | .CREATEUSER => (Createuser.convert u data).map Createuser.sessionId
  | .SENDPLAYERCOMMAND => (Sendplayercommand.convert u data).map Sendplayercommand.sessionId
  | _ => none

/-- The packets that the gate stops. -/
inductive Stopped (s : Server) (u : Uninit) (data : Obj) (packetType : UInt8) : Prop
  /-- The payload does not convert to the class of the type. -/
  | unconverted {t : PTYPE} : PTYPE.ofValue packetType = some t → converts t = true → convertSession u data t = none →
      Stopped s u data packetType
  /-- The session is not live. -/
  | notLive {t : PTYPE} {sessionId : Int32} : PTYPE.ofValue packetType = some t → t ≠ .CONNECT →
      convertSession u data t = some sessionId → sessionId ∉ s.serverState.sessions → Stopped s u data packetType
  /-- The type has no implemented effect, or no case in the switch. -/
  | noEffect {t : PTYPE} : PTYPE.ofValue packetType = some t → converts t = false → Stopped s u data packetType
  | zero : packetType = 0 → Stopped s u data packetType
  | unknown : PTYPE.ofValue packetType = none → Stopped s u data packetType

/-- At most one packet, an error to the client. -/
def AtMostError (client : SockAddr) (out : List Datagram) : Prop :=
  out = [] ∨ ∃ errorMsg, out = [errorTo errorMsg client]

/-- The program changes nothing, frees the mutexes it locks, and sends at most an error to the client. -/
def Refuses (p : ServerProg Unit) (s : Server) (held : List Mutex) (client : SockAddr) : Prop :=
  ∃ out, p.run s held = .ok () s held out ∧ AtMostError client out

variable {s : Server} {held : List Mutex} {u : Uninit} {data : Obj} {client : SockAddr}

theorem refuses_return : Refuses (return) s held client := ⟨[], rfl, .inl rfl⟩

theorem refuses_sendErrorTo (errorMsg : Bytes) : Refuses (sendErrorTo errorMsg client) s held client :=
  ⟨_, rfl, .inr ⟨errorMsg, rfl⟩⟩

section SessionHandler

variable {P : Type} {convert : Obj → Option P} {sessionId : P → Int32} {refuse : ServerProg Unit}
  {act : P → ServerProg Unit}

/-- What the gate rests on: a handler does not act before it has verified the session. -/
theorem refuses_sessionHandler (hrefuse : Refuses refuse s [.serverState] client)
    (h : ∀ packet, convert data = some packet → sessionId packet ∉ s.serverState.sessions) :
    Refuses (sessionHandler convert sessionId refuse act data client) s [] client := by
  cases hc : convert data with
  | none => exact ⟨_, run_sessionHandler_none hc, .inr ⟨_, rfl⟩⟩
  | some packet =>
    obtain ⟨out, hrun, hout⟩ := hrefuse
    exact ⟨out, run_sessionHandler_refuse hc (h packet hc) hrun, hout⟩

/-- The same, from the session that `convertSession` finds. -/
theorem refuses_of_session (hrefuse : Refuses refuse s [.serverState] client)
    (h : ∀ id, (convert data).map sessionId = some id → id ∉ s.serverState.sessions) :
    Refuses (sessionHandler convert sessionId refuse act data client) s [] client :=
  refuses_sessionHandler hrefuse fun packet hp => h _ (by rw [hp]; rfl)

end SessionHandler

theorem refuses_connectHandler (h : Connect.convert u data = none) :
    Refuses (connectHandler u data client) s [] client := by
  simp only [connectHandler, h]
  exact refuses_sendErrorTo _

/-- A type whose packet does not convert, or names a session that is not live. -/
theorem refuses_dispatch {packetType : UInt8} {t : PTYPE} (ht : PTYPE.ofValue packetType = some t)
    (h : ∀ id, convertSession u data t = some id → t ≠ .CONNECT ∧ id ∉ s.serverState.sessions) :
    Refuses (dispatch u data client packetType) s [] client := by
  have h0 := PTYPE.ne_zero_of_ofValue ht
  simp only [dispatch, if_neg h0, ht]
  have hsession : ∀ id, convertSession u data t = some id → id ∉ s.serverState.sessions := fun id hid => (h id hid).2
  have hinvalid : Refuses (invalidSession client) s [.serverState] client := refuses_sendErrorTo _
  cases t with
  | GENERIC | ACK | DISCONNECT => exact refuses_of_session refuses_return hsession
  | LISTUSERS | SELECTUSER | CREATEUSER | SENDPLAYERCOMMAND => exact refuses_of_session hinvalid hsession
  | CONNECT =>
    refine refuses_connectHandler ?_
    cases hc : Connect.convert u data with
    | none => rfl
    | some packet => exact absurd rfl (h packet.sessionId (by simp [convertSession, hc])).1
  | ERROR | SENDSERVERCOMMAND => exact refuses_sendErrorTo _
  | DELETEUSER | INITIALIZEGAME | UPDATEPC | UPDATENPC | SENDPLAYERACTION | SENDSERVERACTION | UNITY =>
    exact refuses_return

theorem Stopped.refuses {packetType : UInt8} (h : Stopped s u data packetType) :
    Refuses (dispatch u data client packetType) s [] client := by
  cases h with
  | unconverted ht _ hc => exact refuses_dispatch ht fun id hid => by rw [hc] at hid; cases hid
  | notLive ht hne hc hlive =>
    refine refuses_dispatch ht fun id hid => ⟨hne, ?_⟩
    rw [hc] at hid
    cases hid
    exact hlive
  | @noEffect t ht hc => exact refuses_dispatch ht fun id hid => by cases t <;> simp [converts, convertSession] at hc hid
  | zero h0 =>
    simp only [dispatch, if_pos h0]
    exact refuses_sendErrorTo _
  | unknown hn =>
    by_cases h0 : packetType = 0
    · simp only [dispatch, if_pos h0]
      exact refuses_sendErrorTo _
    · simp only [dispatch, if_neg h0, hn]
      exact refuses_sendErrorTo _

/-- **The session gate**: a packet that unpacks and is stopped leaves all tables as they were and both mutexes free, and
is answered with at most one packet, an error to its source. -/
theorem gate_frame {mp : Msgpack} {packet : Packet} {packetType : UInt8}
    (hdata : getDataFromPacket mp packet.data = some (packetType, data)) (h : Stopped s u data packetType) :
    ∃ out, (handlePacket mp u packet).run s [] = .ok () s [] out ∧
      (out = [] ∨ ∃ errorMsg, out = [errorTo errorMsg packet.source]) := by
  simp only [handlePacket, hdata]
  exact h.refuses

/-- `LISTUSERS` for session 7, which is not live. -/
def listUsersOf7 : Packet where
  data := receivePacketFrom [8, 3, 0, 0x92, 1, 7] fun _ => 0
  source := ⟨0x7f000001, 7331⟩

theorem gate_frame_listUsers :
    ∃ out, (handlePacket .reference ⟨0, 0⟩ listUsersOf7).run Server.init [] = .ok () Server.init [] out ∧
      (out = [] ∨ ∃ errorMsg, out = [errorTo errorMsg listUsersOf7.source]) := by
  have hdata : getDataFromPacket .reference listUsersOf7.data = some (8, .array [.int 1, .int 7]) := rfl
  have hsession : convertSession ⟨0, 0⟩ (.array [.int 1, .int 7]) .LISTUSERS = some 7 := rfl
  exact gate_frame hdata (.notLive rfl (by decide) hsession (by decide))

end Celegraph.Server
