import Celegraph.Frame
import Celegraph.Server.Alone

/-!
# Packets that bring the server down

The body of the worker loop completes exactly for the packets whose payload is in range and unpacks, and whose handler
stays in defined behaviour (`survives_iff`). An oversized or malformed packet never gets its error: `unpack` throws
first, outside of every `try`.
-/

namespace Celegraph.Server

open CxxString Packets Utils Prog
open MessagePack (Obj)

variable {s : Server} {u : Uninit} {data : Obj} {client : SockAddr}

/-- The program returns, with the mutexes it held. -/
def Returns (p : ServerProg Unit) (s : Server) (held : List Mutex) : Prop := ∃ s' out, p.run s held = .ok () s' held out

/-- Where a handler stays in defined behaviour: the next session number does not overflow, and a `/s` of a live session
has an addressee and a message. -/
def HandlerDefined (s : Server) (u : Uninit) (data : Obj) : Option PTYPE → Prop
  | some .CONNECT => ∀ packet, Connect.convert u data = some packet →
      packet.sessionId ∈ s.serverState.sessions ∨ s.serverState.curSession ≠ Int32.maxValue
  | some .SENDPLAYERCOMMAND => ∀ packet, Sendplayercommand.convert u data = some packet →
      packet.sessionId ∈ s.serverState.sessions → SayComplete packet.command
  | _ => True

/-- The packets that are to be answered with an error: the size is out of range, or the payload does not unpack. -/
def Malformed (mp : Msgpack) (packetBuffer : PacketBuffer) : Prop :=
  MSGPCK_MAX_PAYLOAD_SIZE < getMsgpckSizeFromPacket packetBuffer ∨
    mp.unpack (getMsgpckDataFromPacket packetBuffer) = none

/-- The worker completes the iteration; a malformed packet is answered with an error. -/
def Survives (mp : Msgpack) (u : Uninit) (packet : Packet) (s : Server) : Prop :=
  ∃ s' out, (handlePacket mp u packet).run s [] = .ok () s' [] out ∧
    (Malformed mp packet.data → ∃ errorMsg, out = [errorTo errorMsg packet.source])

/-! ## Handlers that return -/

theorem held_serverState : Mutex.activeConnections ∉ [Mutex.serverState] := by decide

theorem returns_of_run {p : ServerProg Unit} {held : List Mutex} {s' : Server} {out : List Datagram}
    (h : p.run s held = .ok () s' held out) : Returns p s held := ⟨s', out, h⟩

theorem returns_sessionHandler {P : Type} {convert : Obj → Option P} {sessionId : P → Int32} {refuse : ServerProg Unit}
    {act : P → ServerProg Unit} {out : List Datagram}
    (hrefuse : refuse.run s [.serverState] = .ok () s [.serverState] out)
    (hact : ∀ packet, convert data = some packet → sessionId packet ∈ s.serverState.sessions →
      Returns (act packet) s [.serverState]) :
    Returns (sessionHandler convert sessionId refuse act data client) s [] := by
  cases hc : convert data with
  | none => exact returns_of_run (run_sessionHandler_none hc)
  | some packet =>
    by_cases hlive : sessionId packet ∈ s.serverState.sessions
    · obtain ⟨s', out', hrun⟩ := hact packet hc hlive
      exact ⟨s', out', by simp [run_sessionHandler_act hc hlive, hrun, Outcome.andThen]⟩
    · exact returns_of_run (run_sessionHandler_refuse hc hlive hrefuse)

theorem returns_connectHandler_iff :
    Returns (connectHandler u data client) s [] ↔ HandlerDefined s u data (some .CONNECT) := by
  cases hc : Connect.convert u data with
  | none => exact iff_of_true ⟨s, _, by simp [connectHandler, hc]; rfl⟩ fun packet hp => by rw [hc] at hp; cases hp
  | some packet =>
    simp only [Returns, run_connectHandler hc, HandlerDefined, hc, Option.some.injEq, forall_eq']
    rcases s.serverState.generateSession_cases packet.sessionId with ⟨hlive, hg⟩ | ⟨hlive, hmax, hg⟩ | ⟨hlive, hmax, hg⟩
    · simp [hg, hlive]
    · simp [hg, hlive, hmax]
    · simp [hg, hmax]

/-- A player command that leaves its tokens or its string takes the handler with it. -/
theorem returns_sendPlayerCommandHandler_iff :
    Returns (sendPlayerCommandHandler u data client) s [] ↔ HandlerDefined s u data (some .SENDPLAYERCOMMAND) := by
  constructor
  · rintro ⟨s', out, hrun⟩ packet hc hlive
    by_contra hsay
    have hundef := run_playerCommand s held_serverState packet.command packet.sessionId
    rw [if_neg hsay] at hundef
    simp only [sendPlayerCommandHandler] at hrun
    rw [run_sessionHandler_act hc hlive, run_bind, hundef] at hrun
    cases hrun
  · intro hdef
    refine returns_sessionHandler (run_sendErrorTo _ _) fun packet hc hlive => ?_
    have hrun := run_playerCommand s held_serverState packet.command packet.sessionId
    rw [if_pos (hdef packet hc hlive)] at hrun
    exact ⟨s, _, by rw [run_bind, hrun]; simp [Outcome.andThen]; rfl⟩

theorem returns_dispatch_iff (client : SockAddr) (packetType : UInt8) :
    Returns (dispatch u data client packetType) s [] ↔ HandlerDefined s u data (PTYPE.ofValue packetType) := by
  unfold dispatch
  split
  · rename_i h0
    subst h0
    exact iff_of_true (returns_of_run (run_sendErrorTo _ _)) trivial
  · cases PTYPE.ofValue packetType with
    | none => exact iff_of_true (returns_of_run (run_sendErrorTo _ _)) trivial
    | some t =>
      have hrefuse : (invalidSession client).run s [.serverState] = .ok () s [.serverState] _ := run_sendErrorTo _ _
      cases t with
      | CONNECT => exact returns_connectHandler_iff
      | SENDPLAYERCOMMAND => exact returns_sendPlayerCommandHandler_iff
      | GENERIC | ACK =>
        exact iff_of_true (returns_sessionHandler (run_pure _ _ _) fun _ _ _ => returns_of_run (run_pure _ _ _)) trivial
      | CREATEUSER =>
        exact iff_of_true (returns_sessionHandler hrefuse fun _ _ _ => returns_of_run (run_pure _ _ _)) trivial
      | DISCONNECT =>
        exact iff_of_true (returns_sessionHandler (run_pure _ _ _) fun _ _ _ => returns_of_run (run_perform _)) trivial
      | SELECTUSER =>
        exact iff_of_true (returns_sessionHandler hrefuse fun _ _ _ => returns_of_run (run_perform _)) trivial
      | LISTUSERS =>
        refine iff_of_true (returns_sessionHandler hrefuse fun packet _ _ => ?_) trivial
        exact returns_of_run rfl
      | ERROR | SENDSERVERCOMMAND => exact iff_of_true (returns_of_run (run_sendErrorTo _ _)) trivial
      | DELETEUSER | INITIALIZEGAME | UPDATEPC | UPDATENPC | SENDPLAYERACTION | SENDSERVERACTION | UNITY =>
        exact iff_of_true (returns_of_run (run_pure _ _ _)) trivial

/-! ## The iteration -/

/-- **The worker survives a packet** exactly if its size is in range, its payload unpacks, and its handler stays in
defined behaviour. -/
theorem survives_iff (mp : Msgpack) (u : Uninit) (packet : Packet) (s : Server) :
    Survives mp u packet s ↔
      getMsgpckSizeFromPacket packet.data ≤ MSGPCK_MAX_PAYLOAD_SIZE ∧
      ∃ data, mp.unpack (getMsgpckDataFromPacket packet.data) = some data ∧
        HandlerDefined s u data (PTYPE.ofValue (getPacketTypeFromPacket packet.data)) := by
  constructor
  · rintro ⟨s', out, hrun, _⟩
    cases hget : getDataFromPacket mp packet.data with
    | none =>
      simp only [handlePacket, hget] at hrun
      cases hrun
    | some r =>
      obtain ⟨packetType, data⟩ := r
      obtain ⟨hsize, rfl, hunpack⟩ := getDataFromPacket_eq_some.mp hget
      simp only [handlePacket, hget] at hrun
      exact ⟨hsize, data, hunpack, (returns_dispatch_iff _ _).mp ⟨s', out, hrun⟩⟩
  · rintro ⟨hsize, data, hunpack, hdef⟩
    have hget := getDataFromPacket_eq_some.mpr ⟨hsize, rfl, hunpack⟩
    obtain ⟨s', out, hrun⟩ := (returns_dispatch_iff packet.source _).mpr hdef
    refine ⟨s', out, by simpa only [handlePacket, hget] using hrun, fun hbad => ?_⟩
    rcases hbad with hbad | hbad
    · exact absurd hsize (Nat.not_le.mpr hbad)
    · rw [hunpack] at hbad
      cases hbad

/-- A packet of zeros: it claims an empty payload. -/
def zeroPacket : Packet := ⟨fun _ => 0, ⟨0x7f000001, 7331⟩⟩

theorem not_survives : ¬∀ mp u packet s, Survives mp u packet s := by
  intro hall
  obtain ⟨s', out, hrun, _⟩ := hall .reference ⟨0, 0⟩ zeroPacket .init
  have hnone : getDataFromPacket .reference zeroPacket.data = none := rfl
  simp only [handlePacket, hnone] at hrun
  cases hrun

end Celegraph.Server
