import Celegraph.RoundTrip
import Celegraph.Server.Attribution

/-!
# Messages that outgrow their packet

A message that is passed on gains its decoration and the number of its sender, and loses the command. It fits into a
packet again exactly if the text is short enough for the numbers of its addressees (`relays_fit_iff`); a message near
the limit, which arrived in a packet that fits, does not (`not_relays_fit`).
-/

namespace Celegraph.Server

open CxxString Packets Utils Prog
open MessagePack (Obj)

/-- The message itself. -/
def Relay.msg : Relay → Bytes
  | .message _ msg | .broadcast msg => msg

/-- The length of the decoration, without the number of the sender. -/
def Relay.decoration : Relay → Nat
  | .message _ _ => 24
  | .broadcast _ => 26

/-- The message fits for every connection to which it goes: with its decoration, the number of the sender and the
packed number of the addressee it has at most 504 bytes. -/
def RelayFits (s : Server) (command : Sendplayercommand) : Prop :=
  ∀ relay, relayOf command.command = some relay → ∀ conn ∈ addressees s command.sessionId relay,
    relay.decoration + (CxxString.toString command.sessionId).length + relay.msg.length + intSize conn.1 ≤ 504

/-- The payload of a packet is accepted as it was packed, whatever the buffer of the recipient held. -/
def Accepted (mp : Msgpack) (d : Datagram) : Prop :=
  ∀ b : PacketBuffer, getMsgpckDataFromPacket (receivePacketFrom (d.data mp) b) = mp.pack d.body

variable {mp : Msgpack} {u : Uninit} {packet : Packet} {s : Server} {command : Sendplayercommand}

theorem accepted_of_fits [mp.Lawful] {d : Datagram} {packetId sessionId : Int32} {t : Bytes}
    (hbody : d.body = textBody packetId sessionId t) (h : Fits d.body) : Accepted mp d := by
  have hvalid : d.body.Valid := hbody ▸ valid_of_fits (hbody ▸ h)
  have hlen := (length_pack_le_iff mp hvalid).mpr h
  exact fun b => congrArg (fun r => r.2.2) (decoded_prependPacketHeader hlen d.packetType.value b)

/-- What is sent for the command of a live session. -/
theorem sends_command (hc : CommandOf mp u packet command) (hlive : command.sessionId ∈ s.serverState.sessions) :
    (handlePacket mp u packet).sends s [] = relays s command.sessionId command.command ++
      if SayComplete command.command then [commandReply packet.source command] else [] := by
  obtain ⟨data, hget, hconv⟩ := hc
  have hcommand : liveCommand s u data PTYPE.SENDPLAYERCOMMAND.value = some command := by
    simp [liveCommand, hconv, Option.filter, hlive]
  rw [handlePacket, hget]
  simp only [sends_dispatch, passedOn, hcommand]
  congr 1
  by_cases hsay : SayComplete command.command <;> simp [reply, sessionReply, hconv, hlive, hsay]

theorem length_relayText (sessionId : Int32) (relay : Relay) : (relayText sessionId relay).length =
    relay.decoration + (CxxString.toString sessionId).length + relay.msg.length := by
  cases relay <;> simp [relayText, text, Relay.decoration, Relay.msg] <;> omega

theorem body_of_mem_relays {sessionId : Int32} {pCommand : Bytes} {d : Datagram} (h : d ∈ relays s sessionId pCommand) :
    ∃ k t, d.body = textBody 0 k t := by
  unfold relays at h
  split at h
  · cases h
  · obtain ⟨conn, _, rfl⟩ := List.mem_map.mp h
    exact ⟨conn.1, _, rfl⟩

/-- A message to a connection. -/
theorem fits_serverCommand_iff (sessionId : Int32) (command : Bytes) (dest : SockAddr) :
    Fits (serverCommand sessionId command dest).body ↔ command.length + intSize sessionId ≤ 504 := by
  have hzero : intSize 0 = 1 := rfl
  have h := fits_textBody_iff 0 sessionId command
  rw [hzero] at h
  exact h.trans (by omega)

/-- **What is emitted for a player command fits** exactly if the message fits for every connection to which it goes. -/
theorem relays_fit_iff [mp.Lawful] (hc : CommandOf mp u packet command)
    (hlive : command.sessionId ∈ s.serverState.sessions) :
    (∀ d ∈ (handlePacket mp u packet).sends s [], Fits d.body ∧ Accepted mp d) ↔ RelayFits s command := by
  have hrelays : (∀ d ∈ relays s command.sessionId command.command, Fits d.body) ↔ RelayFits s command := by
    unfold relays RelayFits
    cases relayOf command.command with
    | none => simp
    | some relay =>
      simp only [sentTo, List.forall_mem_map, fits_serverCommand_iff, length_relayText, Option.some.injEq, forall_eq']
  have hreply : ∀ d ∈ (if SayComplete command.command then [commandReply packet.source command] else []),
      Fits d.body ∧ Accepted mp d := by
    intro d hd
    split at hd
    · rw [List.mem_singleton] at hd
      subst hd
      have hp := intSize_bounds command.packetId
      have hs := intSize_bounds command.sessionId
      have hfit : Fits (commandReply packet.source command).body := by
        refine (fits_textBody_iff command.packetId command.sessionId _).mpr ?_
        change 29 + _ + _ ≤ _
        omega
      exact ⟨hfit, accepted_of_fits rfl hfit⟩
    · cases hd
  rw [sends_command hc hlive, ← hrelays]
  constructor
  · exact fun h d hd => (h d (List.mem_append_left _ hd)).1
  · intro h d hd
    rcases List.mem_append.mp hd with hd | hd
    · obtain ⟨k, t, hbody⟩ := body_of_mem_relays hd
      exact ⟨h d hd, accepted_of_fits hbody (h d hd)⟩
    · exact hreply d hd

/-- A short message of session 1 to session 2 fits. -/
theorem relays_fit_imitation :
    RelayFits twoSessions imitation ∧
      ∀ d ∈ (handlePacket .reference ⟨0, 0⟩ (commandPacket imitation)).sends twoSessions [],
        Fits d.body ∧ Accepted .reference d := by
  have hget : getDataFromPacket .reference (commandPacket imitation).data = some (15, imitation.pack) :=
    getDataFromPacket_fits .reference (d := ⟨.SENDPLAYERCOMMAND, _, _⟩) (by decide) (valid_of_fits (by decide)) _
  have hc : CommandOf .reference ⟨0, 0⟩ (commandPacket imitation) imitation := ⟨_, hget, rfl⟩
  have hfits : RelayFits twoSessions imitation := by
    intro relay hrelay conn hconn
    have hmsg : relayOf imitation.command =
      some (.message (text "2") (text "<<< >>>MESSAGE Celegraph Admin: hi")) := rfl
    rw [hmsg] at hrelay
    cases hrelay
    have haddr (msg : Bytes) : addressees twoSessions imitation.sessionId (.message (text "2") msg) =
      [(2, ⟨0x7f000001, 40002⟩)] := rfl
    rw [haddr, List.mem_singleton] at hconn
    subst hconn
    decide
  exact ⟨hfits, (relays_fit_iff hc (by decide)).mpr hfits⟩

/-! ## A long broadcast -/

theorem relayOf_broadcast (msg : Bytes) : relayOf (text "/h " ++ msg) = some (.broadcast msg) := by
  have hjoin : text "/h " ++ msg = text "/h" ++ 32 :: msg := rfl
  have hsplit : (text "/h" ++ 32 :: msg).splitOn 32 = text "/h" :: msg.splitOn 32 :=
    List.splitOn_append_cons_self_of_not_mem (by decide) msg
  obtain ⟨t, ts, hts⟩ := List.exists_cons_of_ne_nil (List.splitOn_ne_nil 32 msg)
  have hne : text "/h" ≠ text "/s" := by decide
  simp only [relayOf, hjoin, hsplit, hts, hne, if_false, if_true]
  rfl

/-- Session 1 broadcasts a message. -/
def broadcastCommand (msg : Bytes) : Sendplayercommand where
  packetId := 7
  sessionId := 1
  command := text "/h " ++ msg

/-- A message of 480 bytes comes in a payload of 489, and leaves for session 2 in one of 513. -/
theorem not_relays_fit :
    ¬∀ u packet s command, CommandOf .reference u packet command → command.sessionId ∈ s.serverState.sessions →
      ∀ d ∈ (handlePacket .reference u packet).sends s [], Fits d.body := by
  intro hall
  obtain ⟨msg, hlen⟩ : ∃ msg : Bytes, msg.length = 480 := ⟨List.replicate 480 97, List.length_replicate⟩
  have hfit : Fits (broadcastCommand msg).pack := by
    refine (fits_textBody_iff 7 1 _).mpr ?_
    rw [broadcastCommand, List.length_append, hlen]
    decide
  have hget : getDataFromPacket .reference (commandPacket (broadcastCommand msg)).data =
      some (15, (broadcastCommand msg).pack) :=
    getDataFromPacket_fits .reference (d := ⟨.SENDPLAYERCOMMAND, _, _⟩) hfit (valid_of_fits hfit) _
  have hc : CommandOf .reference ⟨0, 0⟩ (commandPacket (broadcastCommand msg)) (broadcastCommand msg) :=
    ⟨_, hget, Sendplayercommand.convert_pack _ _⟩
  have hlive : (1 : Int32) ∈ twoSessions.serverState.sessions := by decide
  have haddr : addressees twoSessions 1 (.broadcast msg) = [(2, ⟨0x7f000001, 40002⟩)] := rfl
  have hmem : serverCommand 2 (relayText 1 (.broadcast msg)) ⟨0x7f000001, 40002⟩ ∈
      (handlePacket .reference ⟨0, 0⟩ (commandPacket (broadcastCommand msg))).sends twoSessions [] := by
    rw [sends_command hc hlive]
    refine List.mem_append_left _ ?_
    simp only [relays, broadcastCommand, relayOf_broadcast, haddr, sentTo, List.map_cons, List.mem_cons, true_or]
  have hfits := hall _ _ twoSessions _ hc hlive _ hmem
  rw [fits_serverCommand_iff, length_relayText, Relay.msg, Relay.decoration, hlen] at hfits
  exact absurd hfits (by decide)

end Celegraph.Server
