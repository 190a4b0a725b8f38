import Celegraph.AdminShell
import Celegraph.Server.Replies

/-!
# Who a message is from

A message that is passed on names the session of the packet it came in (`attribution`): the numeral in its text has no
colon in it, so it is the part before the first one, whatever the message itself contains. The texts of the admin
differ from those of the clients before the numeral starts.
-/

namespace Celegraph.Server

open CxxString Packets Utils Prog
open MessagePack (Obj)

/-- A text in the name of the client of a session. -/
def FromClient (sessionId : Int32) (t : Bytes) : Prop :=
  ∃ m, t = text ">>>MESSAGE Client " ++ CxxString.toString sessionId ++ text ": " ++ m ++ text " <<<" ∨
    t = text ">>>BROADCAST Client " ++ CxxString.toString sessionId ++ text ": " ++ m ++ text " <<<"

/-- A text in the name of the admin. -/
def FromAdmin (t : Bytes) : Prop :=
  ∃ m, t = text ">>>MESSAGE Celegraph Admin: " ++ m ++ text " <<<" ∨
    t = text ">>>BROADCAST Celegraph Admin: " ++ m ++ text " <<<"

theorem fromClient_relayText (sessionId : Int32) (relay : Relay) : FromClient sessionId (relayText sessionId relay) := by
  cases relay with
  | message _ msg => exact ⟨msg, .inl rfl⟩
  | broadcast msg => exact ⟨msg, .inr rfl⟩

/-! ## The texts -/

/-- A numeral has no colon. -/
theorem colon_notMem_toString (n : Int32) : (58 : UInt8) ∉ CxxString.toString n := by
  have hdecimal (k : Nat) : (58 : UInt8) ∉ decimal k := fun h => by
    have := isDigit_of_mem_decimal h
    simp [isDigit] at this
  unfold CxxString.toString
  split
  · simpa using hdecimal _
  · exact hdecimal _

/-- The numeral is what stands before the first colon. -/
theorem takeWhile_numeral (n : Int32) (t : Bytes) :
    (CxxString.toString n ++ text ": " ++ t).takeWhile (· ≠ 58) = CxxString.toString n := by
  have hcolon := colon_notMem_toString n
  rw [List.append_assoc, List.takeWhile_append_of_pos fun b hb => by
    simpa using fun h : b = 58 => hcolon (h ▸ hb)]
  simp [text]

theorem toString_inj {n n' : Int32} (h : CxxString.toString n = CxxString.toString n') : n = n' := by
  have hn := stoi_toString n
  rw [h, stoi_toString] at hn
  exact (Option.some.inj hn).symm

/-- The text without the words in front of the numeral. -/
def afterClient (t : Bytes) : Bytes :=
  if (text ">>>MESSAGE Client ").isPrefixOf t then t.drop (text ">>>MESSAGE Client ").length
  else t.drop (text ">>>BROADCAST Client ").length

/-- **The session can be read off a text.** -/
theorem FromClient.numeral {n : Int32} {t : Bytes} (h : FromClient n t) :
    (afterClient t).takeWhile (· ≠ 58) = CxxString.toString n := by
  obtain ⟨m, rfl | rfl⟩ := h
  · have hafter : afterClient (text ">>>MESSAGE Client " ++ CxxString.toString n ++ text ": " ++ m ++ text " <<<") =
        CxxString.toString n ++ text ": " ++ (m ++ text " <<<") := by
      simp [afterClient, List.append_assoc]
    rw [hafter, takeWhile_numeral]
  · have hafter : afterClient (text ">>>BROADCAST Client " ++ CxxString.toString n ++ text ": " ++ m ++ text " <<<") =
        CxxString.toString n ++ text ": " ++ (m ++ text " <<<") := by
      have hne : ¬text ">>>MESSAGE Client " <+: text ">>>BROADCAST Client " ++ CxxString.toString n ++ text ": " ++
          m ++ text " <<<" := by
        simp [text]
      rw [afterClient, if_neg (by simpa using hne)]
      simp [List.append_assoc]
    rw [hafter, takeWhile_numeral]

theorem FromClient.unique {n n' : Int32} {t : Bytes} (h : FromClient n t) (h' : FromClient n' t) : n = n' :=
  toString_inj (h.numeral.symm.trans h'.numeral)

/-- The admin's texts have another word after the first. -/
theorem FromClient.not_fromAdmin {n : Int32} {t : Bytes} (h : FromClient n t) : ¬FromAdmin t := by
  rintro ⟨m', h' | h'⟩ <;> obtain ⟨m, rfl | rfl⟩ := h <;> simp [text] at h'

/-! ## The packets -/

/-- The player command in a packet. -/
def CommandOf (mp : Msgpack) (u : Uninit) (packet : Packet) (command : Sendplayercommand) : Prop :=
  ∃ data, getDataFromPacket mp packet.data = some (PTYPE.SENDPLAYERCOMMAND.value, data) ∧
    Sendplayercommand.convert u data = some command

/-- A message is passed on only while a player command is handled, and in the name of its session. -/
theorem fromClient_of_maySend {mp : Msgpack} {u : Uninit} {packet : Packet} {ds : List Datagram}
    (h : (handlePacket mp u packet).MaySend ds) {d : Datagram} (hd : d ∈ ds) (ht : d.packetType = .SENDSERVERCOMMAND) :
    ∃ command k t, CommandOf mp u packet command ∧ d = serverCommand k t d.dest ∧ FromClient command.sessionId t := by
  unfold handlePacket at h
  split at h
  · rw [show ds = [] from h] at hd
    cases hd
  · rename_i packetType data hget
    obtain ⟨ds₁, ds₂, rfl, hreply, hpassed⟩ := maySend_dispatch h
    rcases List.mem_append.mp hd with hd | hd
    · rcases hpassed with rfl | ⟨htype, rfl | ⟨command, relay, conns, hc, _, _, rfl⟩⟩
      · cases hd
      · cases hd
      · obtain ⟨conn, _, rfl⟩ := List.mem_map.mp hd
        rw [← PTYPE.value_of_ofValue htype] at hget
        exact ⟨command, conn.1, _, ⟨data, hget, hc⟩, rfl, fromClient_relayText _ _⟩
    · rcases hreply with rfl | ⟨d', rfl, _, hne⟩
      · cases hd
      · rw [List.mem_singleton] at hd
        subst hd
        exact absurd ht hne

/-- A message is passed on only for a live session. -/
theorem live_of_sends {mp : Msgpack} {u : Uninit} {packet : Packet} {s : Server} {d : Datagram}
    (hd : d ∈ (handlePacket mp u packet).sends s []) (ht : d.packetType = .SENDSERVERCOMMAND) :
    ∃ command, CommandOf mp u packet command ∧ command.sessionId ∈ s.serverState.sessions := by
  unfold handlePacket at hd
  split at hd
  · cases hd
  · rename_i packetType data hget
    rw [sends_dispatch, List.mem_append] at hd
    rcases hd with hd | hd
    · obtain ⟨command, _, _, hlive, _⟩ := mem_passedOn hd
      unfold liveCommand at hlive
      split at hlive
      · rename_i htype
        obtain ⟨hc, hmem⟩ := Option.filter_eq_some_iff.mp hlive
        rw [← PTYPE.value_of_ofValue htype] at hget
        exact ⟨command, ⟨data, hget, hc⟩, by simpa using hmem⟩
      · cases hlive
    · exact absurd ht (reply_dest (Option.mem_toList.mp hd)).2

theorem CommandOf.unique {mp : Msgpack} {u : Uninit} {packet : Packet} {c c' : Sendplayercommand}
    (h : CommandOf mp u packet c) (h' : CommandOf mp u packet c') : c = c' := by
  obtain ⟨data, hget, hc⟩ := h
  obtain ⟨data', hget', hc'⟩ := h'
  rw [hget] at hget'
  cases hget'
  exact Option.some.inj (hc.symm.trans hc')

/-- The shell sends in the admin's name only. -/
theorem fromAdmin_of_maySend {adminCommand : Bytes} {ds : List Datagram}
    (h : (AdminShell.action adminCommand).code.MaySend ds) {d : Datagram} (hd : d ∈ ds) :
    ∃ k t, d = serverCommand k t d.dest ∧ FromAdmin t := by
  have hmem {t : Bytes} {conns : List (Int32 × SockAddr)} (hds : ds = sentTo t conns) (ht : FromAdmin t) :
      ∃ k t, d = serverCommand k t d.dest ∧ FromAdmin t := by
    subst hds
    obtain ⟨conn, _, rfl⟩ := List.mem_map.mp hd
    exact ⟨conn.1, t, rfl, ht⟩
  have hnone (h : ds = []) : ∃ k t, d = serverCommand k t d.dest ∧ FromAdmin t := by
    subst h
    cases hd
  generalize AdminShell.action adminCommand = action at h
  cases action with
  | broadcastToConnections msg =>
    obtain ⟨conns, _, hds⟩ := maySend_broadcastToConnections h
    exact hmem hds ⟨msg, .inr rfl⟩
  | sendMessageToConnection msg toUser =>
    obtain ⟨conns, _, hds⟩ := maySend_sendMessageToConnection h
    exact hmem hds ⟨msg, .inl rfl⟩
  | getPacketQueueSize | shutdown | other | throw | undefined => exact hnone h

theorem serverCommand_inj {k k' : Int32} {t t' : Bytes} {a a' : SockAddr}
    (h : serverCommand k t a = serverCommand k' t' a') : k = k' ∧ t = t' ∧ a = a' := by
  simp only [serverCommand, Sendservercommand.pack, packInt32, Datagram.mk.injEq, MessagePack.Obj.array.injEq,
    List.cons.injEq, MessagePack.Obj.int.injEq, MessagePack.Obj.str.injEq, true_and, and_true, Int32.toInt_inj] at h
  exact ⟨h.1.1, h.1.2, h.2⟩

/-- **Messages are truthfully attributed.** Whatever a packet holds, and whatever the other threads do, a message that
is passed on while it is handled is in the name of the packet's session, and that session is live; the session can be
read off the text; and the shell sends no such text. -/
theorem attribution (mp : Msgpack) (u : Uninit) (packet : Packet) :
    (∀ ds, (handlePacket mp u packet).MaySend ds → ∀ d ∈ ds, d.packetType = .SENDSERVERCOMMAND →
      ∃ command k t, CommandOf mp u packet command ∧ d = serverCommand k t d.dest ∧
        FromClient command.sessionId t) ∧
    (∀ s, ∀ d ∈ (handlePacket mp u packet).sends s [], d.packetType = .SENDSERVERCOMMAND →
      ∃ command k t, CommandOf mp u packet command ∧ d = serverCommand k t d.dest ∧
        FromClient command.sessionId t ∧ command.sessionId ∈ s.serverState.sessions) ∧
    (∀ n n' t, FromClient n t → FromClient n' t → n = n') ∧
    (∀ adminCommand ds, (AdminShell.action adminCommand).code.MaySend ds → ∀ d ∈ ds, ∀ k n t,
      d = serverCommand k t d.dest → ¬FromClient n t) := by
  refine ⟨fun ds h d hd ht => fromClient_of_maySend h hd ht, fun s d hd ht => ?_, fun n n' t h h' => h.unique h',
    fun adminCommand ds h d hd k n t heq hclient => ?_⟩
  · obtain ⟨command, k, t, hc, heq, hfrom⟩ := fromClient_of_maySend (maySend_sends _ s []) hd ht
    obtain ⟨command', hc', hlive⟩ := live_of_sends hd ht
    cases hc.unique hc'
    exact ⟨command, k, t, hc, heq, hfrom, hlive⟩
  · obtain ⟨k', t', heq', hadmin⟩ := fromAdmin_of_maySend h hd
    rw [(serverCommand_inj (heq.symm.trans heq')).2.1] at hclient
    exact hclient.not_fromAdmin hadmin

/-- Session 1 writes to session 2, and imitates the admin. -/
def imitation : Sendplayercommand where
  packetId := 7
  sessionId := 1
  command := text "/s 2 <<< >>>MESSAGE Celegraph Admin: hi"

/-- Two sessions, of which the second has a connection. -/
def twoSessions : Server where
  serverState := { ServerState.init with sessions := {1, 2}, curSession := 3 }
  activeConnections := (∅ : Std.TreeMap Int32 SockAddr).insert 2 ⟨0x7f000001, 40002⟩

/-- The packet of a player command, from a client. -/
def commandPacket (command : Sendplayercommand) : Packet where
  data := receivePacketFrom (Datagram.data .reference ⟨.SENDPLAYERCOMMAND, command.pack, ⟨0x7f000001, 1337⟩⟩) fun _ => 0
  source := ⟨0x7f000001, 40001⟩

theorem attribution_imitation :
    ∃ d ∈ (handlePacket .reference ⟨0, 0⟩ (commandPacket imitation)).sends twoSessions [],
      d.packetType = .SENDSERVERCOMMAND ∧ ∃ command k t,
        CommandOf .reference ⟨0, 0⟩ (commandPacket imitation) command ∧ d = serverCommand k t d.dest ∧
          FromClient command.sessionId t ∧ command.sessionId ∈ twoSessions.serverState.sessions := by
  have hget : getDataFromPacket .reference (commandPacket imitation).data = some (15, imitation.pack) :=
    getDataFromPacket_fits .reference (d := ⟨.SENDPLAYERCOMMAND, _, _⟩) (by decide) (valid_of_fits (by decide)) _
  have hsends : (handlePacket .reference ⟨0, 0⟩ (commandPacket imitation)).sends twoSessions [] =
      [serverCommand 2 (relayText 1 (.message (text "2") (text "<<< >>>MESSAGE Celegraph Admin: hi")))
        ⟨0x7f000001, 40002⟩, commandReply ⟨0x7f000001, 40001⟩ imitation] := by
    rw [handlePacket, hget]
    rfl
  refine ⟨_, by rw [hsends]; exact List.mem_cons_self, rfl, ?_⟩
  exact (attribution .reference ⟨0, 0⟩ (commandPacket imitation)).2.1 twoSessions _
    (by rw [hsends]; exact List.mem_cons_self) rfl

end Celegraph.Server
