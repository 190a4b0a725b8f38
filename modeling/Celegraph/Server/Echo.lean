import Celegraph.Lib.Runs
import Celegraph.Server.Replies
import Celegraph.Sessions.Teardown

/-!
# The server as its own client

A datagram can claim to come from the server itself; then the reply to it is the next datagram that the server receives.
`Config` is a server and what is on its way to it, without further input from outside.

- The replies to a `CONNECT`, a `LISTUSERS` and a `SENDPLAYERCOMMAND` are well formed packets of the same type, for a
  live session. Handled as packets from the server itself they are answered by themselves, and the tables stay as they
  are (`Echo`, `echo_of_reply`). An `ERROR` and a `SENDSERVERCOMMAND` are answered with errors, the last of which is
  answered by itself (`echo_unknownError`).
- A step that sends the server itself nothing that it can read leaves fewer readable datagrams on their way
  (`readable_of_step`). So the server returns to an earlier configuration exactly if it comes to send itself a packet
  that it can read (`returns_iff`).
-/

namespace Celegraph.Server

open CxxString Packets Utils Prog Runs
open MessagePack (Obj)

/-! ## Handlers for live sessions -/

section Live

variable {s : Server} {u : Uninit} {data : Obj} {client : SockAddr}

theorem dispatch_connect : dispatch u data client PTYPE.CONNECT.value = connectHandler u data client := by
  simp [dispatch]

theorem run_listUsersHandler {packet : Listusers} (h : Listusers.convert u data = some packet)
    (hlive : packet.sessionId ∈ s.serverState.sessions) :
    (listUsersHandler u data client).run s [] =
      .ok () { s with serverState := (s.serverState.getSessionAccountName packet.sessionId).2 } []
        [listUsersReply client packet] := by
  rw [listUsersHandler, run_sessionHandler_act h hlive]
  rfl

theorem run_sendPlayerCommandHandler {packet : Sendplayercommand} (h : Sendplayercommand.convert u data = some packet)
    (hlive : packet.sessionId ∈ s.serverState.sessions) (hsay : SayComplete packet.command) :
    (sendPlayerCommandHandler u data client).run s [] =
      .ok () s [] (relays s packet.sessionId packet.command ++ [commandReply client packet]) := by
  have hrun := run_playerCommand s (by decide : Mutex.activeConnections ∉ [Mutex.serverState]) packet.command
    packet.sessionId
  rw [sendPlayerCommandHandler, run_sessionHandler_act h hlive, run_bind, hrun, if_pos hsay]
  simp [Outcome.andThen, commandReply]

end Live

/-! ## Replies that are answered by themselves -/

/-- The tables hold the same. -/
def SameTables (s s' : Server) : Prop :=
  s.serverState = s'.serverState ∧ s.activeConnections.Equiv s'.activeConnections

theorem SameTables.refl (s : Server) : SameTables s s := ⟨rfl, .rfl⟩

/-- Handled as a packet from its own addressee, the packet is answered by itself, and the tables stay as they are. -/
def Echo (s : Server) (r : Datagram) : Prop :=
  ∀ u, ∃ s', (dispatch u r.body r.dest r.packetType.value).run s [] = .ok () s' [] [r] ∧ SameTables s s'

variable {s : Server} {client : SockAddr}

/-- The same entry twice in a table. -/
theorem insert_insert_equiv (m : Std.TreeMap Int32 SockAddr) (k : Int32) (a : SockAddr) :
    (m.insert k a).Equiv ((m.insert k a).insert k a) := by
  refine .of_forall_constGet?_eq fun k' => ?_
  simp only [Std.TreeMap.getElem?_insert]
  split <;> rfl

theorem echo_connectReply {id : Int32} (hlive : id ∈ s.serverState.sessions) {m : Std.TreeMap Int32 SockAddr}
    (hm : s.activeConnections = m.insert id client) : Echo s (connectReply id client) := by
  intro u
  have hconv : Connect.convert u (connectReply id client).body = some ⟨0, id⟩ := Connect.convert_pack _ _
  have hg : s.serverState.generateSession id = (some id, s.serverState) := by
    simp [ServerState.generateSession, hlive]
  refine ⟨⟨s.serverState, s.activeConnections.insert id client⟩, ?_, rfl, ?_⟩
  · change (dispatch u (connectReply id client).body client PTYPE.CONNECT.value).run s [] = _
    rw [dispatch_connect, run_connectHandler hconv, hg]
  · rw [hm]
    exact insert_insert_equiv m id client

theorem echo_listUsersReply {packet : Listusers} (hlive : packet.sessionId ∈ s.serverState.sessions)
    (haccount : packet.sessionId ∈ s.serverState.sessionAccounts) : Echo s (listUsersReply client packet) := by
  intro u
  have hconv : Listusers.convert u (listUsersReply client packet).body = some { packet with users := testUsers } :=
    Listusers.convert_pack _ _
  have hsame : (s.serverState.getSessionAccountName packet.sessionId).2 = s.serverState := by
    obtain ⟨accountName, hname⟩ := Option.isSome_iff_exists.mp (Std.TreeMap.mem_iff_isSome_getElem?.mp haccount)
    simp [ServerState.getSessionAccountName, hname]
  refine ⟨s, (run_listUsersHandler hconv hlive).trans ?_, .refl s⟩
  rw [hsame]
  rfl

theorem echo_commandReply {packet : Sendplayercommand} (hlive : packet.sessionId ∈ s.serverState.sessions) :
    Echo s (commandReply client packet) := by
  intro u
  have hconv : Sendplayercommand.convert u (commandReply client packet).body =
      some { packet with command := text "Command successfully received" } := Sendplayercommand.convert_pack _ _
  have hsay : SayComplete (text "Command successfully received") := by decide
  exact ⟨s, run_sendPlayerCommandHandler hconv hlive hsay, .refl s⟩

/-- After a `CONNECT` its session is live, and has its connection. -/
theorem echo_of_connect {u : Uninit} {data : Obj} {s' : Server} {held : List Mutex} {out : List Datagram} {id : Int32}
    (hrun : (connectHandler u data client).run s [] = .ok () s' held out)
    (hr : connectAnswer s u data client = some (connectReply id client)) : Echo s' (connectReply id client) := by
  unfold connectAnswer at hr
  cases hc : Connect.convert u data with
  | none =>
    rw [hc] at hr
    have htype := congrArg Datagram.packetType (Option.some.inj hr)
    cases htype
  | some packet =>
    rw [run_connectHandler hc] at hrun
    rw [hc] at hr
    rcases s.serverState.generateSession_cases packet.sessionId with ⟨hlive, hg⟩ | ⟨_, _, hg⟩ | ⟨_, _, hg⟩ <;>
      simp only [hg, Option.map_some, Option.map_none, Option.some.injEq] at hr hrun
    · obtain ⟨rfl, _⟩ := connectReply_inj.mp hr
      cases hrun
      exact echo_connectReply hlive rfl
    · cases hr
    · obtain ⟨rfl, _⟩ := connectReply_inj.mp hr
      cases hrun
      exact echo_connectReply (Finset.mem_insert_self _ _) rfl

/-- The types whose replies are requests of the same type. -/
def IsEcho (t : PTYPE) : Prop := t = .CONNECT ∨ t = .LISTUSERS ∨ t = .SENDPLAYERCOMMAND

/-- The types that the server sends and does not know. -/
def IsUnknown (t : PTYPE) : Prop := t = .ERROR ∨ t = .SENDSERVERCOMMAND

/-- The types that the server sends. -/
theorem packetType_of_mem_out {u : Uninit} {data : Obj} {packetType : UInt8} {s' : Server} {held : List Mutex}
    {out : List Datagram} (hrun : (dispatch u data client packetType).run s [] = .ok () s' held out) {d : Datagram}
    (hd : d ∈ out) : IsEcho d.packetType ∨ IsUnknown d.packetType := by
  have hsends := sends_of_run hrun
  rw [sends_dispatch] at hsends
  rw [← hsends] at hd
  rcases List.mem_append.mp hd with hd | hd
  · exact .inr (.inr (packetType_of_mem_passedOn hd))
  · rcases reply_cases (Option.mem_toList.mp hd) with ⟨_, _, rfl⟩ | ⟨_, _, rfl⟩ | ⟨_, _, _, _, rfl⟩ |
      ⟨_, _, _, _, _, rfl⟩
    · exact .inr (.inl rfl)
    · exact .inl (.inl rfl)
    · exact .inl (.inr (.inl rfl))
    · exact .inl (.inr (.inr rfl))

/-- The error for a packet of a type that the server does not know. -/
def unknownError (packetType : PTYPE) (client : SockAddr) : Datagram :=
  errorTo (text "Received unknown packet of type " ++ [packetType.value]) client

theorem run_dispatch_unknown {u : Uninit} {data : Obj} {t : PTYPE} (ht : IsUnknown t) :
    (dispatch u data client t.value).run s [] = .ok () s [] [unknownError t client] := by
  rcases ht with rfl | rfl <;> rfl

/-- The error for an error is answered by itself. -/
theorem echo_unknownError : Echo s (unknownError .ERROR client) := by
  intro u
  exact ⟨s, run_dispatch_unknown (.inl rfl), .refl s⟩

theorem unknownError_fits (client : SockAddr) {t : PTYPE} (ht : IsUnknown t) :
    Fits (unknownError t client).body ∧ (unknownError t client).body.Valid := by
  have hreply : reply .init ⟨0, 0⟩ .nil client t.value = some (unknownError t client) := by
    rcases ht with rfl | rfl <;> rfl
  exact reply_fits hreply

/-- **A reply of the same type as its request is answered by itself**, in the state that its handler has left. -/
theorem echo_of_reply {u : Uninit} {data : Obj} {packetType : UInt8} {s' : Server} {held : List Mutex}
    {out : List Datagram} (hrun : (dispatch u data client packetType).run s [] = .ok () s' held out) {r : Datagram}
    (hr : r ∈ out) (ht : IsEcho r.packetType) : Echo s' r ∧ Fits r.body ∧ r.body.Valid := by
  have hsends := sends_of_run hrun
  rw [sends_dispatch] at hsends
  rw [← hsends] at hr
  rcases List.mem_append.mp hr with hr | hr
  · rw [packetType_of_mem_passedOn hr] at ht
    rcases ht with ht | ht | ht <;> cases ht
  · refine ⟨?_, reply_fits (Option.mem_toList.mp hr)⟩
    rcases reply_cases (Option.mem_toList.mp hr) with ⟨_, _, rfl⟩ | ⟨rfl, id, rfl⟩ | ⟨rfl, packet, hc, hlive, rfl⟩ |
      ⟨rfl, packet, hc, hlive, hsay, rfl⟩
    · rcases ht with ht | ht | ht <;> cases ht
    · rw [dispatch_connect] at hrun
      exact echo_of_connect hrun (by simpa [reply] using hr)
    · cases (run_listUsersHandler hc hlive).symm.trans hrun
      exact echo_listUsersReply (by simpa using hlive) (ServerState.mem_getSessionAccountName.mpr (.inl rfl))
    · cases (run_sendPlayerCommandHandler hc hlive hsay).symm.trans hrun
      exact echo_commandReply hlive

/-! ## Datagrams on their way to the server -/

/-- The server, and what is on its way to it. -/
structure Config where
  server : Server
  inFlight : List InFlight

namespace Config

/-- The step: which datagram is handled, and what the receive buffer and the packet of the handler hold before. -/
structure Act where
  index : Nat
  u : Uninit
  buffer : PacketBuffer

/-- The datagram that is received. -/
def packet (c : Config) (a : Act) : Option Packet :=
  c.inFlight[a.index]?.map fun f => ⟨receivePacketFrom f.data a.buffer, f.source⟩

variable (mp : Msgpack)

/-- What the handling of a datagram leaves and sends. -/
def handled (c : Config) (a : Act) : Option (Server × List Datagram) := do
  match (handlePacket mp a.u (← c.packet a)).run c.server [] with
  | .ok _ s _ out => some (s, out)
  | _ => none

/-- What is sent to the server itself. -/
def toItself (addr : SockAddr) (out : List Datagram) : List InFlight :=
  (out.filter (·.dest = addr)).map fun d => ⟨addr, d.data mp⟩

/-- A datagram is handled, and what is sent to the server itself is on its way. -/
def step (addr : SockAddr) (c : Config) (a : Act) : Option Config :=
  (c.handled mp a).map fun r => ⟨r.1, c.inFlight.eraseIdx a.index ++ toItself mp addr r.2⟩

/-- The same tables, and the same datagrams on their way. -/
def Same (c c' : Config) : Prop := SameTables c.server c'.server ∧ c.inFlight.Perm c'.inFlight

/-- A datagram that `GetDataFromPacket` does not throw at, for some content of the buffer. -/
def Readable (data : Bytes) : Prop := ∃ b, getDataFromPacket mp (receivePacketFrom data b) ≠ none

/-- The step sends the server itself a packet that it can read. -/
def SendsItself (addr : SockAddr) (c : Config) (a : Act) : Prop :=
  ∃ r ∈ c.handled mp a, ∃ d ∈ r.2, d.dest = addr ∧ Readable mp (d.data mp)

/-- A run of the server on its own comes back to a configuration that it has left. -/
def Returns (addr : SockAddr) (c : Config) : Prop :=
  ∃ tr c₁ tr' c₂, Run (step mp addr) c tr c₁ ∧ Run (step mp addr) c₁ tr' c₂ ∧ tr' ≠ [] ∧ Same c₁ c₂

variable {mp} {addr : SockAddr} {c c' : Config} {a : Act}

/-! ## What a step takes and adds -/

/-- The datagram that is handled can be read, and what is read is dispatched. -/
theorem handled_eq_some {s : Server} {out : List Datagram} (h : c.handled mp a = some (s, out)) :
    ∃ f packetType data held, c.inFlight[a.index]? = some f ∧
      getDataFromPacket mp (receivePacketFrom f.data a.buffer) = some (packetType, data) ∧
      (dispatch a.u data f.source packetType).run c.server [] = .ok () s held out := by
  obtain ⟨p, hp, hrun⟩ := Option.bind_eq_some_iff.mp h
  obtain ⟨f, hf, rfl⟩ := Option.map_eq_some_iff.mp hp
  split at hrun
  case h_2 => cases hrun
  rename_i held out' hrun'
  cases hrun
  unfold handlePacket at hrun'
  split at hrun'
  · cases hrun'
  · rename_i packetType data hread
    exact ⟨f, packetType, data, held, hf, hread, hrun'⟩

/-- A datagram that is read and dispatched is handled. -/
theorem handled_of_dispatch {k : Nat} {f : InFlight} (hf : c.inFlight[k]? = some f) {b : PacketBuffer}
    {packetType : UInt8} {data : Obj}
    (hread : getDataFromPacket mp (receivePacketFrom f.data b) = some (packetType, data)) {u : Uninit}
    {s : Server} {held : List Mutex} {out : List Datagram}
    (hrun : (dispatch u data f.source packetType).run c.server [] = .ok () s held out) :
    c.handled mp ⟨k, u, b⟩ = some (s, out) := by
  simp only [handled, packet, hf, Option.map_some, Option.bind_eq_bind, Option.bind_some, handlePacket, hread, hrun]

theorem step_of_handled (addr : SockAddr) {s : Server} {out : List Datagram} (h : c.handled mp a = some (s, out)) :
    step mp addr c a = some ⟨s, c.inFlight.eraseIdx a.index ++ toItself mp addr out⟩ := by
  rw [step, h]
  rfl

theorem mem_toItself {out : List Datagram} {f : InFlight} :
    f ∈ toItself mp addr out ↔ ∃ d ∈ out, d.dest = addr ∧ f = ⟨addr, d.data mp⟩ := by
  simp [toItself, and_assoc, eq_comm]

/-! ## Without packets to itself -/

open Classical in
/-- The number of datagrams on their way that can be read. -/
noncomputable def readable (mp : Msgpack) (c : Config) : Nat := c.inFlight.countP fun f => Readable mp f.data

theorem readable_of_same (mp : Msgpack) (h : Same c c') : c.readable mp = c'.readable mp := h.2.countP_eq _

/-- Every step takes a datagram that can be read. One that sends no such packet to the server itself adds none. -/
theorem readable_of_step (h : step mp addr c a = some c') (hno : ¬SendsItself mp addr c a) :
    c'.readable mp + 1 = c.readable mp := by
  classical
  obtain ⟨⟨s, out⟩, hr, rfl⟩ := Option.map_eq_some_iff.mp h
  obtain ⟨f, packetType, data, _, hf, hread, _⟩ := handled_eq_some hr
  have hreadable : Readable mp f.data := ⟨a.buffer, by simp [hread]⟩
  have htaken := countP_eraseIdx (p := fun f => Readable mp f.data) hf
  rw [if_pos (by simpa using hreadable)] at htaken
  have hadded : (toItself mp addr out).countP (fun f => Readable mp f.data) = 0 := by
    refine List.countP_eq_zero.mpr fun f' hf' => ?_
    obtain ⟨d, hd, hdest, rfl⟩ := mem_toItself.mp hf'
    intro hdata
    exact hno ⟨_, hr, d, hd, hdest, of_decide_eq_true hdata⟩
  rw [readable, readable, List.countP_append, hadded, ← htaken]

theorem readable_of_run {tr : List (Config × Act)} (h : Run (step mp addr) c tr c')
    (hno : ∀ x ∈ tr, ¬SendsItself mp addr x.1 x.2) : c'.readable mp + tr.length = c.readable mp := by
  induction h with
  | init => rfl
  | @step tr c₁ c₂ a _ hst ih =>
    have hstep := readable_of_step hst (hno (c₁, a) (by simp))
    have hrun := ih fun x hx => hno x (List.mem_append_left _ hx)
    rw [List.length_append, List.length_singleton]
    omega

/-! ## With a packet to itself -/

/-- A packet on its way that is answered by itself leads back to the configuration. -/
theorem same_of_echo (mp : Msgpack) [mp.Lawful] {r : Datagram} (hecho : Echo c.server r) (hfit : Fits r.body)
    (hvalid : r.body.Valid) (hmem : ⟨r.dest, r.data mp⟩ ∈ c.inFlight) : ∃ a c', step mp r.dest c a = some c' ∧ Same c c' := by
  obtain ⟨k, hk, hget⟩ := List.getElem_of_mem hmem
  have hf : c.inFlight[k]? = some ⟨r.dest, r.data mp⟩ := by rw [List.getElem?_eq_getElem hk, hget]
  have hread := getDataFromPacket_fits mp hfit hvalid fun _ => 0
  obtain ⟨s', hrun, hsame⟩ := hecho ⟨0, 0⟩
  have hst := step_of_handled r.dest (handled_of_dispatch hf hread hrun)
  refine ⟨_, _, hst, hsame, ?_⟩
  have htoItself : toItself mp r.dest [r] = [c.inFlight[k]] := by simp [toItself, hget]
  rw [htoItself]
  exact (List.getElem_cons_eraseIdx_perm hk).symm.trans (List.perm_append_singleton _ _).symm

/-- A packet of a type that the server does not know is answered with an error. -/
theorem step_unknown {d : Datagram} (ht : IsUnknown d.packetType) (hread : Readable mp (d.data mp))
    (hmem : ⟨addr, d.data mp⟩ ∈ c.inFlight) : ∃ a c', step mp addr c a = some c' ∧
      ⟨addr, (unknownError d.packetType addr).data mp⟩ ∈ c'.inFlight := by
  obtain ⟨k, hk, hget⟩ := List.getElem_of_mem hmem
  have hf : c.inFlight[k]? = some ⟨addr, d.data mp⟩ := by rw [List.getElem?_eq_getElem hk, hget]
  obtain ⟨b, hb⟩ := hread
  obtain ⟨⟨packetType, data⟩, hr⟩ := Option.ne_none_iff_exists'.mp hb
  obtain rfl := packetType_of_getDataFromPacket hr
  have hst := step_of_handled addr (handled_of_dispatch (u := ⟨0, 0⟩) hf hr (run_dispatch_unknown ht))
  refine ⟨_, _, hst, List.mem_append_right _ (mem_toItself.mpr ⟨_, List.mem_singleton_self _, rfl, rfl⟩)⟩

/-- A packet that the server does not know and sends to itself comes back as an error, and the error for the error is
answered by itself. -/
theorem returns_of_unknown [mp.Lawful] {d : Datagram} (ht : IsUnknown d.packetType) (hread : Readable mp (d.data mp))
    (hmem : ⟨addr, d.data mp⟩ ∈ c.inFlight) : Returns mp addr c := by
  have hreadError {t : PTYPE} (ht : IsUnknown t) : Readable mp ((unknownError t addr).data mp) := by
    obtain ⟨hfit, hvalid⟩ := unknownError_fits addr ht
    exact ⟨fun _ => 0, by rw [getDataFromPacket_fits mp hfit hvalid]; simp⟩
  obtain ⟨a₁, c₁, h₁, hmem₁⟩ := step_unknown ht hread hmem
  obtain ⟨a₂, c₂, h₂, hmem₂⟩ := step_unknown (d := unknownError d.packetType addr) (.inl rfl) (hreadError ht) hmem₁
  obtain ⟨hfit, hvalid⟩ := unknownError_fits addr (.inl rfl)
  obtain ⟨a₃, c₃, h₃, hsame⟩ := same_of_echo mp (r := unknownError .ERROR addr) echo_unknownError hfit hvalid hmem₂
  exact ⟨_, c₂, _, c₃, (Run.init.step h₁).step h₂, Run.init.step h₃, by simp, hsame⟩

/-- **A packet that the server sends to itself, and can read, leads back to a configuration that was left.** -/
theorem returns_of_sendsItself [mp.Lawful] (h : step mp addr c a = some c') (hC : SendsItself mp addr c a) :
    Returns mp addr c' := by
  obtain ⟨⟨s, out⟩, hr, d, hd, rfl, hread⟩ := hC
  rw [step_of_handled d.dest hr] at h
  cases h
  obtain ⟨_, _, _, _, _, _, hrun⟩ := handled_eq_some hr
  have hmem : ⟨d.dest, d.data mp⟩ ∈ c.inFlight.eraseIdx a.index ++ toItself mp d.dest out :=
    List.mem_append_right _ (mem_toItself.mpr ⟨d, hd, rfl, rfl⟩)
  rcases packetType_of_mem_out hrun hd with ht | ht
  · obtain ⟨hecho, hfit, hvalid⟩ := echo_of_reply hrun hd ht
    obtain ⟨a', c'', hst, hsame⟩ := same_of_echo mp (c := ⟨s, _⟩) hecho hfit hvalid hmem
    exact ⟨[], _, _, c'', .init, Run.init.step hst, by simp, hsame⟩
  · exact returns_of_unknown ht hread hmem

/-- **The server answers its own packets for ever** exactly if it comes to send itself a packet that it can read. Until
then, every step leaves one readable datagram fewer. -/
theorem returns_iff [mp.Lawful] (addr : SockAddr) (c : Config) :
    (Returns mp addr c ↔
      ∃ tr c₁ a c₂, Run (step mp addr) c tr c₁ ∧ step mp addr c₁ a = some c₂ ∧ SendsItself mp addr c₁ a) ∧
    ∀ tr c', Run (step mp addr) c tr c' → (∀ x ∈ tr, ¬SendsItself mp addr x.1 x.2) →
      c'.readable mp + tr.length = c.readable mp := by
  refine ⟨⟨?_, ?_⟩, fun tr c' hr hno => readable_of_run hr hno⟩
  · rintro ⟨tr, c₁, tr', c₂, hr, hr', hne, hsame⟩
    by_contra hnot
    have hno : ∀ x ∈ tr', ¬SendsItself mp addr x.1 x.2 := by
      intro x hx hC
      obtain ⟨tr'', c₃, hx', _, hst⟩ := hr'.mem hx
      exact hnot ⟨_, x.1, x.2, c₃, hr.trans hx', hst, hC⟩
    have hlen := readable_of_run hr' hno
    have hpos := List.length_pos_iff.mpr hne
    have heq := readable_of_same mp hsame
    omega
  · rintro ⟨tr, c₁, a, c₂, hr, hst, hC⟩
    obtain ⟨tr', c₃, tr'', c₄, hr', hr'', hne, hsame⟩ := returns_of_sendsItself hst hC
    exact ⟨_, c₃, tr'', c₄, (hr.step hst).trans hr', hr'', hne, hsame⟩

/-- The address of the server. -/
def itself : SockAddr := ⟨0x7f000001, 1337⟩

/-- Session 1 is live, and the response to its empty command is on its way to the server itself. -/
def echoing : Config where
  server := { Server.init with serverState := { ServerState.init with sessions := {1}, curSession := 2 } }
  inFlight := [⟨itself, (commandReply itself ⟨1, 1, []⟩).data .reference⟩]

theorem returns_echoing : Returns .reference itself echoing := by
  have hlive : (1 : Int32) ∈ echoing.server.serverState.sessions := Finset.mem_singleton_self _
  have hecho : Echo echoing.server (commandReply itself ⟨1, 1, []⟩) := echo_commandReply hlive
  obtain ⟨s, hrun, _⟩ := hecho ⟨0, 0⟩
  have hfit : Fits (commandReply itself ⟨1, 1, []⟩).body := by decide
  have hread := getDataFromPacket_fits .reference hfit (valid_of_fits hfit) fun _ => 0
  have hf : echoing.inFlight[0]? = some ⟨itself, (commandReply itself ⟨1, 1, []⟩).data .reference⟩ := rfl
  have hhandled := handled_of_dispatch hf hread hrun
  exact (returns_iff itself echoing).1.mpr ⟨[], echoing, _, _, .init, step_of_handled itself hhandled, _, hhandled, _,
    List.mem_singleton_self _, rfl, _, by rw [hread]; simp⟩

/-- The response to a player command of session 1 claims to come from the server, which answers it with itself. -/
theorem not_never_same :
    ¬∀ (N : Nat) (tr : List (Sessions.Workers N × Sessions.Act N)) (p : Sessions.Workers N),
      Run Sessions.Workers.step (Sessions.Workers.init N) tr p → p.Quiescent →
      ∀ addr inFlight tr' c', Run (step .reference addr) ⟨p.shared, inFlight⟩ tr' c' → tr' ≠ [] →
        ¬Same ⟨p.shared, inFlight⟩ c' := by
  intro hall
  obtain ⟨tr, p, hr, hrest, hs⟩ := Sessions.run_connect
  let command : Sendplayercommand := ⟨1, 1, []⟩
  have hlive : command.sessionId ∈ p.shared.serverState.sessions := by
    rw [hs]
    exact Finset.mem_singleton_self _
  have hecho : Echo p.shared (commandReply itself command) := echo_commandReply hlive
  have hmem : ⟨itself, (commandReply itself command).data .reference⟩ ∈
      [InFlight.mk itself ((commandReply itself command).data .reference)] := List.mem_cons_self
  have hfit : Fits (commandReply itself command).body := by decide
  obtain ⟨a, c', hst, hsame⟩ := same_of_echo .reference (c := ⟨p.shared, _⟩) hecho hfit (valid_of_fits hfit) hmem
  exact hall Queue.NUM_WORKER_THREADS tr p hr hrest.quiescent itself _ _ c' (Run.init.step hst) (by simp) hsame

end Config

end Celegraph.Server
