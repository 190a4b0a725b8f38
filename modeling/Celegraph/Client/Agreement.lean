import Celegraph.Client.Endpoint
import Celegraph.Client.Sent
import Celegraph.Server.Replies
import Celegraph.Sessions.Teardown

/-!
# Client and server on replies

What the server answers to the requests of the client, against what the client makes of the answers.

- `answers`: what the handling of a packet sends back to its source. It is the reply (`answers_eq`).
- `Handles`: the client goes on after a packet; no exception escapes.
- A request is answered, and the client goes on, exactly if it is `Answerable` (`agrees_iff`). A `LISTUSERS` of a
  session that is not live is answered with an error, which the client takes for a list of users.
-/

namespace Celegraph.Client

open CxxString Packets Utils Runs Server
open MessagePack (Obj)

/-! ## The server -/

/-- What is sent back to the source of a packet. -/
def answers (mp : Msgpack) (s : Server) (u : Uninit) (packet : Packet) : List Datagram :=
  ((handlePacket mp u packet).sends s []).filter fun d =>
    d.dest = packet.source ∧ d.packetType ≠ .SENDSERVERCOMMAND

variable {mp : Msgpack} {s : Server} {u : Uninit} {source : SockAddr} {d : Datagram}

theorem answers_eq {packet : Packet} {packetType : UInt8} {data : Obj}
    (h : getDataFromPacket mp packet.data = some (packetType, data)) :
    answers mp s u packet = (reply s u data packet.source packetType).toList := by
  rw [answers, handlePacket, h]
  have hpassed : (passedOn s u data packetType).filter
      (fun d => d.dest = packet.source ∧ d.packetType ≠ .SENDSERVERCOMMAND) = [] :=
    List.filter_eq_nil_iff.mpr fun d hd => by simp [packetType_of_mem_passedOn hd]
  simp only [sends_dispatch, List.filter_append, hpassed, List.nil_append]
  refine List.filter_eq_self.mpr fun d hd => ?_
  simpa using reply_dest (Option.mem_toList.mp hd)

theorem getDataFromPacket_received [mp.Lawful] {packetType : PTYPE} {body : Obj} (hfit : Fits body)
    (hvalid : body.Valid) (dest : SockAddr) (buffer : PacketBuffer) (source : SockAddr) :
    getDataFromPacket mp (received mp ⟨packetType, body, dest⟩ buffer source).data =
      some (packetType.value, body) :=
  getDataFromPacket_fits mp (d := ⟨packetType, body, dest⟩) hfit hvalid buffer

/-! ## The client -/

/-- The client goes on after a packet, whatever its buffers hold. -/
def Handles (mp : Msgpack) (server : SockAddr) (c : Client) (d : Datagram) : Prop :=
  ∀ u buffer source, ∃ c', c.step mp server (.packet u (received mp d buffer source)) = some (c', none) ∧
    c'.loc ≠ .terminated

variable {server : SockAddr} {c : Client}

theorem handles_iff {after : Uninit → Packet → Client}
    (hst : ∀ u p, c.step mp server (.packet u p) = some (after u p, none)) :
    Handles mp server c d ↔ ∀ u buffer source, (after u (received mp d buffer source)).loc ≠ .terminated := by
  refine forall_congr' fun u => forall_congr' fun buffer => forall_congr' fun source => ?_
  rw [hst]
  constructor
  · rintro ⟨c', h, hloc⟩
    cases h
    exact hloc
  · exact fun h => ⟨_, rfl, h⟩

theorem handles_connectReply [mp.Lawful] (hloc : c.loc = .connectReply) (id : Int32) (dest : SockAddr) :
    Handles mp server c (connectReply id dest) := by
  rw [handles_iff (step_connectReply hloc)]
  intro u buffer source
  have hget : getDataFromPacket mp (received mp (connectReply id dest) buffer source).data = some
      (PTYPE.CONNECT.value, Connect.pack ⟨0, id⟩) :=
    getDataFromPacket_received (fits_connect ⟨0, id⟩) (Connect.valid_pack _) dest buffer source
  simp only [connectPacket, hget, ne_eq, not_true_eq_false, if_false, Connect.convert_pack]
  exact Loc.noConfusion

/-- In state 2 the client takes every packet for a list of users. -/
theorem handles_listReply_iff [mp.Lawful] {list : Obj} (hloc : c.loc = .listReply list) (hfit : Fits d.body)
    (hvalid : d.body.Valid) : Handles mp server c d ↔ ∀ u, (Listusers.convert u d.body).isSome := by
  rw [handles_iff (step_listReply hloc)]
  refine forall_congr' fun u => ?_
  have hget := getDataFromPacket_fits mp hfit hvalid
  cases hconv : Listusers.convert u d.body with
  | none =>
    simp only [Option.isSome_none, Bool.false_eq_true, iff_false, not_forall, not_not]
    exact ⟨fun _ => 0, server, by simp only [listUsersPacket, received, hget, hconv]⟩
  | some userList =>
    refine iff_of_true (fun buffer source => ?_) rfl
    simp only [listUsersPacket, received, hget, hconv]
    split <;> exact Loc.noConfusion

/-- In state 3 the client takes every packet for the answer to a command. -/
theorem handles_commandReply_iff [mp.Lawful] (hloc : c.loc = .commandReply) (hfit : Fits d.body)
    (hvalid : d.body.Valid) : Handles mp server c d ↔ ∀ u, (Sendplayercommand.convert u d.body).isSome := by
  rw [handles_iff (step_commandReply hloc)]
  refine forall_congr' fun u => ?_
  have hget := getDataFromPacket_fits mp hfit hvalid
  cases hconv : Sendplayercommand.convert u d.body with
  | none =>
    simp only [Option.isSome_none, Bool.false_eq_true, iff_false, not_forall, not_not]
    exact ⟨fun _ => 0, server, by simp only [commandPacket, received, hget, hconv]⟩
  | some response =>
    refine iff_of_true (fun buffer source => ?_) rfl
    simp only [commandPacket, received, hget, hconv]
    exact Loc.noConfusion

/-! ## Together -/

/-- The request is answered by one packet, and the client goes on after it. -/
def Agrees (mp : Msgpack) (server : SockAddr) (s : Server) (u : Uninit) (packet : Packet) (c : Client) : Prop :=
  ∃ d, answers mp s u packet = [d] ∧ Handles mp server c d

/-- The requests on which client and server agree: a new session has a number left, a user list is asked for by a live
session, a command fits into a packet. -/
def Answerable (s : Server) : Message → Prop
  | .connect packet =>
    packet.sessionId ∈ s.serverState.sessions ∨ s.serverState.curSession ≠ Int32.maxValue
  | .listUsers p => p.sessionId ∈ s.serverState.sessions
  | .sendPlayerCommand playerCommand => Fits playerCommand.pack
  | .createUser _ => True

/-- The text of an error is no list of users. -/
theorem convert_invalidSessionError (u : Uninit) : Listusers.convert u (invalidSessionError source).body = none := by
  simp [invalidSessionError, errorTo, Error.pack, Listusers.convert, member, convertStrings]

/-- A packet that is read has the reply for its one answer. -/
theorem agrees_iff_reply {packet : Packet} {packetType : UInt8} {data : Obj}
    (h : getDataFromPacket mp packet.data = some (packetType, data)) :
    Agrees mp server s u packet c ↔ ∃ d, reply s u data packet.source packetType = some d ∧ Handles mp server c d := by
  refine exists_congr fun d => and_congr_left fun _ => ?_
  rw [answers_eq h]
  exact Option.toList_eq_singleton_iff

theorem reply_connect (s : Server) (u : Uninit) (source : SockAddr) (p : Connect) :
    reply s u p.pack source PTYPE.CONNECT.value =
    (s.serverState.generateSession p.sessionId).1.map fun newSession => connectReply newSession source := by
  simp [reply, connectAnswer]

theorem reply_listUsers (s : Server) (u : Uninit) (source : SockAddr) (p : Listusers) :
    reply s u p.pack source PTYPE.LISTUSERS.value =
    if p.sessionId ∈ s.serverState.sessions then some (listUsersReply source p)
    else some (invalidSessionError source) := by
  simp [reply, sessionReply]

theorem reply_playerCommand (s : Server) (u : Uninit) (source : SockAddr) (p : Sendplayercommand) :
    reply s u p.pack source PTYPE.SENDPLAYERCOMMAND.value =
    if p.sessionId ∈ s.serverState.sessions then
      if SayComplete p.command then some (commandReply source p) else none
    else some (invalidSessionError source) := by
  simp [reply, sessionReply]

variable {c' : Client} {a : Input} {x : Sending} {dest : SockAddr} {buffer : PacketBuffer}

theorem agrees_connect_iff [mp.Lawful] (hloc : c.loc = .connectReply) (p : Connect) :
    Agrees mp server s u (received mp ⟨.CONNECT, p.pack, dest⟩ buffer source) c ↔ Answerable s (.connect p) := by
  rw [agrees_iff_reply (getDataFromPacket_received (fits_connect p) (Connect.valid_pack p) dest buffer source)]
  rw [reply_connect]
  rcases s.serverState.generateSession_cases p.sessionId with ⟨hlive, hg⟩ | ⟨hlive, hmax, hg⟩ | ⟨_, hmax, hg⟩ <;> rw [hg]
  · exact iff_of_true ⟨_, rfl, handles_connectReply hloc _ _⟩ (.inl hlive)
  · refine iff_of_false ?_ (not_or.mpr ⟨hlive, not_not.mpr hmax⟩)
    rintro ⟨_, h, _⟩
    cases h
  · exact iff_of_true ⟨_, rfl, handles_connectReply hloc _ _⟩ (.inr hmax)

theorem agrees_listUsers_iff [mp.Lawful] {list : Obj} (hloc : c.loc = .listReply list) {p : Listusers}
    (hp : p.users = []) :
    Agrees mp server s u (received mp ⟨.LISTUSERS, p.pack, dest⟩ buffer source) c ↔ Answerable s (.listUsers p) := by
  have hfit : Fits p.pack := by
    rw [Listusers.pack, hp]
    exact fits_members _ _ (by decide) (by decide)
  have hvalid : p.pack.Valid := Listusers.valid_pack (by simp [hp]) (by simp [hp])
  rw [agrees_iff_reply (getDataFromPacket_received hfit hvalid dest buffer source)]
  have hreply := reply_listUsers s u source p
  by_cases hlive : p.sessionId ∈ s.serverState.sessions
  · refine iff_of_true ⟨_, hreply.trans (if_pos hlive), ?_⟩ hlive
    obtain ⟨hfit', hvalid'⟩ := reply_fits (hreply.trans (if_pos hlive))
    refine (handles_listReply_iff hloc hfit' hvalid').mpr fun u => ?_
    simp [listUsersReply]
  · refine iff_of_false ?_ hlive
    rintro ⟨d, hd, hhandles⟩
    obtain ⟨hfit', hvalid'⟩ := reply_fits hd
    have herr : invalidSessionError source = d := Option.some.inj ((hreply.trans (if_neg hlive)).symm.trans hd)
    subst herr
    have hconv := (handles_listReply_iff hloc hfit' hvalid').mp hhandles ⟨0, 0⟩
    simp [convert_invalidSessionError] at hconv

theorem agrees_playerCommand_iff [mp.Lawful] (hloc : c.loc = .commandReply) {p : Sendplayercommand}
    (hpack : Packable p.command) (hsay : SayComplete p.command) :
    Agrees mp server s u (received mp ⟨.SENDPLAYERCOMMAND, p.pack, dest⟩ buffer source) c ↔
      Answerable s (.sendPlayerCommand p) := by
  have hvalid : p.pack.Valid := valid_textBody hpack
  by_cases hfit : Fits p.pack
  · rw [agrees_iff_reply (getDataFromPacket_received hfit hvalid dest buffer source)]
    refine iff_of_true ?_ hfit
    have hreply := reply_playerCommand s u source p
    rw [if_pos hsay] at hreply
    split_ifs at hreply with hlive
    · obtain ⟨hfit', hvalid'⟩ := reply_fits hreply
      refine ⟨_, hreply, (handles_commandReply_iff hloc hfit' hvalid').mpr fun u => ?_⟩
      simp [commandReply]
    · obtain ⟨hfit', hvalid'⟩ := reply_fits hreply
      refine ⟨_, hreply, (handles_commandReply_iff hloc hfit' hvalid').mpr fun u => ?_⟩
      simp [invalidSessionError, errorTo, Error.pack, Sendplayercommand.convert, member, convertString]
  · refine iff_of_false ?_ hfit
    rintro ⟨d, hd, _⟩
    have hnone : getDataFromPacket mp (received mp ⟨.SENDPLAYERCOMMAND, p.pack, dest⟩ buffer source).data = none :=
      getDataFromPacket_of_not_fits mp (d := ⟨.SENDPLAYERCOMMAND, p.pack, dest⟩) hfit hvalid buffer
    rw [answers, handlePacket, hnone] at hd
    cases hd

/-- **Client and server agree on the reply to a request** exactly if it is answerable in the state that the server is
in when it handles it. -/
theorem agrees_iff [mp.Lawful] (h : c.step mp server a = some (c', some x)) (hcreate : ¬CreatesUser c a)
    (hsay : ∀ p, x.built = .sendPlayerCommand p → SayComplete p.command) (s : Server) (u : Uninit)
    (buffer : PacketBuffer) (source : SockAddr) :
    Agrees mp server s u (received mp x.datagram buffer source) c' ↔ Answerable s x.built := by
  cases step_sound h with
  | connect _ _ _ hs =>
    obtain ⟨_⟩ := hs
    exact agrees_connect_iff rfl _
  | listUsers _ hs =>
    obtain ⟨_⟩ := hs
    exact agrees_listUsers_iff rfl rfl
  | command command _ _ hpack hs =>
    obtain ⟨_⟩ := hs
    exact agrees_playerCommand_iff rfl hpack (hsay _ rfl)
  | lastName list firstName lastName hloc hfirst hlast =>
    exact absurd ⟨list, firstName, hloc, hfirst, hlast⟩ hcreate

/-- A client with session 1, before it asks for the list of users, and after. -/
def beforeList : Client := ⟨1, 2, .listUsers⟩

def listRequest : Message := beforeList.listUsersRequest

def awaitsList : Client := ⟨1, 3, .listReply listRequest.pack⟩

theorem step_beforeList : beforeList.step .reference localServer .run =
    some (awaitsList, some ⟨listRequest, .LISTUSERS, listRequest.pack, localServer⟩) := rfl

theorem run_beforeList : ∃ tr l, Run (Log.step .reference localServer) Log.init tr l ∧ l.client = beforeList := by
  obtain ⟨l, hl, hc⟩ : ∃ l, exec (Log.step .reference localServer) Log.init
      [.line (text "y"), fromServer .CONNECT (Connect.pack ⟨0, 1⟩), .run] = some l ∧ l.client = beforeList :=
    ⟨_, rfl, rfl⟩
  obtain ⟨tr, hr, _⟩ := Run.of_exec hl
  exact ⟨tr, l, hr, hc⟩

/-- While its session is live, the client is told the users. -/
theorem agrees_beforeList :
    Agrees .reference localServer Sessions.afterConnect ⟨0, 0⟩
      (received .reference ⟨.LISTUSERS, listRequest.pack, localServer⟩ (fun _ => 0) Sessions.localClient) awaitsList :=
  (agrees_iff step_beforeList id (fun _ h => Message.noConfusion h) Sessions.afterConnect ⟨0, 0⟩ (fun _ => 0)
    Sessions.localClient).mpr (by decide : (1 : Int32) ∈ Sessions.afterConnect.serverState.sessions)

/-- Another client ends session 1 before the request is handled: the error is no list of users. -/
theorem not_agrees :
    ¬∀ (N : Nat) (tr : List (Sessions.Workers N × Sessions.Act N)) (p : Sessions.Workers N),
      Run Sessions.Workers.step (Sessions.Workers.init N) tr p → p.Quiescent →
      ∀ (server : SockAddr) (ctr : List (Log × Input)) (l : Log), Run (Log.step .reference server) Log.init ctr l →
      ∀ a c' x, l.client.step .reference server a = some (c', some x) → ¬CreatesUser l.client a →
        (∀ command, x.built = .sendPlayerCommand command → SayComplete command.command) →
        ∀ u buffer source, Agrees .reference server p.shared u (received .reference x.datagram buffer source) c' := by
  intro hall
  obtain ⟨tr, p, hr, hrest, _, hlive⟩ := Sessions.run_disconnect ⟨0x7f000001, 40009⟩
  obtain ⟨ctr, l, hl, hc⟩ := run_beforeList
  have hagrees := hall Queue.NUM_WORKER_THREADS tr p hr hrest.quiescent localServer ctr l hl .run
  rw [hc] at hagrees
  have := hagrees _ _ step_beforeList id (fun _ h => Message.noConfusion h) ⟨0, 0⟩ (fun _ => 0) Sessions.localClient
  exact hlive ((agrees_listUsers_iff (by rfl) (by rfl)).mp this)

end Celegraph.Client
