import Celegraph.Server.Outgoing
import Celegraph.Threads.Linear

/-!
# What the server sends, and to whom

- `no_strangers`: an address gets no more answers than packets came from it, and messages only if it has connected.
- `sent_is_received`: all that the server sends is received as it was sent, or not at all; only a message can be too
  long to be received.

Both follow from what the threads have sent and can still send (`bounded_of_run`, `outgoing_of_run`).
-/

namespace Celegraph.Threads

open CxxString Packets Utils Server Runs
open Queue (Thread NUM_WORKER_THREADS)

variable {N : Nat} {mp : Msgpack} {s s' : State N} {tr : List (State N × Act N)}

/-! ## Answers -/

/-- The packet is sent to the address, and is no message of another client. -/
def IsAnswer (a : SockAddr) (d : Datagram) : Bool := d.dest = a && d.packetType ≠ .SENDSERVERCOMMAND

/-- The packet came from the address. -/
def ComesFrom (a : SockAddr) (job : Job) : Bool := job.2.source = a

theorem countP_sentTo (a : SockAddr) (command : Bytes) (conns : List (Int32 × SockAddr)) :
    (sentTo command conns).countP (IsAnswer a) = 0 := by
  rw [List.countP_eq_zero]
  intro d hd
  obtain ⟨conn, _, rfl⟩ := List.mem_map.mp hd
  simp [IsAnswer, serverCommand]

/-- A handler answers once at most, and only the source of its packet. -/
theorem countP_handlePacket {u : Uninit} {p : Packet} {ds : List Datagram} (h : (handlePacket mp u p).MaySend ds)
    (a : SockAddr) : ds.countP (IsAnswer a) ≤ [(u, p)].countP (ComesFrom a) := by
  unfold handlePacket at h
  split at h
  · obtain rfl : ds = [] := h
    exact Nat.zero_le _
  · obtain ⟨ds₁, ds₂, rfl, hanswer, hpassed⟩ := maySend_dispatch h
    have hmessages : ds₁.countP (IsAnswer a) = 0 := by
      rcases hpassed with rfl | ⟨_, rfl | ⟨packet, relay, conns, _, _, _, rfl⟩⟩
      · rfl
      · rfl
      · exact countP_sentTo a _ _
    rw [List.countP_append, hmessages, Nat.zero_add]
    rcases hanswer with rfl | ⟨d, rfl, hdest, _⟩
    · exact Nat.zero_le _
    · have hsame : IsAnswer a d = true → ComesFrom a (u, p) = true := fun h => by
        simpa [ComesFrom, ← hdest] using (Bool.and_eq_true_iff.mp h).1
      rw [List.countP_singleton, List.countP_singleton]
      split
      · rw [if_pos (hsame ‹_›)]
      · exact Nat.zero_le _

/-- The commands of the admin answer nobody. -/
theorem countP_code {action : AdminShell.Action} {ds : List Datagram} (h : action.code.MaySend ds) (a : SockAddr) :
    ds.countP (IsAnswer a) ≤ 0 := by
  cases action with
  | broadcastToConnections msg =>
    obtain ⟨conns, _, rfl⟩ := maySend_broadcastToConnections h
    exact (countP_sentTo a _ _).le
  | sendMessageToConnection msg toUser =>
    obtain ⟨conns, _, rfl⟩ := maySend_sendMessageToConnection h
    exact (countP_sentTo a _ _).le
  | _ =>
    obtain rfl : ds = [] := h
    exact le_rfl

/-- The answers sent, and those that the threads can still send, are no more than the packets whose handling was
begun. -/
theorem bounded_of_run (h : Run (step mp) (init N) tr s) (a : SockAddr) : ∃ owed : Thread N → Nat,
    s.pool.Bounded (IsAnswer a) owed ∧
      s.pool.out.countP (IsAnswer a) + ∑ t, owed t ≤ (started tr).countP (ComesFrom a) := by
  induction h with
  | init =>
    refine ⟨fun _ => 0, fun t ds hds => ?_, by simp [init, started]⟩
    obtain rfl : ds = [] := hds
    exact le_rfl
  | @step tr s s' act _ hst ih =>
    obtain ⟨owed, hbounded, hle⟩ := ih
    rw [started_append, List.countP_append]
    rcases pool_step hst with hpool | ⟨i, u, p, rfl, hloc, hpool⟩ | ⟨adminCommand, _, hpool⟩ | ⟨t, _, hpool⟩
    · exact ⟨owed, hpool ▸ hbounded, by rw [hpool]; omega⟩
    · have hstarted : startedBy s (.handle i u) = some (u, p) := by simp only [startedBy, hloc]
      have hsum := Runs.sum_update_add owed (.worker i) ([(u, p)].countP (ComesFrom a))
      have hout : s'.pool.out = s.pool.out := by rw [(Pool.start_eq_some hpool).2]
      refine ⟨_, hbounded.start (fun ds hds => countP_handlePacket hds a) hpool, ?_⟩
      rw [hstarted, hout, Option.toList_some]
      omega
    · have hsum := Runs.sum_update_add owed .shell 0
      have hout : s'.pool.out = s.pool.out := by rw [(Pool.start_eq_some hpool).2]
      refine ⟨_, hbounded.start (fun ds hds => countP_code hds a) hpool, ?_⟩
      rw [hout]
      omega
    · obtain ⟨owed', hbounded', hsum⟩ := hbounded.step hpool
      exact ⟨owed', hbounded', by omega⟩

/-! ## Addresses and texts -/

theorem outgoing_init {A : Set SockAddr} {T : Bytes → Prop} : (init N).pool.Ok (outgoing A T) () where
  inv sessionId dest h := by simp [init, Server.init] at h
  safe _ := trivial
  sent _ h := by cases h
  paid _ h := h.elim

/-- What was sent, and what the threads will send, if the clients that connect are in `A` and the texts are in `T`. -/
theorem outgoing_of_run {A : Set SockAddr} {T : Bytes → Prop} (h : Run (step mp) (init N) tr s)
    (hA : ∀ job ∈ started tr, Registers mp job.1 job.2 → job.2.source ∈ A)
    (hT : ∀ job ∈ started tr, ∀ command, CommandOf mp job.1 job.2 command → ∀ relay,
      relayOf command.command = some relay → T (relayText command.sessionId relay))
    (hadmin : ∀ x ∈ tr, ∀ adminCommand, x.2 = .command adminCommand → ∀ msg,
      AdminShell.action adminCommand = .broadcastToConnections msg ∨
        (∃ toUser, AdminShell.action adminCommand = .sendMessageToConnection msg toUser) →
      T (broadcastText (text "admin") msg) ∧ T (messageText (text "admin") msg)) :
    s.pool.Ok (outgoing A T) () := by
  have hmem {x : State N × Act N} (hx : x ∈ tr) {job : Job} (hjob : startedBy x.1 x.2 = some job) :
      job ∈ started tr := List.mem_filterMap.mpr ⟨x, hx, hjob⟩
  refine h.invariant_where (I := fun s => s.pool.Ok (outgoing A T) ())
    (C := fun s a => (∀ job, startedBy s a = some job → job ∈ started tr) ∧ (s, a) ∈ tr) ?_ ?_
    fun x hx => ⟨fun job => hmem hx, hx⟩
  · exact outgoing_init
  · rintro s a s' hok ⟨hstarted, hin⟩ hst
    rcases pool_step hst with hpool | ⟨i, u, p, rfl, hloc, hpool⟩ | ⟨adminCommand, rfl, hpool⟩ | ⟨t, _, hpool⟩
    · rwa [hpool]
    · have hjob := hstarted (u, p) (by simp only [startedBy, hloc])
      exact hok.start (sending_handlePacket (hA _ hjob) (hT _ hjob)) hpool
    · exact hok.start (sending_code (hadmin _ hin adminCommand rfl)) hpool
    · obtain ⟨_, _, hok'⟩ := hok.step hpool
      exact hok'

/-- **No strangers**: whatever is sent to an address, apart from messages, answers a packet that came from it, and no
packet is answered twice; and messages are sent only to addresses from which a `CONNECT` came. -/
theorem no_strangers (h : Run (step mp) (init N) tr s) :
    (∀ a, s.pool.out.countP (IsAnswer a) ≤ (started tr).countP (ComesFrom a)) ∧
      ∀ d ∈ s.pool.out, d.packetType = .SENDSERVERCOMMAND →
        ∃ job ∈ started tr, Registers mp job.1 job.2 ∧ job.2.source = d.dest := by
  refine ⟨fun a => ?_, fun d hd hmessage => ?_⟩
  · obtain ⟨_, _, hle⟩ := bounded_of_run h a
    omega
  · have hok := outgoing_of_run (A := {a | ∃ job ∈ started tr, Registers mp job.1 job.2 ∧ job.2.source = a})
      (T := fun _ => True) h (fun job hjob hr => ⟨job, hjob, hr, rfl⟩) (fun _ _ _ _ _ _ => trivial)
      fun _ _ _ _ _ _ => ⟨trivial, trivial⟩
    exact ((hok.sent d hd).message hmessage).1

/-- A `CONNECT` is answered, and a broadcast sent. -/
def broadcastSent : List (Act NUM_WORKER_THREADS) := broadcastToOne ++ [.work .shell]

theorem exec_broadcastSent : ∃ tr s, Run (step .reference) (init NUM_WORKER_THREADS) tr s ∧
    tr.map Prod.snd = broadcastSent ∧ s.pool.out = [connectReply 1 connectPacket.source, helloToOne] := by
  obtain ⟨s, hs, hout⟩ : ∃ s, exec (step .reference) (init NUM_WORKER_THREADS) broadcastSent = some s ∧
      s.pool.out = [connectReply 1 connectPacket.source, helloToOne] := ⟨_, rfl, rfl⟩
  obtain ⟨tr, hr, hacts⟩ := Run.of_exec hs
  exact ⟨tr, s, hr, hacts, hout⟩

theorem no_strangers_broadcastSent : ∃ tr s, Run (step .reference) (init NUM_WORKER_THREADS) tr s ∧
    s.pool.out = [connectReply 1 connectPacket.source, helloToOne] ∧
    (∀ a, s.pool.out.countP (IsAnswer a) ≤ (started tr).countP (ComesFrom a)) ∧
      ∀ d ∈ s.pool.out, d.packetType = .SENDSERVERCOMMAND →
        ∃ job ∈ started tr, Registers .reference job.1 job.2 ∧ job.2.source = d.dest := by
  obtain ⟨tr, s, hr, _, hout⟩ := exec_broadcastSent
  exact ⟨tr, s, hr, hout, no_strangers hr⟩

/-! ## What is received -/

/-- A player command that was read from a packet is short. -/
theorem length_command_of_packet [mp.Lawful] {u : Uninit} {packet : Packet} {command : Sendplayercommand}
    (h : CommandOf mp u packet command) : command.command.length ≤ MSGPCK_MAX_PAYLOAD_SIZE := by
  obtain ⟨data, hget, hconvert⟩ := h
  obtain ⟨hlen, hsize⟩ := length_getDataFromPacket hget
  exact (length_command_le hconvert).trans (hlen.trans hsize)

/-- A message of the admin is a part of the line. -/
theorem cString_of_action {adminCommand msg : Bytes}
    (h : AdminShell.action adminCommand = .broadcastToConnections msg ∨
      ∃ toUser, AdminShell.action adminCommand = .sendMessageToConnection msg toUser) :
    ∃ off, cString adminCommand off = some msg := by
  rcases h with h | ⟨toUser, h⟩
  · unfold AdminShell.action at h
    grind
  · unfold AdminShell.action at h
    grind

/-- The admin's texts are little longer than the line. -/
theorem length_adminTexts {adminCommand msg : Bytes}
    (h : AdminShell.action adminCommand = .broadcastToConnections msg ∨
      ∃ toUser, AdminShell.action adminCommand = .sendMessageToConnection msg toUser) :
    (broadcastText (text "admin") msg).length ≤ adminCommand.length + 34 ∧
      (messageText (text "admin") msg).length ≤ adminCommand.length + 34 := by
  obtain ⟨off, hcString⟩ := cString_of_action h
  have hmsg := length_cString_le hcString
  have hbroadcast : (text ">>>BROADCAST Celegraph Admin: ").length = 30 := by decide
  have hmessage : (text ">>>MESSAGE Celegraph Admin: ").length = 28 := by decide
  have hend : (text " <<<").length = 4 := by decide
  simp only [broadcastText, messageText, if_true, List.length_append, hbroadcast, hmessage, hend]
  omega

/-- **What is sent is received**: every packet that the server sends is received as it was sent, or not at all, whatever
the buffer of the recipient held; and only a message can be too long to be received. -/
theorem sent_is_received [mp.Lawful] (h : Run (step mp) (init N) tr s)
    (hlines : ∀ x ∈ tr, ∀ adminCommand, x.2 = .command adminCommand → adminCommand.length < 2 ^ 31) {d : Datagram}
    (hd : d ∈ s.pool.out) : ∃ p : AnyPacket, d = p.datagram d.dest ∧
      (∀ u b, received mp u (receivePacketFrom (d.data mp) b) = if Fits p.pack then some p else none) ∧
        (d.packetType ≠ .SENDSERVERCOMMAND → Fits p.pack) := by
  have hok := outgoing_of_run (A := Set.univ) (T := fun t => t.length < 2 ^ 32) h (fun _ _ _ => trivial)
    (fun job _ command hcommand relay hrelay => ?_) fun x hx adminCommand hline msg haction => ?_
  · have hsent := hok.sent d hd
    by_cases hmessage : d.packetType = .SENDSERVERCOMMAND
    · obtain ⟨_, sessionId, command, hlen, hdatagram⟩ := hsent.message hmessage
      have hp : d = (AnyPacket.sendservercommand ⟨0, sessionId, command⟩).datagram d.dest := hdatagram
      refine ⟨_, hp, fun u b => ?_, fun hne => absurd hmessage hne⟩
      rw [hp]
      exact received_datagram (p := .sendservercommand ⟨0, sessionId, command⟩) (valid_textBody hlen) _ u b
    · obtain ⟨p, hp, hvalid, hfit⟩ := hsent.answer hmessage
      refine ⟨p, hp, fun u b => ?_, fun _ => hfit⟩
      rw [hp]
      exact received_datagram hvalid _ u b
  · have hlen := length_relayText_le hrelay command.sessionId
    have hshort := length_command_of_packet hcommand
    have hmax := packet_sizes.2.2
    omega
  · have hshort := hlines x hx adminCommand hline
    obtain ⟨hb, hm⟩ := length_adminTexts haction
    exact ⟨by omega, by omega⟩

theorem sent_is_received_broadcastSent : ∃ tr s, Run (step .reference) (init NUM_WORKER_THREADS) tr s ∧
    helloToOne ∈ s.pool.out ∧ ∃ p : AnyPacket, helloToOne = p.datagram helloToOne.dest ∧
      (∀ u b, received .reference u (receivePacketFrom (helloToOne.data .reference) b) =
        if Fits p.pack then some p else none) ∧
        (helloToOne.packetType ≠ .SENDSERVERCOMMAND → Fits p.pack) := by
  obtain ⟨tr, s, hr, hacts, hout⟩ := exec_broadcastSent
  have hmem : helloToOne ∈ s.pool.out := by simp [hout]
  have hlines := forall_of_acts (C := fun _ a => ∀ adminCommand, a = .command adminCommand →
    adminCommand.length < 2 ^ 31) hacts (by simp [broadcastSent, broadcastToOne, connectAndBroadcast, text])
  exact ⟨tr, s, hr, hmem, sent_is_received hr hlines hmem⟩

end Celegraph.Threads
