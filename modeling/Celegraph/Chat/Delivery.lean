import Celegraph.Chat.Order
import Celegraph.Server.Oversize

/-!
# Every message is delivered

What appears on the screens of the clients, when the workers handle the packets at the same time and packets overtake
each other on their way.

- `messagesTo s sessionId command a`: the texts that a command of a session asks to show to client `a`.
- `screen mp server a tr`: what the `PacketListener` of client `a` has printed, in the order in which it has.
- `Account`: each text that was asked for is on the screen, on its way, still to be sent by a worker, or its command is
  on its way to the server. The steps keep this (`Account.step`).
- `delivered`: when all commands have been handled and nothing is on its way, each text has appeared on each screen as
  often as the lines that were typed ask for.
-/

namespace Celegraph.Chat

open CxxString Packets Utils Client Server Prog Runs

/-! ## Messages and screens -/

/-- The texts that a command of a session asks to show to a client. -/
def messagesTo (s : Server) (sessionId : Int32) (command : Bytes) (a : SockAddr) : List Bytes :=
  if sessionId ∈ s.serverState.sessions then
    match relayOf command with
    | none => []
    | some relay =>
      (addressees s sessionId relay).filterMap fun conn => if conn.2 = a then some (relayText sessionId relay) else none
  else []

/-- The text that a packet shows to a client. -/
def messageFor (a : SockAddr) (d : Datagram) : Option Bytes :=
  if d.dest = a ∧ IsRelay d then (Sendservercommand.convert ⟨0, 0⟩ d.body).map (·.command) else none

/-- The texts that packets show to a client. -/
def messagesFor (a : SockAddr) (ds : List Datagram) : List Bytes := ds.filterMap (messageFor a)

/-- What `PacketListener` prints for a packet. -/
def printed (mp : Msgpack) (u : Uninit) (p : Packet) : Option Bytes :=
  match getDataFromPacket mp p.data with
  | none => none
  | some (packetType, deserialized) =>
    if packetType = PTYPE.SENDSERVERCOMMAND.value then (Sendservercommand.convert u deserialized).map (·.command)
    else none

theorem packetListener_eq_printed (mp : Msgpack) (u : Uninit) (p : Packet) :
    packetListener mp u p = .printed ↔ (printed mp u p).isSome := by
  unfold packetListener printed
  cases getDataFromPacket mp p.data with
  | none => simp
  | some r =>
    by_cases htype : r.1 = PTYPE.SENDSERVERCOMMAND.value
    · simp [htype, Option.isSome_iff_ne_none]
    · simp [htype]

/-- A message that was packed. -/
def Readable (d : Datagram) : Prop := IsRelay d → ∃ k command, d = serverCommand k command d.dest ∧ d.body.Valid

theorem messageFor_serverCommand (a : SockAddr) (k : Int32) (command : Bytes) (dest : SockAddr) :
    messageFor a (serverCommand k command dest) = if dest = a then some command else none := by
  have hconv : Sendservercommand.convert ⟨0, 0⟩ (serverCommand k command dest).body = some ⟨0, k, command⟩ :=
    Sendservercommand.convert_pack _ _
  have hrelay : IsRelay (serverCommand k command dest) := rfl
  rw [messageFor, hconv]
  simp only [hrelay, and_true, Option.map_some]
  rfl

theorem messageFor_of_not_isRelay {d : Datagram} (h : ¬IsRelay d) (a : SockAddr) : messageFor a d = none :=
  if_neg fun hd => h hd.2

/-- **A client that lives on has printed the message**: a packet that does not fit ends it. -/
theorem printed_received {mp : Msgpack} [mp.Lawful] {d : Datagram} {e : Endpoint} {u : Uninit} {buffer : PacketBuffer}
    {source : SockAddr} (hread : Readable d)
    (halive : (e.hear mp u (received mp d buffer source)).client.loc ≠ .terminated) :
    printed mp u (received mp d buffer source) = messageFor d.dest d := by
  by_cases hrelay : IsRelay d
  · obtain ⟨k, command, hd, hvalid⟩ := hread hrelay
    by_cases hfit : Fits d.body
    · have hget := getDataFromPacket_fits mp hfit hvalid buffer
      have hconv : Sendservercommand.convert u d.body = some ⟨0, k, command⟩ := by
        rw [hd]
        exact Sendservercommand.convert_pack _ _
      have htype : d.packetType = .SENDSERVERCOMMAND := hrelay
      rw [hd, messageFor_serverCommand, ← hd]
      simp [printed, received, hget, htype, hconv]
    · have hnone := getDataFromPacket_of_not_fits mp hfit hvalid buffer
      exact absurd (by simp [Endpoint.hear, packetListener, received, hnone]) halive
  · rw [messageFor_of_not_isRelay hrelay]
    unfold printed
    split
    · rfl
    · rename_i packetType data hget
      obtain rfl := packetType_of_getDataFromPacket hget
      refine if_neg fun htype => hrelay ?_
      have hof := congrArg PTYPE.ofValue htype
      rw [PTYPE.ofValue_value, PTYPE.ofValue_value] at hof
      exact Option.some.inj hof

/-! ## What a worker sends for a command -/

section Answers

variable {mp : Msgpack} {s : Server}

/-- What is sent for a command. -/
def answers (s : Server) (client : SockAddr) (packet : Sendplayercommand) : List Datagram :=
  if packet.sessionId ∈ s.serverState.sessions then
    relays s packet.sessionId packet.command ++ [commandReply client packet]
  else [invalidSessionError client]

/-- An exception escapes for a packet that does not fit. -/
theorem handlePacket_of_not_fits [mp.Lawful] {packet : Sendplayercommand} (hfit : ¬Fits packet.pack)
    (hvalid : packet.pack.Valid) (server client : SockAddr) (u : Uninit) (buffer : PacketBuffer) :
    handlePacket mp u (received mp ⟨.SENDPLAYERCOMMAND, packet.pack, server⟩ buffer client) = .throw := by
  have hread := getDataFromPacket_of_not_fits mp (d := ⟨.SENDPLAYERCOMMAND, packet.pack, server⟩) hfit hvalid buffer
  simp only [handlePacket, received, hread]

/-- A packet that fits is answered. -/
theorem yields_handlePacket [mp.Lawful] {packet : Sendplayercommand} (hfit : Fits packet.pack)
    (hvalid : packet.pack.Valid) (server client : SockAddr) (u : Uninit) (buffer : PacketBuffer) :
    (handlePacket mp u (received mp ⟨.SENDPLAYERCOMMAND, packet.pack, server⟩ buffer client)).Yields s
      (answers s client packet) := by
  have hread := getDataFromPacket_fits mp (d := ⟨.SENDPLAYERCOMMAND, packet.pack, server⟩) hfit hvalid buffer
  simp only [handlePacket, received, hread]
  show (sendPlayerCommandHandler u packet.pack client).Yields s _
  simp only [sendPlayerCommandHandler, sessionHandler, Sendplayercommand.convert_pack]
  refine Yields.withLock ⟨rfl, ?_⟩
  simp only [ServerOp.apply_verifySession, ServerState.verifySession, answers, Prog.bind, decide_eq_true_eq]
  by_cases hlive : packet.sessionId ∈ s.serverState.sessions
  · rw [if_pos hlive, if_pos hlive]
    refine Yields.bind (yields_playerCommand _ _) fun _ => ?_
    exact ⟨[], rfl, rfl⟩
  · rw [if_neg hlive, if_neg hlive]
    exact ⟨[], rfl, rfl⟩

theorem length_msg_le {command : Bytes} {relay : Relay} (h : relayOf command = some relay) :
    relay.msg.length ≤ command.length := by
  unfold relayOf at h
  split at h
  · split at h
    · split at h
      · cases h
      · cases h
        exact ((List.takeWhile_prefix _).length_le).trans ((List.drop_suffix _ _).length_le)
    · split at h
      · cases h
        exact (List.drop_suffix _ _).length_le
      · cases h
  · cases h

/-- The messages of a packet that fits can be packed. -/
theorem readable_answers {client : SockAddr} {packet : Sendplayercommand} (hfit : Fits packet.pack) :
    ∀ d ∈ answers s client packet, Readable d := by
  have hcommand : packet.command.length ≤ 505 := by
    have hlen := (fits_textBody_iff packet.packetId packet.sessionId packet.command).mp hfit
    omega
  intro d hd hrelay
  unfold answers at hd
  split at hd
  · rcases List.mem_append.mp hd with hd | hd
    · unfold Server.relays at hd
      split at hd
      · cases hd
      · rename_i relay hr
        obtain ⟨conn, _, rfl⟩ := mem_sentTo.mp hd
        refine ⟨conn.1, _, rfl, valid_textBody ?_⟩
        have hmsg := length_msg_le hr
        have hname := length_toString_le packet.sessionId
        have hdecoration : relay.decoration ≤ 26 := by cases relay <;> simp [Relay.decoration]
        rw [length_relayText]
        omega
    · rw [List.mem_singleton] at hd
      subst hd
      cases hrelay
  · rw [List.mem_singleton] at hd
    subst hd
    cases hrelay

theorem messagesFor_relays (a : SockAddr) (sessionId : Int32) (command : Bytes) :
    messagesFor a (Server.relays s sessionId command) =
      match relayOf command with
      | none => []
      | some relay => (addressees s sessionId relay).filterMap fun conn =>
          if conn.2 = a then some (relayText sessionId relay) else none := by
  unfold Server.relays
  cases relayOf command with
  | none => rfl
  | some relay =>
    simp only [messagesFor, sentTo, List.filterMap_map, Function.comp_def, messageFor_serverCommand]

/-- The messages of a command are sent, and no others. -/
theorem messagesFor_answers (a client : SockAddr) (packet : Sendplayercommand) :
    messagesFor a (answers s client packet) = messagesTo s packet.sessionId packet.command a := by
  have hnone {d : Datagram} (hd : ¬IsRelay d) : messagesFor a [d] = [] := by
    simp [messagesFor, messageFor_of_not_isRelay hd]
  have hreply : messagesFor a [commandReply client packet] = [] := hnone fun h => PTYPE.noConfusion h
  have herror : messagesFor a [invalidSessionError client] = [] := hnone fun h => PTYPE.noConfusion h
  unfold answers messagesTo
  split
  · rw [← messagesFor_relays, messagesFor, List.filterMap_append]
    change messagesFor a _ ++ messagesFor a [commandReply client packet] = _
    rw [hreply, List.append_nil]
  · exact herror

end Answers

/-! ## The account of a run -/

/-- The step handles a packet from somewhere else. -/
def Act.isOther {clients : Finset SockAddr} {N : Nat} : Act clients N → Bool
  | .other .. => true
  | _ => false

namespace System

variable {mp : Msgpack} {clients : Finset SockAddr} {N : Nat} {x x' : System clients N} {act : Act clients N}
  {server : SockAddr} {s : Server} {session : clients → Int32}

/-- No exception has escaped in a client. -/
def Alive (x : System clients N) : Prop := ∀ a, (x.endpoint a).client.loc ≠ .terminated

/-- All commands have been handled, and no packet is on its way. -/
structure Settled (x : System clients N) : Prop where
  requests : x.requests = []
  replies : x.replies = []
  code : ∀ t, x.workers.code t = .pure ()

instance (loc : Loc) : Decidable (loc = .terminated) :=
  match loc with
  | .terminated => isTrue rfl
  | .connect | .connectReply | .connected | .listUsers | .listReply _ | .firstName _ | .lastName .. | .command
  | .commandReply | .stopped => isFalse nofun

instance : Decidable x.Alive := inferInstanceAs (Decidable (∀ a, (x.endpoint a).client.loc ≠ .terminated))

theorem settled_iff :
    x.Settled ↔ x.requests.isEmpty = true ∧ x.replies.isEmpty = true ∧ ∀ t, x.workers.idle t = true := by
  simp only [List.isEmpty_iff, Pool.idle_iff]
  exact ⟨fun h => ⟨h.requests, h.replies, h.code⟩, fun h => ⟨h.1, h.2.1, h.2.2⟩⟩

instance : Decidable x.Settled := decidable_of_iff _ settled_iff.symm

/-- What a step prints on the screen of a client. -/
def shown (mp : Msgpack) (server : SockAddr) (a : clients) : System clients N × Act clients N → Option Bytes
  | (x, .deliver a' k u) =>
    if a' = a then x.replies[k]?.bind fun d => printed mp u (received mp d (x.endpoint a).buffer server)
    else none
  | _ => none

/-- The screen of a client. -/
def screen (mp : Msgpack) (server : SockAddr) (a : clients) (tr : List (System clients N × Act clients N)) :
    List Bytes := tr.filterMap (shown mp server a)

/-- The texts that the command in a packet asks to show to a client. -/
def dueTo (s : Server) (a : SockAddr) (d : Datagram) : List Bytes :=
  match Sendplayercommand.convert ⟨0, 0⟩ d.body with
  | none => []
  | some packet => messagesTo s packet.sessionId packet.command a

/-- The texts that the lines of the users ask to show to a client. -/
def asked (s : Server) (session : clients → Int32) (a : SockAddr) (typed : clients → List Bytes) (b : clients) :
    List Bytes :=
  (typed b).flatMap fun line => messagesTo s (session b) line a

/-- Where the messages are: on the screen, on their way, with the workers, which will still send `rest`, and in the
commands on their way to the server. -/
structure Account (mp : Msgpack) (server : SockAddr) (s : Server) (session : clients → Int32)
    (tr : List (System clients N × Act clients N)) (x : System clients N) (rest : Fin N → List Datagram) : Prop where
  shared : x.workers.shared = s
  yields : ∀ t, (x.workers.code t).Yields s (rest t)
  replies : ∀ d ∈ x.replies, Readable d
  /-- An exception stops a worker before it sends anything. -/
  readable : ∀ t, x.workers.code t ≠ .throw → ∀ d ∈ rest t, Readable d
  balance : ∀ (a : clients) m, (screen mp server a tr).count m + (messagesFor a x.replies).count m +
    total (fun ds => (messagesFor a ds).count m) rest + (x.requests.flatMap fun r => dueTo s a r.datagram).count m =
      ∑ b, (asked s session a x.typed b).count m

/-- A client that has been ended does not come back. -/
theorem alive_of_step (hst : x.step mp server act = some x') (h : x'.Alive) : x.Alive := by
  intro a hdead
  have hupdate {b : clients} {e : Endpoint} (he : b = a → e.client.loc = .terminated)
      (hx : x'.endpoint = Function.update x.endpoint b e) : False := by
    refine h a ?_
    rw [hx]
    by_cases hb : a = b
    · subst hb
      rw [Function.update_self]
      exact he rfl
    · rwa [Function.update_of_ne hb]
  cases step_sound hst with
  | @type b line c' out hc =>
    refine hupdate (b := b) (fun hb => ?_) rfl
    subst hb
    simp [Client.step, hdead] at hc
  | @take b u e he =>
    refine hupdate (b := b) (fun hb => ?_) rfl
    subst hb
    obtain ⟨_, _, _, _, _, hpacket, _⟩ := Endpoint.take_eq_some he
    simp [Client.step, hdead] at hpacket
  | @deliver b k u d hd hdest =>
    refine hupdate (b := b) (fun hb => ?_) rfl
    subst hb
    unfold Endpoint.hear
    split
    · exact hdead
    · exact hdead
    · rfl
  | handle | other | silent | emit => exact h a hdead

/-! ## The steps keep the account -/

theorem dueTo_pack (a : SockAddr) (packet : Sendplayercommand) (server : SockAddr) :
    dueTo s a ⟨.SENDPLAYERCOMMAND, packet.pack, server⟩ = messagesTo s packet.sessionId packet.command a := by
  simp only [dueTo, Sendplayercommand.convert_pack]

/-- An empty line asks for nothing. -/
theorem messagesTo_nil (sessionId : Int32) (a : SockAddr) : messagesTo s sessionId [] a = [] := ite_self _

/-- What a line asks for is asked for by the packet that is sent for it. -/
theorem dueTo_line {c c' : Client} {out : Option Sending} {line : Bytes} (hgame : InGame c)
    (hst : c.step mp server (.line line) = some (c', out)) (halive : c'.loc ≠ .terminated) (a : SockAddr) :
    out.toList.flatMap (fun y => dueTo s a y.datagram) = messagesTo s c.session line a := by
  have hloc {loc : Loc} (hl : c.loc = loc) : loc = .command ∨ loc = .commandReply ∨ loc = .terminated := hl ▸ hgame
  cases Client.step_sound hst with
  | command _ hl _ hpack hs =>
    obtain ⟨_⟩ := hs
    rw [Option.toList_some, List.flatMap_singleton]
    exact dueTo_pack a ⟨c.packetNumber, c.session, line⟩ server
  | empty hl => exact (messagesTo_nil _ _).symm
  | longCommand _ hl => exact absurd rfl halive
  | connect _ hl | stop _ hl | firstName _ _ hl | lastName _ _ _ hl | longName _ _ _ hl =>
    rcases hloc hl with h | h | h <;> cases h

theorem screen_append (a : clients) (tr : List (System clients N × Act clients N))
    (y : System clients N × Act clients N) :
    screen mp server a (tr ++ [y]) = screen mp server a tr ++ (shown mp server a y).toList := by
  cases h : shown mp server a y <;> simp [screen, h]

theorem account_start (packetNumber : clients → Int32) (buffer : clients → PacketBuffer) :
    Account mp server s session [] (start s session packetNumber buffer : System clients N) fun _ => [] where
  shared := rfl
  yields _ := rfl
  replies _ h := by cases h
  readable _ _ _ h := by cases h
  balance a m := by simp [screen, start, messagesFor, total, asked]

/-- The lines of the users ask for what they asked for, and what the new line asks for. -/
theorem sum_asked_type (a : SockAddr) (typed : clients → List Bytes) (b : clients) (line m : Bytes) :
    ∑ c, (asked s session a (Function.update typed b (typed b ++ [line])) c).count m =
      ∑ c, (asked s session a typed c).count m + (messagesTo s (session b) line a).count m := by
  have hsum := sum_update_add (fun c => (asked s session a typed c).count m) b
    ((asked s session a typed b).count m + (messagesTo s (session b) line a).count m)
  have hupdate (c : clients) : (asked s session a (Function.update typed b (typed b ++ [line])) c).count m =
      Function.update (fun c => (asked s session a typed c).count m) b
        ((asked s session a typed b).count m + (messagesTo s (session b) line a).count m) c := by
    by_cases hc : c = b
    · subst hc
      simp [asked]
    · simp [asked, hc]
  rw [← Finset.sum_congr rfl fun c _ => hupdate c] at hsum
  omega

namespace Account

variable {tr : List (System clients N × Act clients N)} {rest : Fin N → List Datagram}

/-- The user of a client has typed a line. -/
theorem type (h : Account mp server s session tr x rest) (hinv : x.Invariant server session) {b : clients}
    {line : Bytes} {c' : Client} {out : Option Sending}
    (hst : (x.endpoint b).client.step mp server (.line line) = some (c', out)) (halive : c'.loc ≠ .terminated) :
    Account mp server s session (tr ++ [(x, .type b line)]) { x with
      endpoint := Function.update x.endpoint b { x.endpoint b with client := c' }
      typed := Function.update x.typed b (x.typed b ++ [line])
      requests := x.requests ++ (out.map fun y => ⟨⟨b, (x.typed b).length⟩, y.datagram⟩).toList } rest := by
  refine ⟨h.shared, h.yields, h.replies, h.readable, fun a m => ?_⟩
  have hbalance := h.balance a m
  -- what the line asks for is in the packet that is sent for it
  have hdue : ((out.map fun y => (⟨⟨b, (x.typed b).length⟩, y.datagram⟩ : Request clients)).toList.flatMap
      fun r => dueTo s a r.datagram) = messagesTo s (session b) line a := by
    rw [← (hinv.waiting b).session, ← dueTo_line (hinv.waiting b).inGame hst halive a]
    cases out <;> rfl
  simp only [screen_append, shown, Option.toList_none, List.append_nil, sum_asked_type, List.flatMap_append, hdue,
    List.count_append]
  omega

/-- A worker has started to handle a command of a client. -/
theorem handle [mp.Lawful] (h : Account mp server s session tr x rest) (hinv : x.Invariant server session) {t : Fin N}
    {k : Nat} {u : Uninit} {buffer : PacketBuffer} {r : Request clients} (hr : x.requests[k]? = some r)
    (hidle : x.workers.code t = .pure ()) :
    ∃ rest', Account mp server s session (tr ++ [(x, .handle t k u buffer)]) { x with
      requests := x.requests.eraseIdx k
      workers := { x.workers with
        code := Function.update x.workers.code t
          (handlePacket mp u (received mp r.datagram buffer r.line.client)) }
      task := Function.update x.task t (some r.line) } rest' := by
  obtain ⟨_, packet, hd, hvalid, _⟩ := hinv.request r (List.mem_of_getElem? hr)
  have hnil : rest t = [] := by
    have hyields := h.yields t
    rwa [hidle] at hyields
  refine ⟨Function.update rest t (answers s r.line.client packet), h.shared, fun t' => ?_, h.replies,
    fun t' hthrow d hmem => ?_, fun a m => ?_⟩
  · show (Function.update x.workers.code t _ t').Yields s _
    by_cases ht : t' = t
    · subst ht
      rw [Function.update_self, Function.update_self, hd]
      by_cases hfit : Fits packet.pack
      · exact yields_handlePacket hfit hvalid _ _ _ _
      · rw [handlePacket_of_not_fits hfit hvalid]
        trivial
    · rw [Function.update_of_ne ht, Function.update_of_ne ht]
      exact h.yields t'
  · change Function.update x.workers.code t _ t' ≠ _ at hthrow
    by_cases ht : t' = t
    · subst ht
      rw [Function.update_self] at hthrow hmem
      refine readable_answers (Decidable.byContradiction fun hfit => hthrow ?_) d hmem
      rw [hd]
      exact handlePacket_of_not_fits hfit hvalid _ _ _ _
    · rw [Function.update_of_ne ht] at hthrow hmem
      exact h.readable t' hthrow d hmem
  · have hbalance := h.balance a m
    have htotal := total_update (fun ds => (messagesFor a ds).count m) rest t (answers s r.line.client packet)
    obtain ⟨hk, hget⟩ := List.getElem?_eq_some_iff.mp hr
    have hrequests := ((List.getElem_cons_eraseIdx_perm hk).flatMap_right fun r => dueTo s a r.datagram).count_eq m
    rw [hget, List.flatMap_cons, List.count_append, hd, dueTo_pack] at hrequests
    have hnone : messagesFor a [] = [] := rfl
    simp only [hnil, messagesFor_answers, hnone, List.count_nil] at htotal
    simp only [screen_append, shown, Option.toList_none, List.append_nil]
    omega

/-- A worker takes an action. -/
theorem work (h : Account mp server s session tr x rest) {t : Fin N} {w : Sessions.Workers N}
    (hst : Pool.step x.workers t = some w) : ∃ rest', Account mp server s session (tr ++ [(x, .work t)]) { x with
      workers := w
      replies := x.replies ++ x.emitted w
      log := x.log ++ (x.emitted w).map fun d => ⟨x.task t, d⟩ } rest' := by
  have hyields := h.yields t
  rw [← h.shared] at hyields
  obtain ⟨hshared, hothers, ds, rest', hrest, hout, hyields'⟩ := Pool.step_yields hst hyields
  have hemitted : x.emitted w = ds := by simp [emitted, hout]
  have hthrow : x.workers.code t ≠ .throw := fun hc => by simp [Pool.step, hc] at hst
  refine ⟨Function.update rest t rest', hshared.trans h.shared, fun t' => ?_, fun d hd => ?_, fun t' ht' d hd => ?_,
    fun a m => ?_⟩
  · by_cases ht : t' = t
    · subst ht
      rw [Function.update_self, ← h.shared]
      exact hyields'
    · rw [Function.update_of_ne ht, hothers t' ht]
      exact h.yields t'
  · rcases List.mem_append.mp hd with hd | hd
    · exact h.replies d hd
    · refine h.readable t hthrow d ?_
      rw [hrest, ← hemitted]
      exact List.mem_append_left _ hd
  · by_cases ht : t' = t
    · subst ht
      rw [Function.update_self] at hd
      refine h.readable t' hthrow d ?_
      rw [hrest]
      exact List.mem_append_right _ hd
    · rw [Function.update_of_ne ht] at hd
      rw [hothers t' ht] at ht'
      exact h.readable t' ht' d hd
  · have hbalance := h.balance a m
    have htotal := total_update (fun ds => (messagesFor a ds).count m) rest t rest'
    simp only [hrest, messagesFor, List.filterMap_append, List.count_append] at htotal
    simp only [screen_append, shown, Option.toList_none, List.append_nil, hemitted]
    simp only [messagesFor, List.filterMap_append, List.count_append] at hbalance ⊢
    omega

/-- The `PacketListener` of a client receives a packet. -/
theorem deliver [mp.Lawful] (h : Account mp server s session tr x rest) {b : clients} {k : Nat} {u : Uninit}
    {d : Datagram} (hd : x.replies[k]? = some d) (hdest : d.dest = b)
    (halive : ((x.endpoint b).hear mp u (received mp d (x.endpoint b).buffer server)).client.loc ≠ .terminated) :
    Account mp server s session (tr ++ [(x, .deliver b k u)]) { x with
      endpoint := Function.update x.endpoint b
        ((x.endpoint b).hear mp u (received mp d (x.endpoint b).buffer server))
      replies := x.replies.eraseIdx k } rest := by
  have hread := h.replies d (List.mem_of_getElem? hd)
  have hprinted := printed_received hread halive
  refine ⟨h.shared, h.yields, fun d' hd' => h.replies d' (List.mem_of_mem_eraseIdx hd'), h.readable, fun a m => ?_⟩
  have hbalance := h.balance a m
  obtain ⟨hk, hget⟩ := List.getElem?_eq_some_iff.mp hd
  have hreplies := ((List.getElem_cons_eraseIdx_perm hk).filterMap (messageFor a)).count_eq m
  rw [hget, List.filterMap_cons] at hreplies
  have hshown : shown mp server a (x, .deliver b k u) = messageFor a d := by
    by_cases hab : b = a
    · subst hab
      simp [shown, hd, hprinted, hdest]
    · have hne : d.dest ≠ a := fun h => hab (Subtype.ext (hdest.symm.trans h))
      simp [shown, hab, messageFor, hne]
  simp only [screen_append, hshown, List.count_append]
  simp only [messagesFor] at hbalance ⊢
  cases hm : messageFor a d with
  | none =>
    simp only [hm] at hreplies
    simp only [Option.toList_none, List.count_nil]
    omega
  | some text =>
    simp only [hm, List.count_cons] at hreplies
    simp only [Option.toList_some, List.count_singleton]
    omega

end Account

/-- **A step keeps the account**, unless it handles a packet from elsewhere or ends a client. -/
theorem Account.step [mp.Lawful] {tr : List (System clients N × Act clients N)} {rest : Fin N → List Datagram}
    (h : Account mp server s session tr x rest) (hinv : x.Invariant server session)
    (hst : x.step mp server act = some x') (hact : act.isOther = false) (halive : x'.Alive) :
    ∃ rest', Account mp server s session (tr ++ [(x, act)]) x' rest' := by
  cases act with
  | type b line =>
    obtain ⟨⟨c', out⟩, hc, rfl⟩ := Option.map_eq_some_iff.mp hst
    exact ⟨rest, h.type hinv hc (by simpa using halive b)⟩
  | take b u =>
    obtain ⟨e, he, rfl⟩ := Option.map_eq_some_iff.mp hst
    refine ⟨rest, h.shared, h.yields, h.replies, h.readable, fun a m => ?_⟩
    simpa [screen_append, shown] using h.balance a m
  | handle t k u buffer =>
    simp only [System.step] at hst
    split at hst
    · cases hst
    · rename_i r hr
      obtain ⟨w, hw, rfl⟩ := Option.map_eq_some_iff.mp hst
      obtain ⟨hidle, rfl⟩ := Pool.start_eq_some hw
      exact h.handle hinv hr hidle
  | other => cases hact
  | work t =>
    obtain ⟨w, hw, rfl⟩ := Option.map_eq_some_iff.mp hst
    exact h.work hw
  | deliver b k u =>
    simp only [System.step] at hst
    split at hst
    · cases hst
    · rename_i d hd
      split at hst
      · rename_i hdest
        cases hst
        exact ⟨rest, h.deliver hd hdest (by simpa using halive b)⟩
      · cases hst

theorem account_of_run [mp.Lawful] {packetNumber : clients → Int32} {buffer : clients → PacketBuffer}
    {tr : List (System clients N × Act clients N)}
    (h : Run (step mp server) (start s session packetNumber buffer) tr x) (hclosed : ∀ y ∈ tr, y.2.isOther = false)
    (halive : x.Alive) : ∃ rest, Account mp server s session tr x rest := by
  induction h with
  | init => exact ⟨_, account_start packetNumber buffer⟩
  | @step tr x x' act hrun hst ih =>
    obtain ⟨rest, haccount⟩ := ih (fun y hy => hclosed y (List.mem_append_left _ hy)) (alive_of_step hst halive)
    exact haccount.step (invariant_of_run hrun) hst (hclosed (x, act) (by simp)) halive

/-- **Every message is delivered, and none twice**: when all commands that the clients have sent have been handled and
nothing is on its way, each text has appeared on the screen of each client as often as the lines that the users have
typed ask for. -/
theorem delivered [mp.Lawful] {packetNumber : clients → Int32} {buffer : clients → PacketBuffer}
    {tr : List (System clients N × Act clients N)}
    (h : Run (step mp server) (start s session packetNumber buffer) tr x) (hclosed : ∀ y ∈ tr, y.2.isOther = false)
    (halive : x.Alive) (hsettled : x.Settled) (a : clients) (m : Bytes) :
    (screen mp server a tr).count m =
      ∑ b, ((x.typed b).flatMap fun line => messagesTo s (session b) line a).count m := by
  obtain ⟨rest, haccount⟩ := account_of_run h hclosed halive
  have hbalance := haccount.balance a m
  have hrest : total (fun ds => (messagesFor a ds).count m) rest = 0 := by
    refine total_eq_zero.mpr fun t => ?_
    have hyields := haccount.yields t
    rw [hsettled.code t] at hyields
    have hnil : rest t = [] := hyields
    simp [hnil, messagesFor]
  rw [hsettled.requests, hsettled.replies, hrest] at hbalance
  exact hbalance

/-- The second client. -/
def secondClient : bothClients := ⟨⟨0x7f000001, 40002⟩, by simp [bothClients]⟩

/-- The second message of the first client is shown before the first. -/
def bothShown : List (Act bothClients 2) :=
  twoMessages ++ [.deliver secondClient 1 ⟨0, 0⟩, .deliver secondClient 0 ⟨0, 0⟩, .deliver firstClient 0 ⟨0, 0⟩,
    .take firstClient ⟨0, 0⟩]

/-- How often the lines that the users have typed ask to show a text to the second client. -/
def askedOfSecond (x : System bothClients 2) (m : Bytes) : Nat :=
  ∑ b, ((x.typed b).flatMap fun line => messagesTo twoSessions (if b = firstClient then 1 else 2) line
    secondClient).count m

theorem delivered_bothShown : ∃ tr x, Run (step .reference localServer) bothInGame tr x ∧ tr.map Prod.snd = bothShown ∧
    askedOfSecond x (text ">>>MESSAGE Client 1: hi <<<") = 1 ∧
    (screen .reference localServer secondClient tr).count (text ">>>MESSAGE Client 1: hi <<<") =
      askedOfSecond x (text ">>>MESSAGE Client 1: hi <<<") := by
  have hexec : (exec (step .reference localServer) bothInGame bothShown).map (fun x =>
      (decide (x.Alive ∧ x.Settled), askedOfSecond x (text ">>>MESSAGE Client 1: hi <<<"))) = some (true, 1) := by
    decide +kernel
  obtain ⟨x, hx, hrest⟩ := Option.map_eq_some_iff.mp hexec
  obtain ⟨hrest, hasked⟩ := Prod.mk.inj hrest
  obtain ⟨halive, hsettled⟩ := of_decide_eq_true hrest
  obtain ⟨tr, hr, hacts⟩ := Run.of_exec hx
  have hclosed : ∀ act ∈ bothShown, act.isOther = false := by decide
  refine ⟨tr, x, hr, hacts, hasked, ?_⟩
  exact delivered hr (forall_of_acts hacts fun act hact _ => hclosed act hact) halive hsettled secondClient _

end System

end Celegraph.Chat
