import Celegraph.Client.Endpoint
import Celegraph.Server.Attribution
import Celegraph.Sessions.Workers

/-!
# Clients that talk to each other

`System`: any number of clients in state 3 of their main loops, the workers of the server, and the packets on their way
between them. No packet is lost or doubled, but packets may overtake each other on their way and in the queue of the
server. Packets of clients in other states, or of no client at all, are handled at any time (`Act.other`).

- `Line`: a line that the user of a client has typed, by its number.
- `Emission`: a packet handed to `sendto`, with the line whose packet the worker was handling.
- `relays x a b`: the messages of client `a` that were passed on to session `b`, with the numbers of their lines.
- `SendsFor`: what a worker can send while it handles a line (`sendsFor_of_maySend`).
-/

namespace Celegraph.Chat

open CxxString Packets Utils Client Server Prog

/-! ## The system -/

/-- A line that the user of a client has typed. -/
structure Line (clients : Finset SockAddr) where
  client : clients
  number : Nat
  deriving DecidableEq

/-- A packet on its way to a worker of the server, and the line it was sent for. -/
structure Request (clients : Finset SockAddr) where
  line : Line clients
  datagram : Datagram

/-- A packet handed to `sendto`, and the line that the worker was handling, if it was one of these clients'. -/
structure Emission (clients : Finset SockAddr) where
  line : Option (Line clients)
  datagram : Datagram

/-- The clients, the server, and what is on its way between them. -/
structure System (clients : Finset SockAddr) (N : Nat) where
  endpoint : clients → Endpoint
  typed : clients → List Bytes
  requests : List (Request clients)
  workers : Sessions.Workers N
  /-- The line that a worker has started to handle last. -/
  task : Fin N → Option (Line clients)
  replies : List Datagram
  log : List (Emission clients)

/-- The steps. -/
inductive Act (clients : Finset SockAddr) (N : Nat) where
  /-- The user of a client types a line. -/
  | type (a : clients) (line : Bytes)
  /-- `WaitOnPacketQueue` returns a packet. -/
  | take (a : clients) (u : Uninit)
  /-- A worker starts to handle a packet of a client. -/
  | handle (t : Fin N) (k : Nat) (u : Uninit) (buffer : PacketBuffer)
  /-- A worker starts to handle a packet from somewhere else. -/
  | other (t : Fin N) (u : Uninit) (packet : Packet)
  /-- A worker takes its next action. -/
  | work (t : Fin N)
  /-- `PacketListener` receives a packet. -/
  | deliver (a : clients) (k : Nat) (u : Uninit)

namespace System

variable {clients : Finset SockAddr} {N : Nat}

/-- The clients have sessions and wait for lines; no worker is busy, and no packet is on its way. -/
def start (server : Server) (session packetNumber : clients → Int32) (buffer : clients → PacketBuffer) :
    System clients N where
  endpoint a := ⟨⟨session a, packetNumber a, .command⟩, buffer a, []⟩
  typed _ := []
  requests := []
  workers := ⟨server, fun _ => none, fun _ => .pure (), []⟩
  task _ := none
  replies := []
  log := []

/-- What a step of the workers has handed to `sendto`. -/
def emitted (x : System clients N) (workers : Sessions.Workers N) : List Datagram :=
  workers.out.drop x.workers.out.length

def step (mp : Msgpack) (server : SockAddr) (x : System clients N) : Act clients N → Option (System clients N)
  | .type a line => ((x.endpoint a).client.step mp server (.line line)).map fun r => { x with
      endpoint := Function.update x.endpoint a { x.endpoint a with client := r.1 }
      typed := Function.update x.typed a (x.typed a ++ [line])
      requests := x.requests ++ (r.2.map fun y => ⟨⟨a, (x.typed a).length⟩, y.datagram⟩).toList }
  | .take a u => ((x.endpoint a).take mp server u).map fun e => { x with
      endpoint := Function.update x.endpoint a e }
  | .handle t k u buffer =>
    match x.requests[k]? with
    | none => none
    | some r =>
      (x.workers.start t (handlePacket mp u (received mp r.datagram buffer r.line.client))).map fun w => { x with
        requests := x.requests.eraseIdx k
        workers := w
        task := Function.update x.task t (some r.line) }
  | .other t u packet =>
    if packet.source ∈ clients then none
    else (x.workers.start t (handlePacket mp u packet)).map fun w => { x with
      workers := w
      task := Function.update x.task t none }
  | .work t => (Pool.step x.workers t).map fun w => { x with
      workers := w
      replies := x.replies ++ x.emitted w
      log := x.log ++ (x.emitted w).map fun d => ⟨x.task t, d⟩ }
  | .deliver a k u =>
    match x.replies[k]? with
    | none => none
    | some d =>
      if d.dest = a then some { x with
        endpoint := Function.update x.endpoint a
          ((x.endpoint a).hear mp u (received mp d (x.endpoint a).buffer server))
        replies := x.replies.eraseIdx k }
      else none

/-! ## What a step does -/

/-- Worker `t` has taken an action, and has sent `sent`. What it can send now it could send before, after that. -/
structure Moves (x : System clients N) (t : Fin N) (w : Sessions.Workers N) (sent : List Datagram) : Prop where
  out : w.out = x.workers.out ++ sent
  others : ∀ t', t' ≠ t → w.code t' = x.workers.code t'
  may : ∀ ds, (w.code t).MaySend ds → (x.workers.code t).MaySend (sent ++ ds)

theorem Moves.may_cases {x : System clients N} {t : Fin N} {w : Sessions.Workers N} {sent : List Datagram}
    (h : x.Moves t w sent) {t' : Fin N} {ds : List Datagram} (hmay : (w.code t').MaySend ds) :
    t' = t ∧ (x.workers.code t).MaySend (sent ++ ds) ∨ t' ≠ t ∧ (x.workers.code t').MaySend ds := by
  by_cases ht : t' = t
  · subst ht
    exact .inl ⟨rfl, h.may ds hmay⟩
  · rw [h.others t' ht] at hmay
    exact .inr ⟨ht, hmay⟩

/-- What a worker can send after worker `t` has started with the task `L` and the program `c`. -/
theorem may_start_cases {task : Fin N → Option (Line clients)} {code : Fin N → ServerProg Unit}
    {L L' : Option (Line clients)} {c : ServerProg Unit} {t t' : Fin N} {ds : List Datagram}
    (ht : Function.update task t L t' = L') (hmay : (Function.update code t c t').MaySend ds) :
    t' = t ∧ L = L' ∧ c.MaySend ds ∨ t' ≠ t ∧ task t' = L' ∧ (code t').MaySend ds := by
  by_cases htt : t' = t
  · subst htt
    rw [Function.update_self] at ht hmay
    exact .inl ⟨rfl, ht, hmay⟩
  · rw [Function.update_of_ne htt] at ht hmay
    exact .inr ⟨htt, ht, hmay⟩

/-- The steps, one constructor for each of them, and two for the actions of the workers. -/
inductive Step (mp : Msgpack) (server : SockAddr) (x : System clients N) : Act clients N → System clients N → Prop
  | type {a : clients} {line : Bytes} {c' : Client} {out : Option Sending} :
      (x.endpoint a).client.step mp server (.line line) = some (c', out) →
      Step mp server x (.type a line) { x with
        endpoint := Function.update x.endpoint a { x.endpoint a with client := c' }
        typed := Function.update x.typed a (x.typed a ++ [line])
        requests := x.requests ++ (out.map fun y => ⟨⟨a, (x.typed a).length⟩, y.datagram⟩).toList }
  | take {a : clients} {u : Uninit} {e : Endpoint} : (x.endpoint a).take mp server u = some e →
      Step mp server x (.take a u) { x with endpoint := Function.update x.endpoint a e }
  | handle {t : Fin N} {k : Nat} {u : Uninit} {buffer : PacketBuffer} {r : Request clients} :
      x.requests[k]? = some r →
      Step mp server x (.handle t k u buffer) { x with
        requests := x.requests.eraseIdx k
        workers := { x.workers with
          code := Function.update x.workers.code t
            (handlePacket mp u (received mp r.datagram buffer r.line.client)) }
        task := Function.update x.task t (some r.line) }
  | other {t : Fin N} {u : Uninit} {packet : Packet} : packet.source ∉ clients →
      Step mp server x (.other t u packet) { x with
        workers := { x.workers with code := Function.update x.workers.code t (handlePacket mp u packet) }
        task := Function.update x.task t none }
  | silent {t : Fin N} {w : Sessions.Workers N} : x.Moves t w [] →
      Step mp server x (.work t) { x with workers := w }
  | emit {t : Fin N} {w : Sessions.Workers N} {d : Datagram} : x.Moves t w [d] →
      Step mp server x (.work t) { x with
        workers := w
        replies := x.replies ++ [d]
        log := x.log ++ [⟨x.task t, d⟩] }
  | deliver {a : clients} {k : Nat} {u : Uninit} {d : Datagram} : x.replies[k]? = some d → d.dest = a →
      Step mp server x (.deliver a k u) { x with
        endpoint := Function.update x.endpoint a
          ((x.endpoint a).hear mp u (received mp d (x.endpoint a).buffer server))
        replies := x.replies.eraseIdx k }

/-- Everything a step can do. -/
theorem step_sound {mp : Msgpack} {server : SockAddr} {x x' : System clients N} {act : Act clients N}
    (h : x.step mp server act = some x') : Step mp server x act x' := by
  cases act with
  | type a line =>
    obtain ⟨⟨c', out⟩, hc, rfl⟩ := Option.map_eq_some_iff.mp h
    exact .type hc
  | take a u =>
    obtain ⟨e, he, rfl⟩ := Option.map_eq_some_iff.mp h
    exact .take he
  | handle t k u buffer =>
    simp only [step] at h
    split at h
    · cases h
    · rename_i r hr
      obtain ⟨w, hw, rfl⟩ := Option.map_eq_some_iff.mp h
      obtain ⟨_, rfl⟩ := Pool.start_eq_some hw
      exact .handle hr
  | other t u packet =>
    simp only [step] at h
    split at h
    · cases h
    · rename_i hsource
      obtain ⟨w, hw, rfl⟩ := Option.map_eq_some_iff.mp h
      obtain ⟨_, rfl⟩ := Pool.start_eq_some hw
      exact .other hsource
  | work t =>
    obtain ⟨w, hw, rfl⟩ := Option.map_eq_some_iff.mp h
    obtain ⟨hothers, ⟨hout, hmay⟩ | ⟨d, hout, hmay⟩⟩ := Pool.step_maySend hw
    · have hemitted : x.emitted w = [] := by simp [emitted, hout]
      simp only [hemitted, List.map_nil, List.append_nil]
      exact .silent ⟨by simpa using hout, hothers, hmay⟩
    · have hemitted : x.emitted w = [d] := by simp [emitted, hout]
      simp only [hemitted, List.map_cons, List.map_nil]
      exact .emit ⟨hout, hothers, hmay⟩
  | deliver a k u =>
    simp only [step] at h
    split at h
    · cases h
    · rename_i d hd
      split at h
      · rename_i hdest
        cases h
        exact .deliver hd hdest
      · cases h

end System

/-! ## Messages passed on -/

/-- The packet is a message passed on. -/
def IsRelay (d : Datagram) : Prop := d.packetType = .SENDSERVERCOMMAND

instance (d : Datagram) : Decidable (IsRelay d) := inferInstanceAs (Decidable (_ = _))

/-- The session that a message is passed on to. -/
def addressee (d : Datagram) : Option Int32 :=
  if IsRelay d then (Sendservercommand.convert ⟨0, 0⟩ d.body).map (·.sessionId) else none

theorem addressee_serverCommand (sessionId : Int32) (command : Bytes) (dest : SockAddr) :
    addressee (serverCommand sessionId command dest) = some sessionId := by
  have hconv : Sendservercommand.convert ⟨0, 0⟩ (serverCommand sessionId command dest).body =
      some ⟨0, sessionId, command⟩ := Sendservercommand.convert_pack _ _
  rw [addressee, if_pos (show IsRelay (serverCommand sessionId command dest) from rfl), hconv]
  rfl

theorem isRelay_of_addressee {d : Datagram} {b : Int32} (h : addressee d = some b) : IsRelay d := by
  unfold addressee at h
  split at h
  · assumption
  · cases h

namespace System

variable {clients : Finset SockAddr} {N : Nat}

/-- The number of the line and the packet, if it passes a message of `a` on to session `b`. -/
def relayed (a : clients) (b : Int32) (e : Emission clients) : Option (Nat × Datagram) :=
  match e.line with
  | none => none
  | some L => if L.client = a ∧ addressee e.datagram = some b then some (L.number, e.datagram) else none

/-- The messages of `a` that were passed on to session `b`, in the order in which they were handed to `sendto`. -/
def relays (x : System clients N) (a : clients) (b : Int32) : List (Nat × Datagram) := x.log.filterMap (relayed a b)

theorem mem_relayed {a : clients} {b : Int32} {e : Emission clients} {n : Nat} {d : Datagram} :
    relayed a b e = some (n, d) ↔ e = ⟨some ⟨a, n⟩, d⟩ ∧ addressee d = some b := by
  obtain ⟨line, d'⟩ := e
  cases line with
  | none => simp [relayed]
  | some L =>
    obtain ⟨a', n'⟩ := L
    simp only [relayed, Option.ite_none_right_eq_some, Option.some.injEq, Prod.mk.injEq, Emission.mk.injEq,
      Line.mk.injEq]
    constructor
    · rintro ⟨⟨rfl, hb⟩, rfl, rfl⟩
      exact ⟨⟨⟨rfl, rfl⟩, rfl⟩, hb⟩
    · rintro ⟨⟨⟨rfl, rfl⟩, rfl⟩, hb⟩
      exact ⟨⟨rfl, hb⟩, rfl, rfl⟩

theorem mem_relays {x : System clients N} {a : clients} {b : Int32} {n : Nat} {d : Datagram} :
    (n, d) ∈ x.relays a b ↔ ⟨some ⟨a, n⟩, d⟩ ∈ x.log ∧ addressee d = some b := by
  simp only [relays, List.mem_filterMap, mem_relayed]
  constructor
  · rintro ⟨e, he, rfl, hb⟩
    exact ⟨he, hb⟩
  · rintro ⟨he, hb⟩
    exact ⟨_, he, rfl, hb⟩

/-- The packets that have been sent for a line. -/
def sentFor (x : System clients N) (L : Line clients) : List Datagram :=
  x.log.filterMap fun e => if e.line = some L then some e.datagram else none

theorem mem_sentFor {x : System clients N} {L : Line clients} {d : Datagram} :
    d ∈ x.sentFor L ↔ ⟨some L, d⟩ ∈ x.log := by
  simp only [sentFor, List.mem_filterMap, Option.ite_none_right_eq_some, Option.some.injEq]
  constructor
  · rintro ⟨⟨line, d'⟩, he, hline, hd⟩
    obtain rfl : line = some L := hline
    obtain rfl : d' = d := hd
    exact he
  · exact fun he => ⟨_, he, rfl, rfl⟩

/-- One more packet in the log. -/
theorem relays_append (x : System clients N) (e : Emission clients) (a : clients) (b : Int32) :
    relays { x with log := x.log ++ [e] } a b = x.relays a b ++ (relayed a b e).toList := by
  cases h : relayed a b e <;> simp [relays, h]

theorem sentFor_append_self (x : System clients N) (L : Line clients) (d : Datagram) :
    sentFor { x with log := x.log ++ [⟨some L, d⟩] } L = x.sentFor L ++ [d] := by
  simp [sentFor]

theorem sentFor_append_of_ne {x : System clients N} {e : Emission clients} {L : Line clients}
    (h : e.line ≠ some L) : sentFor { x with log := x.log ++ [e] } L = x.sentFor L := by
  simp [sentFor, h]

end System

/-! ## What is sent for a line -/

/-- What can be sent for a command: the message, to each session at most once, and then a reply at most. -/
def SendsFor (client : SockAddr) (sessionId : Int32) (command : Bytes) (ds : List Datagram) : Prop :=
  ∃ ds₁ ds₂, ds = ds₁ ++ ds₂ ∧ AtMostReply client ds₂ ∧ (ds₁ = [] ∨ ∃ relay conns, relayOf command = some relay ∧
    (conns.map Prod.fst).Nodup ∧ ds₁ = sentTo (relayText sessionId relay) conns)

section SendsFor

variable {client : SockAddr} {sessionId : Int32} {command : Bytes} {ds ds' : List Datagram} {d : Datagram}

theorem mem_sentTo {conns : List (Int32 × SockAddr)} :
    d ∈ sentTo command conns ↔ ∃ conn ∈ conns, d = serverCommand conn.1 command conn.2 := by
  simp [sentTo, eq_comm]

theorem isRelay_of_mem_sentTo {conns : List (Int32 × SockAddr)} (h : d ∈ sentTo command conns) : IsRelay d := by
  obtain ⟨conn, _, rfl⟩ := mem_sentTo.mp h
  rfl

/-- The message comes first: what is sent for a command are its messages, and then what is no message. -/
theorem SendsFor.messages (h : SendsFor client sessionId command ds) :
    ds.filter IsRelay = [] ∨ ∃ relay conns, relayOf command = some relay ∧ (conns.map Prod.fst).Nodup ∧
      ds.filter IsRelay = sentTo (relayText sessionId relay) conns := by
  obtain ⟨ds₁, ds₂, rfl, hreply, hmessages⟩ := h
  have hrest : ds₂.filter IsRelay = [] := by
    rcases hreply with rfl | ⟨d, rfl, _, htype⟩
    · rfl
    · exact List.filter_eq_nil_iff.mpr fun e he => by simpa [List.mem_singleton.mp he, IsRelay] using htype
  rw [List.filter_append, hrest, List.append_nil]
  rcases hmessages with rfl | ⟨relay, conns, hrelay, hnodup, rfl⟩
  · exact .inl rfl
  · refine .inr ⟨relay, conns, hrelay, hnodup, List.filter_eq_self.mpr fun d hd => ?_⟩
    simpa using isRelay_of_mem_sentTo hd

/-- A message has the text of the command. -/
theorem SendsFor.message (h : SendsFor client sessionId command ds) (hd : d ∈ ds) (hrelay : IsRelay d) :
    ∃ relay k, relayOf command = some relay ∧ d = serverCommand k (relayText sessionId relay) d.dest := by
  have hmem : d ∈ ds.filter IsRelay := List.mem_filter.mpr ⟨hd, by simpa using hrelay⟩
  rcases h.messages with hnil | ⟨relay, conns, hr, _, heq⟩
  · rw [hnil] at hmem
    cases hmem
  · rw [heq] at hmem
    obtain ⟨conn, _, rfl⟩ := mem_sentTo.mp hmem
    exact ⟨relay, conn.1, hr, rfl⟩

/-- A message goes to a session to which none went before. -/
theorem SendsFor.fresh (h : SendsFor client sessionId command (ds ++ [d])) (hrelay : IsRelay d) :
    ∀ d' ∈ ds, IsRelay d' → addressee d' ≠ addressee d := by
  intro d' hd' hrelay' heq
  have hfilter : (ds ++ [d]).filter IsRelay = ds.filter IsRelay ++ [d] := by
    rw [List.filter_append, List.filter_cons_of_pos (by simpa using hrelay), List.filter_nil]
  have hmem : d' ∈ ds.filter IsRelay := List.mem_filter.mpr ⟨hd', by simpa using hrelay'⟩
  have hmessages := h.messages
  rw [hfilter] at hmessages
  rcases hmessages with hnil | ⟨relay, conns, _, hnodup, hsent⟩
  · simp at hnil
  · -- the addressees are those of the connections
    have haddressees : (ds.filter IsRelay ++ [d]).map addressee = (conns.map Prod.fst).map some := by
      simp only [hsent, sentTo, List.map_map, Function.comp_def, addressee_serverCommand]
    have hdistinct : ((ds.filter IsRelay ++ [d]).map addressee).Nodup := by
      rw [haddressees]
      exact hnodup.map (Option.some_injective _)
    rw [List.map_append, List.nodup_append] at hdistinct
    exact hdistinct.2.2 _ (List.mem_map_of_mem hmem) _ (List.mem_singleton_self _) heq

/-- What is no message is the reply, and the last that is sent. -/
theorem SendsFor.reply (h : SendsFor client sessionId command (ds ++ d :: ds')) (hrelay : ¬IsRelay d) :
    d.dest = client ∧ ds' = [] := by
  obtain ⟨ds₁, ds₂, heq, hreply, hmessages⟩ := h
  have hnot : d ∉ ds₁ := by
    intro hd
    rcases hmessages with rfl | ⟨_, _, _, _, rfl⟩
    · cases hd
    · exact hrelay (isRelay_of_mem_sentTo hd)
  rcases List.append_eq_append_iff.mp heq with ⟨as, rfl, hds₂⟩ | ⟨bs, rfl, hds₂⟩
  · cases as with
    | nil =>
      rcases hreply with rfl | ⟨e, rfl, hdest, _⟩
      · cases hds₂
      · obtain ⟨rfl, rfl⟩ := List.cons.inj hds₂
        exact ⟨hdest, rfl⟩
    | cons e as =>
      obtain ⟨rfl, _⟩ := List.cons.inj hds₂
      exact absurd (List.mem_append_right _ List.mem_cons_self) hnot
  · rcases hreply with rfl | ⟨e, rfl, hdest, _⟩
    · simp at hds₂
    · cases bs with
      | nil =>
        obtain ⟨rfl, rfl⟩ := List.cons.inj hds₂
        exact ⟨hdest, rfl⟩
      | cons b bs =>
        obtain ⟨_, h⟩ := List.cons.inj hds₂
        simp at h

end SendsFor

/-! ## Handling a packet -/

section Handling

variable {mp : Msgpack} {u : Uninit} {packet : Packet} {ds : List Datagram}

theorem maySend_handlePacket (h : (handlePacket mp u packet).MaySend ds) : ds = [] ∨ ∃ packetType data,
    getDataFromPacket mp packet.data = some (packetType, data) ∧
      (dispatch u data packet.source packetType).MaySend ds := by
  unfold handlePacket at h
  split at h
  · exact .inl h
  · rename_i packetType data hget
    exact .inr ⟨packetType, data, hget, h⟩

/-- **What a worker can send while it handles a command.** A packet that does not fit ends the worker. -/
theorem sendsFor_of_maySend [mp.Lawful] {playerCommand : Sendplayercommand} {server client : SockAddr}
    {buffer : PacketBuffer} (hvalid : playerCommand.pack.Valid) (h : (handlePacket mp u
      (received mp ⟨.SENDPLAYERCOMMAND, playerCommand.pack, server⟩ buffer client)).MaySend ds) :
    SendsFor client playerCommand.sessionId playerCommand.command ds := by
  rcases maySend_handlePacket h with rfl | ⟨packetType, data, hget, h⟩
  · exact ⟨[], [], rfl, .inl rfl, .inl rfl⟩
  · have hfit : Fits playerCommand.pack := by
      by_contra hfit
      have hnone := getDataFromPacket_of_not_fits mp (d := ⟨.SENDPLAYERCOMMAND, _, server⟩) hfit hvalid buffer
      cases hnone.symm.trans hget
    have hread := getDataFromPacket_fits mp (d := ⟨.SENDPLAYERCOMMAND, _, server⟩) hfit hvalid buffer
    obtain ⟨rfl, rfl⟩ := Prod.mk.inj (Option.some.inj (hread.symm.trans hget))
    obtain ⟨ds₁, ds₂, rfl, hreply, hmessages⟩ := maySend_dispatch h
    refine ⟨ds₁, ds₂, rfl, hreply, ?_⟩
    rcases hmessages with rfl | ⟨_, rfl | ⟨packet, relay, conns, hconv, hrelay, hnodup, rfl⟩⟩
    · exact .inl rfl
    · exact .inl rfl
    · obtain rfl : playerCommand = packet :=
        Option.some.inj ((Sendplayercommand.convert_pack u playerCommand).symm.trans hconv)
      exact .inr ⟨relay, conns, hrelay, hnodup, rfl⟩

/-- What is no message goes to the source of the packet. -/
theorem dest_of_maySend (h : (handlePacket mp u packet).MaySend ds) {d : Datagram} (hd : d ∈ ds)
    (hrelay : ¬IsRelay d) : d.dest = packet.source := by
  rcases maySend_handlePacket h with rfl | ⟨packetType, data, _, h⟩
  · cases hd
  · obtain ⟨ds₁, ds₂, rfl, hreply, hmessages⟩ := maySend_dispatch h
    rcases List.mem_append.mp hd with hd | hd
    · rcases hmessages with rfl | ⟨_, rfl | ⟨_, _, _, _, _, _, rfl⟩⟩
      · cases hd
      · cases hd
      · exact absurd (isRelay_of_mem_sentTo hd) hrelay
    · rcases hreply with rfl | ⟨e, rfl, hdest, _⟩
      · cases hd
      · exact List.mem_singleton.mp hd ▸ hdest

end Handling

/-! ## A client in the game -/

/-- State 3, unless an exception has escaped. -/
def InGame (c : Client) : Prop := c.loc = .command ∨ c.loc = .commandReply ∨ c.loc = .terminated

section InGame

variable {mp : Msgpack} {server : SockAddr} {c c' : Client} {out : Option Sending}

/-- A line is read between two commands. Unless it is empty, or too long to be packed, it is sent, and the client waits
for a packet. -/
theorem step_line (hgame : InGame c) {line : Bytes} (h : c.step mp server (.line line) = some (c', out)) :
    c.loc = .command ∧ c'.session = c.session ∧
      (out = none ∧ (c'.loc = .command ∨ c'.loc = .terminated) ∨
        ∃ y playerCommand, out = some y ∧ c'.loc = .commandReply ∧
          y.datagram = ⟨.SENDPLAYERCOMMAND, Sendplayercommand.pack playerCommand, server⟩ ∧
          playerCommand.pack.Valid ∧ playerCommand.sessionId = c.session ∧ playerCommand.command = line) := by
  have hloc {loc : Loc} (hl : c.loc = loc) : loc = .command ∨ loc = .commandReply ∨ loc = .terminated := hl ▸ hgame
  cases step_sound h with
  | command _ hl _ hpack hs =>
    obtain ⟨_⟩ := hs
    exact ⟨hl, rfl, .inr ⟨_, ⟨c.packetNumber, c.session, line⟩, rfl, rfl, rfl, valid_textBody hpack, rfl, rfl⟩⟩
  | empty hl => exact ⟨hl, rfl, .inl ⟨rfl, .inl hl⟩⟩
  | longCommand _ hl => exact ⟨hl, rfl, .inl ⟨rfl, .inr rfl⟩⟩
  | connect _ hl | stop _ hl | firstName _ _ hl | lastName _ _ _ hl | longName _ _ _ hl =>
    rcases hloc hl with h | h | h <;> cases h

/-- A packet is taken after a command, and then the client waits for a line. -/
theorem step_packet (hgame : InGame c) {u : Uninit} {p : Packet} (h : c.step mp server (.packet u p) = some (c', out)) :
    c.loc = .commandReply ∧ c'.session = c.session ∧ (c'.loc = .command ∨ c'.loc = .terminated) := by
  have hloc {loc : Loc} (hl : c.loc = loc) : loc = .command ∨ loc = .commandReply ∨ loc = .terminated := hl ▸ hgame
  cases step_sound h with
  | commandPacket _ _ hl =>
    rcases commandPacket_cases mp c u p with h | h <;> rw [h]
    · exact ⟨hl, rfl, .inr rfl⟩
    · exact ⟨hl, rfl, .inl rfl⟩
  | connectPacket _ _ hl | listUsersPacket _ _ _ hl => rcases hloc hl with h | h | h <;> cases h

end InGame

end Celegraph.Chat
