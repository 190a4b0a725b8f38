import Celegraph.Client.Agreement

/-!
# Which reply the client takes

The main loop, `PacketListener`, the server, and the packets on their way between them (`Exchange`). Replies may be
delayed, overtake each other, get lost or arrive twice; other clients send packets to the server all the time.

- The loop waits for a packet after each request, so there is at most one request, one reply or one queued packet that
  is no message of another client, and it belongs to the last request (`Invariant`), as long as no reply is doubled.
- Then what states 2 and 3 take and act on is the reply to the last request (`replies_matched`), unless it is the
  error for a player command whose session is not live. Neither state looks at the type or the number of the packet.

A handler holds `serverStateMutex` from the verification of the session to the reply, so the server handles one packet
after another here.
-/

namespace Celegraph.Client

open CxxString Packets Utils Runs Server
open MessagePack (Obj)

/-- The client, the server, and what is on its way between them. -/
structure Exchange extends Endpoint where
  sent : List Sending
  server : Server
  requests : List Datagram
  replies : List Datagram

namespace Exchange

/-- The steps. -/
inductive Act where
  /-- The main loop goes on by itself or with a line. -/
  | input (a : Input)
  /-- `WaitOnPacketQueue` returns a packet. -/
  | take (u : Uninit)
  /-- The server handles a request of the client. -/
  | serve (k : Nat) (u : Uninit) (buffer : PacketBuffer)
  /-- The server handles a packet from somewhere else. -/
  | other (u : Uninit) (packet : Packet)
  | lose (k : Nat)
  | duplicate (k : Nat)
  /-- `PacketListener` receives a packet. -/
  | deliver (k : Nat) (u : Uninit)

/-- The client has just started. -/
def init (server : Server) (buffer : PacketBuffer) : Exchange := ⟨⟨.init, buffer, []⟩, [], server, [], []⟩

variable (mp : Msgpack) (addr server : SockAddr)

/-- A packet is handled by the server; what it sends to the client is on its way. -/
def handle (x : Exchange) (u : Uninit) (packet : Packet) : Option Exchange :=
  match (handlePacket mp u packet).run x.server [] with
  | .ok _ s _ out => some { x with server := s, replies := x.replies ++ out.filter (·.dest = addr) }
  | _ => none

def step (x : Exchange) : Act → Option Exchange
  | .input (.packet _ _) => none
  | .input a => (x.client.step mp server a).map fun r => { x with
      client := r.1
      sent := x.sent ++ r.2.toList
      requests := x.requests ++ (r.2.map Sending.datagram).toList }
  | .take u => (x.take mp server u).map fun e => { x with toEndpoint := e }
  | .serve k u buffer =>
    match x.requests[k]? with
    | none => none
    | some d => handle mp addr { x with requests := x.requests.eraseIdx k } u (received mp d buffer addr)
  | .other u packet => if packet.source = addr then none else handle mp addr x u packet
  | .lose k => if k < x.replies.length then some { x with replies := x.replies.eraseIdx k } else none
  | .duplicate k => x.replies[k]?.map fun d => { x with replies := x.replies ++ [d] }
  | .deliver k u => x.replies[k]?.map fun d => { x with
      toEndpoint := x.hear mp u (received mp d x.buffer server)
      replies := x.replies.eraseIdx k }

end Exchange

/-! ## One request at a time -/

/-- The type of the request whose reply the main loop waits for. -/
def Loc.awaits : Loc → Option PTYPE
  | .connectReply => some .CONNECT
  | .listReply _ => some .LISTUSERS
  | .commandReply => some .SENDPLAYERCOMMAND
  | _ => none

/-- The main loop asks for the names of a new user. -/
def Loc.IsName : Loc → Prop
  | .firstName _ | .lastName _ _ => True
  | _ => False

theorem Loc.not_isName {loc : Loc} {t : PTYPE} (h : loc.awaits = some t) : ¬loc.IsName := by
  cases loc <;> first | exact id | cases h

/-- A reply of the server to a request; for a player command, while its session is live. -/
def ReplyTo (addr : SockAddr) (m : Message) (d : Datagram) : Prop :=
  ∃ s u, (∀ p, m = .sendPlayerCommand p → p.sessionId ∈ s.serverState.sessions) ∧
    reply s u m.pack addr m.packetType.value = some d

variable {mp : Msgpack} {addr server : SockAddr} {c c' : Client} {m : Message} {d : Datagram}

theorem ReplyTo.listUsers {p : Listusers} (h : ReplyTo addr (.listUsers p) d) :
    d = listUsersReply addr p ∨ d = invalidSessionError addr := by
  obtain ⟨s, u, _, hr⟩ := h
  have hr' := (reply_listUsers s u addr p).symm.trans hr
  split_ifs at hr'
  · exact .inl (Option.some.inj hr').symm
  · exact .inr (Option.some.inj hr').symm

theorem ReplyTo.sendPlayerCommand {p : Sendplayercommand} (h : ReplyTo addr (.sendPlayerCommand p) d) :
    d = commandReply addr p := by
  obtain ⟨s, u, hlive, hr⟩ := h
  have hr' := (reply_playerCommand s u addr p).symm.trans hr
  rw [if_pos (hlive p rfl)] at hr'
  split_ifs at hr'
  exact (Option.some.inj hr').symm

/-- The packet has the type and the number of the request. -/
def Matches (mp : Msgpack) (m : Message) (p : Packet) : Prop :=
  ∃ body, getDataFromPacket mp p.data = some (m.packetType.value, body) ∧ payloadId body = some m.packetId

/-- **After the reply to its request** the main loop waits for no packet and asks for no names, unless an exception has
escaped. In states 2 and 3 the reply has the type and the number of the request. -/
theorem step_replyTo [mp.Lawful] (hloc : c.loc.awaits = some m.packetType) (hd : ReplyTo addr m d) {u : Uninit}
    {buffer : PacketBuffer} {out : Option Sending}
    (h : c.step mp server (.packet u (received mp d buffer server)) = some (c', out)) :
    c'.loc = .terminated ∨ c'.loc.awaits = none ∧ ¬c'.loc.IsName ∧
      (c.loc = .connectReply ∨ Matches mp m (received mp d buffer server)) := by
  have hget : getDataFromPacket mp (received mp d buffer server).data = some (d.packetType.value, d.body) := by
    obtain ⟨_, _, _, hr⟩ := hd
    exact getDataFromPacket_fits mp (reply_fits hr).1 (reply_fits hr).2 buffer
  cases step_sound h with
  | connectPacket _ _ hl =>
    rcases connectPacket_cases mp c u (received mp d buffer server) with h | h | ⟨_, h⟩ <;> rw [h]
    · exact .inl rfl
    · exact .inr ⟨rfl, id, .inl hl⟩
    · exact .inr ⟨rfl, id, .inl hl⟩
  | listUsersPacket list _ _ hl =>
    rw [hl] at hloc
    cases m with
    | listUsers p =>
      rcases hd.listUsers with rfl | rfl
      · have hconv : Listusers.convert u (listUsersReply addr p).body = some { p with users := testUsers } :=
          Listusers.convert_pack _ _
        refine .inr ⟨?_, ?_, .inr ⟨_, hget, payloadId_pack (.listUsers { p with users := testUsers })⟩⟩ <;>
          simp only [listUsersPacket, hget, hconv]
        · rfl
        · exact id
      · simp only [listUsersPacket, hget, convert_invalidSessionError]
        exact .inl trivial
    | _ => cases hloc
  | commandPacket _ _ hl =>
    rw [hl] at hloc
    cases m with
    | sendPlayerCommand p =>
      obtain rfl := hd.sendPlayerCommand
      rcases commandPacket_cases mp c u (received mp (commandReply addr p) buffer server) with h | h <;> rw [h]
      · exact .inl rfl
      · exact .inr ⟨rfl, id, .inr ⟨_, hget, payloadId_pack (.sendPlayerCommand _)⟩⟩
    | _ => cases hloc

/-- A step of the main loop by itself or with a line: it waits for a packet afterwards if it has sent a request. -/
theorem Step.request {a : Input} {out : Option Sending} (h : Step mp server c a c' out)
    (ha : ∀ u p, a ≠ .packet u p) (hname : ¬c.loc.IsName) :
    c.loc.awaits = none ∧ (c'.loc = .terminated ∨ out = none ∧ c'.loc.awaits = none ∧ ¬c'.loc.IsName ∨
      ∃ y : Sending, out = some y ∧ c'.loc.awaits = some y.built.packetType ∧
        y.datagram = ⟨y.built.packetType, y.built.pack, server⟩ ∧ y.built.pack.Valid) := by
  cases h with
  | connect _ hloc _ hs =>
    obtain ⟨_⟩ := hs
    exact ⟨by rw [hloc]; rfl, .inr (.inr ⟨_, rfl, rfl, rfl, Connect.valid_pack _⟩)⟩
  | listUsers hloc hs =>
    obtain ⟨_⟩ := hs
    exact ⟨by rw [hloc]; rfl, .inr (.inr ⟨_, rfl, rfl, rfl, Listusers.valid_pack (by simp) (by simp)⟩)⟩
  | command command hloc _ hpack hs =>
    obtain ⟨_⟩ := hs
    exact ⟨by rw [hloc]; rfl, .inr (.inr ⟨_, rfl, rfl, rfl, valid_textBody hpack⟩)⟩
  | stop _ hloc | connected hloc => exact ⟨by rw [hloc]; rfl, .inr (.inl ⟨rfl, rfl, id⟩)⟩
  | empty hloc => exact ⟨by rw [hloc]; rfl, .inr (.inl ⟨rfl, by rw [hloc]; rfl, hname⟩)⟩
  | longCommand _ hloc => exact ⟨by rw [hloc]; rfl, .inl rfl⟩
  | firstName _ _ hloc | lastName _ _ _ hloc | longName _ _ _ hloc => exact absurd (by rw [hloc]; trivial) hname
  | connectPacket u p | listUsersPacket _ u p | commandPacket u p => exact absurd rfl (ha u p)

namespace Exchange

/-- The replies on their way that are no messages of other clients. -/
def pending (x : Exchange) : List Datagram := x.replies.filter (·.packetType ≠ .SENDSERVERCOMMAND)

/-- The main loop waits for no packet, and none is on its way. -/
structure Idle (x : Exchange) : Prop where
  awaits : x.client.loc.awaits = none
  noName : ¬x.client.loc.IsName
  requests : x.requests = []
  pending : x.pending = []
  packetQueue : x.packetQueue = []

/-- The main loop waits for the reply to `y`, of which there is one copy at most: the request, the reply, or the packet
in the queue. -/
structure Waits (mp : Msgpack) (addr server : SockAddr) (x : Exchange) (y : Sending) : Prop where
  last : x.sent.getLast? = some y
  awaits : x.client.loc.awaits = some y.built.packetType
  datagram : y.datagram = ⟨y.built.packetType, y.built.pack, server⟩
  valid : y.built.pack.Valid
  requests : ∀ d ∈ x.requests, d = y.datagram
  pending : ∀ d ∈ x.pending, ReplyTo addr y.built d
  packetQueue : ∀ p ∈ x.packetQueue, ∃ d buffer, ReplyTo addr y.built d ∧ p = received mp d buffer server
  count : x.requests.length + x.pending.length + x.packetQueue.length ≤ 1

/-- What holds between two steps. -/
def Invariant (mp : Msgpack) (addr server : SockAddr) (x : Exchange) : Prop :=
  x.client.loc = .terminated ∨ x.Idle ∨ ∃ y, x.Waits mp addr server y

/-- No reply is doubled, and a player command of the client is handled while its session is live. -/
def Regular (x : Exchange) : Act → Prop
  | .duplicate k => ∀ d ∈ x.replies[k]?, d.packetType = .SENDSERVERCOMMAND
  | .serve k _ _ => ∀ d ∈ x.requests[k]?, d.packetType = .SENDPLAYERCOMMAND →
      ∀ p ∈ Sendplayercommand.convert ⟨0, 0⟩ d.body, p.sessionId ∈ x.server.serverState.sessions
  | _ => True

instance (x : Exchange) : (a : Act) → Decidable (Regular x a)
  | .duplicate k => inferInstanceAs (Decidable (∀ d ∈ x.replies[k]?, d.packetType = .SENDSERVERCOMMAND))
  | .serve k _ _ => inferInstanceAs (Decidable (∀ d ∈ x.requests[k]?, d.packetType = .SENDPLAYERCOMMAND →
      ∀ p ∈ Sendplayercommand.convert ⟨0, 0⟩ d.body, p.sessionId ∈ x.server.serverState.sessions))
  | .input _ | .take _ | .other _ _ | .lose _ | .deliver _ _ => .isTrue trivial

variable {x x' : Exchange} {u : Uninit} {packet : Packet}

/-- **What the handling of a packet puts on its way**: apart from messages of other clients, the reply, if the packet
came from the client. -/
theorem handle_cases (h : handle mp addr x u packet = some x') :
    ∃ packetType data s' ds, getDataFromPacket mp packet.data = some (packetType, data) ∧
      x' = { x with server := s', replies := x.replies ++ ds } ∧
      ds.filter (·.packetType ≠ .SENDSERVERCOMMAND) =
        if packet.source = addr then (reply x.server u data packet.source packetType).toList else [] := by
  unfold handle at h
  split at h
  case h_2 => cases h
  rename_i s' held out hrun
  cases hget : getDataFromPacket mp packet.data with
  | none =>
    rw [handlePacket, hget] at hrun
    cases hrun
  | some r =>
    obtain ⟨packetType, data⟩ := r
    cases h
    refine ⟨packetType, data, s', _, rfl, rfl, ?_⟩
    have hout : out = passedOn x.server u data packetType ++
        (reply x.server u data packet.source packetType).toList := by
      rw [← Prog.sends_of_run hrun, handlePacket, hget]
      exact sends_dispatch _ _ _ _ _
    rw [List.filter_filter, hout, List.filter_append]
    have hpassed : (passedOn x.server u data packetType).filter
        (fun d => decide (d.packetType ≠ .SENDSERVERCOMMAND) && decide (d.dest = addr)) = [] :=
      List.filter_eq_nil_iff.mpr fun d hd => by simp [packetType_of_mem_passedOn hd]
    rw [hpassed, List.nil_append]
    cases hr : reply x.server u data packet.source packetType with
    | none => simp
    | some d =>
      obtain ⟨hdest, htype⟩ := reply_dest hr
      by_cases hsource : packet.source = addr <;> simp [hdest, htype, hsource]

/-- A reply taken out of those on their way, that is no message of another client. -/
theorem length_pending_eraseIdx {k : Nat} (hd : x.replies[k]? = some d) (htype : d.packetType ≠ .SENDSERVERCOMMAND) :
    ((x.replies.eraseIdx k).filter (·.packetType ≠ .SENDSERVERCOMMAND)).length + 1 = x.pending.length := by
  obtain ⟨hk, rfl⟩ := List.getElem?_eq_some_iff.mp hd
  have hperm := ((List.getElem_cons_eraseIdx_perm hk).filter (·.packetType ≠ .SENDSERVERCOMMAND)).length_eq
  rw [List.filter_cons_of_pos (by simpa using htype), List.length_cons] at hperm
  exact hperm

/-- Nothing has changed but that replies may have got lost. -/
theorem Invariant.mono (h : x.Invariant mp addr server) (hclient : x'.client = x.client) (hsent : x'.sent = x.sent)
    (hrequests : x'.requests = x.requests) (hqueue : x'.packetQueue = x.packetQueue)
    (hpending : x'.pending.Sublist x.pending) : x'.Invariant mp addr server := by
  rcases h with h | h | ⟨y, h⟩
  · exact .inl (hclient ▸ h)
  · have hnil : x'.pending = [] := List.eq_nil_of_sublist_nil (h.pending ▸ hpending)
    exact .inr (.inl ⟨hclient ▸ h.awaits, hclient ▸ h.noName, hrequests ▸ h.requests, hnil, hqueue ▸ h.packetQueue⟩)
  · refine .inr (.inr ⟨y, hsent ▸ h.last, hclient ▸ h.awaits, h.datagram, h.valid, hrequests ▸ h.requests,
      fun d hd => h.pending d (hpending.subset hd), hqueue ▸ h.packetQueue, ?_⟩)
    have hlen := hpending.length_le
    have hcount := h.count
    rw [hrequests, hqueue]
    omega

/-- The server has handled a packet that did not come from the client. -/
theorem Invariant.other (h : x.Invariant mp addr server) (hsource : packet.source ≠ addr)
    (hst : handle mp addr x u packet = some x') : x'.Invariant mp addr server := by
  obtain ⟨_, _, s', ds, _, rfl, hds⟩ := handle_cases hst
  rw [if_neg hsource] at hds
  refine h.mono rfl rfl rfl rfl ?_
  rw [pending, List.filter_append, hds, List.append_nil]
  exact .refl _

/-- The server has handled the request: its reply is on its way. -/
theorem Invariant.serve [mp.Lawful] {k : Nat} {buffer : PacketBuffer} (h : x.Invariant mp addr server)
    (hd : x.requests[k]? = some d) (hC : Regular x (.serve k u buffer))
    (hst : handle mp addr { x with requests := x.requests.eraseIdx k } u (received mp d buffer addr) = some x') :
    x'.Invariant mp addr server := by
  obtain ⟨packetType, data, s', ds, hget, rfl, hds⟩ := handle_cases hst
  have hmem := List.mem_of_getElem? hd
  rcases h with h | h | ⟨y, h⟩
  · exact .inl h
  · rw [h.requests] at hmem
    cases hmem
  · obtain rfl := h.requests d hmem
    have hcount := h.count
    have hlen := List.length_eraseIdx_of_lt (List.getElem?_eq_some_iff.mp hd).1
    have hpos := List.length_pos_of_mem hmem
    have hrequests : x.requests.eraseIdx k = [] := List.length_eq_zero_iff.mp (by omega)
    have hpending : x.pending = [] := List.length_eq_zero_iff.mp (by omega)
    have hqueue : x.packetQueue = [] := List.length_eq_zero_iff.mp (by omega)
    -- what the server read is the request
    have hvalid : y.datagram.body.Valid := by rw [h.datagram]; exact h.valid
    have hfit : Fits y.datagram.body := by
      by_contra hfit
      cases (getDataFromPacket_of_not_fits mp hfit hvalid buffer).symm.trans hget
    have hread := getDataFromPacket_fits mp hfit hvalid buffer
    obtain ⟨rfl, rfl⟩ := Prod.mk.inj (Option.some.inj (hread.symm.trans hget))
    have hnew : Exchange.pending
        { x with server := s', requests := x.requests.eraseIdx k, replies := x.replies ++ ds } =
        (reply x.server u y.datagram.body addr y.datagram.packetType.value).toList := by
      rw [Exchange.pending, List.filter_append, hds, ← Exchange.pending, hpending]
      simp [received]
    refine .inr (.inr ⟨y, h.last, h.awaits, h.datagram, h.valid, by simp [hrequests], fun e he => ?_,
      by simp [hqueue], ?_⟩)
    · rw [hnew, Option.mem_toList, h.datagram] at he
      refine ⟨x.server, u, fun p hp => hC _ hd ?_ p ?_, he⟩
      · rw [h.datagram, hp]; rfl
      · rw [h.datagram, hp]; exact Sendplayercommand.convert_pack _ p
    · rw [hnew, hrequests, hqueue]
      simp

/-- `PacketListener` has received a packet. -/
theorem Invariant.deliver {k : Nat} (h : x.Invariant mp addr server) (hd : x.replies[k]? = some d) :
    Invariant mp addr server { x with
      toEndpoint := x.hear mp u (received mp d x.buffer server)
      replies := x.replies.eraseIdx k } := by
  have hsub := (List.eraseIdx_sublist x.replies k).filter (·.packetType ≠ .SENDSERVERCOMMAND)
  rcases x.toEndpoint.hear_cases u d x.buffer server with hdead | ⟨_, hprint⟩ | ⟨htype, hqueued⟩
  · rw [hdead]
    exact .inl rfl
  · rw [hprint]
    exact h.mono rfl rfl rfl rfl hsub
  · have hpending : d ∈ x.pending := List.mem_filter.mpr ⟨List.mem_of_getElem? hd, by simpa using htype⟩
    rw [hqueued]
    rcases h with h | h | ⟨y, h⟩
    · exact .inl h
    · rw [h.pending] at hpending
      cases hpending
    · have hlen := length_pending_eraseIdx hd htype
      have hcount := h.count
      have hqueue : x.packetQueue = [] := List.length_eq_zero_iff.mp (by omega)
      refine .inr (.inr ⟨y, h.last, h.awaits, h.datagram, h.valid, h.requests, fun e he => h.pending e (hsub.subset he),
        fun p hp => ?_, ?_⟩)
      · rw [hqueue, List.nil_append, List.mem_singleton] at hp
        exact ⟨d, x.buffer, h.pending d hpending, hp⟩
      · simp only [Exchange.pending, List.length_append, List.length_singleton, hqueue, List.length_nil] at hcount hlen ⊢
        omega

/-- The main loop has gone on by itself or with a line. -/
theorem Invariant.input {a : Input} {out : Option Sending} (h : x.Invariant mp addr server)
    (ha : ∀ u p, a ≠ .packet u p) (hst : x.client.step mp server a = some (c', out)) :
    Invariant mp addr server { x with
      client := c'
      sent := x.sent ++ out.toList
      requests := x.requests ++ (out.map Sending.datagram).toList } := by
  have hstep := step_sound hst
  rcases h with h | h | ⟨y, h⟩
  · cases a with
    | packet u p => exact absurd rfl (ha u p)
    | run | line => simp [Client.step, h] at hst
  · obtain ⟨_, hdead | ⟨rfl, hloc, hname⟩ | ⟨y, rfl, hawaits, hdatagram, hvalid⟩⟩ := hstep.request ha h.noName
    · exact .inl hdead
    · refine .inr (.inl ⟨hloc, hname, ?_, h.pending, h.packetQueue⟩)
      simpa using h.requests
    · refine .inr (.inr ⟨y, by simp, hawaits, hdatagram, hvalid, fun d hd => ?_, fun d hd => ?_, fun p hp => ?_, ?_⟩)
      · simpa [h.requests] using hd
      · change d ∈ x.pending at hd
        rw [h.pending] at hd
        cases hd
      · rw [h.packetQueue] at hp
        cases hp
      · change (x.requests ++ [y.datagram]).length + x.pending.length + x.packetQueue.length ≤ 1
        simp [h.pending, h.requests, h.packetQueue]
  · have hnone := (hstep.request ha (Loc.not_isName h.awaits)).1
    rw [h.awaits] at hnone
    cases hnone

/-- A packet that the main loop takes is the reply that it waits for. -/
theorem Invariant.taken {p : Packet} {rest : List Packet} {out : Option Sending} (h : x.Invariant mp addr server)
    (hqueue : x.packetQueue = p :: rest) (hst : x.client.step mp server (.packet u p) = some (c', out)) :
    ∃ y d buffer, x.Waits mp addr server y ∧ ReplyTo addr y.built d ∧ p = received mp d buffer server := by
  rcases h with h | h | ⟨y, h⟩
  · simp [Client.step, h] at hst
  · rw [h.packetQueue] at hqueue
    cases hqueue
  · obtain ⟨d, buffer, hd, hp⟩ := h.packetQueue p (hqueue ▸ List.mem_cons_self)
    exact ⟨y, d, buffer, h, hd, hp⟩

/-- The main loop has taken a packet. -/
theorem Invariant.take [mp.Lawful] {p : Packet} {rest : List Packet} {out : Option Sending}
    (h : x.Invariant mp addr server) (hqueue : x.packetQueue = p :: rest)
    (hst : x.client.step mp server (.packet u p) = some (c', out)) :
    Invariant mp addr server { x with client := c', packetQueue := rest } := by
  obtain ⟨y, d, buffer, hy, hd, rfl⟩ := h.taken hqueue hst
  have hcount := hy.count
  rw [hqueue, List.length_cons] at hcount
  rcases step_replyTo hy.awaits hd hst with hdead | ⟨hnone, hname, _⟩
  · exact .inl hdead
  · have hrequests : x.requests = [] := List.length_eq_zero_iff.mp (by omega)
    have hpending : x.pending = [] := List.length_eq_zero_iff.mp (by omega)
    have hrest : rest = [] := List.length_eq_zero_iff.mp (by omega)
    exact .inr (.inl ⟨hnone, hname, hrequests, hpending, hrest⟩)

/-- **A step keeps the invariant**, if it doubles no reply and handles player commands of live sessions only. -/
theorem Invariant.step [mp.Lawful] {a : Act} (h : x.Invariant mp addr server) (hC : Regular x a)
    (hst : x.step mp addr server a = some x') : x'.Invariant mp addr server := by
  cases a with
  | input a =>
    have ha (u : Uninit) (p : Packet) : a ≠ .packet u p := by
      rintro rfl
      cases hst
    have hst' : (x.client.step mp server a).map (fun r => { x with
        client := r.1
        sent := x.sent ++ r.2.toList
        requests := x.requests ++ (r.2.map Sending.datagram).toList }) = some x' := by
      cases a with
      | packet u p => exact absurd rfl (ha u p)
      | run | line => exact hst
    obtain ⟨⟨c', out⟩, hc, rfl⟩ := Option.map_eq_some_iff.mp hst'
    exact h.input ha hc
  | take u =>
    obtain ⟨e, he, rfl⟩ := Option.map_eq_some_iff.mp hst
    obtain ⟨p, rest, c', out, hqueue, hc, rfl⟩ := Endpoint.take_eq_some he
    exact h.take hqueue hc
  | serve k u buffer =>
    simp only [Exchange.step] at hst
    split at hst
    · cases hst
    · rename_i d hd
      exact h.serve hd hC hst
  | other u packet =>
    simp only [Exchange.step] at hst
    split at hst
    · cases hst
    · rename_i hsource
      exact h.other hsource hst
  | lose k =>
    simp only [Exchange.step] at hst
    split at hst
    · cases hst
      exact h.mono rfl rfl rfl rfl ((List.eraseIdx_sublist _ _).filter _)
    · cases hst
  | duplicate k =>
    obtain ⟨d, hd, rfl⟩ := Option.map_eq_some_iff.mp hst
    refine h.mono rfl rfl rfl rfl ?_
    rw [pending, List.filter_append, List.filter_cons_of_neg (by simpa using hC d hd), List.filter_nil, List.append_nil]
    exact .refl _
  | deliver k u =>
    obtain ⟨d, hd, rfl⟩ := Option.map_eq_some_iff.mp hst
    exact h.deliver hd

/-- What states 2 and 3 take from the queue and act on is the reply to the last request. -/
def TakesReply (mp : Msgpack) (server : SockAddr) (x : Exchange) : Prop :=
  ∀ u p rest c' out, x.packetQueue = p :: rest → x.client.step mp server (.packet u p) = some (c', out) →
    x.client.loc ≠ .connectReply → c'.loc ≠ .terminated → ∃ y, x.sent.getLast? = some y ∧ Matches mp y.built p

theorem Invariant.takesReply [mp.Lawful] (h : x.Invariant mp addr server) : x.TakesReply mp server := by
  intro u p rest c' out hqueue hst hloc halive
  obtain ⟨y, d, buffer, hy, hd, rfl⟩ := h.taken hqueue hst
  rcases step_replyTo hy.awaits hd hst with hdead | ⟨_, _, hconnect | hmatch⟩
  · exact absurd hdead halive
  · exact absurd hconnect hloc
  · exact ⟨y, hy.last, hmatch⟩

variable {start : Server} {buffer : PacketBuffer} {tr : List (Exchange × Act)}

/-- **Replies are matched to requests** in a run in which no reply is doubled, and the player commands of the client are
handled while their session is live. -/
theorem replies_matched [mp.Lawful] (h : Run (step mp addr server) (init start buffer) tr x)
    (hC : ∀ y ∈ tr, Regular y.1 y.2) : x.TakesReply mp server := by
  have hinv := h.invariant_where (C := Regular) (I := fun x => x.Invariant mp addr server)
    (.inr (.inl ⟨rfl, id, rfl, rfl, rfl⟩)) (fun _ _ _ hI hC hst => hI.step hC hst) hC
  exact hinv.takesReply

/-! ## A reply that comes twice -/

/-- A request of the client, its handling, and its reply. -/
def roundTrip (a : Input) : List Act := [.input a, .serve 0 ⟨0, 0⟩ fun _ => 0, .deliver 0 ⟨0, 0⟩, .take ⟨0, 0⟩]

/-- The client connects and gets the list of users. -/
def login : List Act := roundTrip (.line (text "y")) ++ .input .run :: roundTrip .run

/-- The reply to the first command comes twice, before and after the second command. -/
def doubledReply : List Act :=
  login ++ [.input (.line (text "hello")), .serve 0 ⟨0, 0⟩ fun _ => 0, .duplicate 0, .deliver 0 ⟨0, 0⟩, .take ⟨0, 0⟩,
    .input (.line (text "bye")), .deliver 0 ⟨0, 0⟩]

/-- The number of a packet that is printed as the response to a command. -/
def responseId (p : Packet) : Option Int32 := do
  let (_, body) ← getDataFromPacket .reference p.data
  let _ ← Sendplayercommand.convert ⟨0, 0⟩ body
  payloadId body

theorem responseId_eq_some {p : Packet} {n : Int32} (h : responseId p = some n) : ∃ packetType body response,
    getDataFromPacket .reference p.data = some (packetType, body) ∧
      Sendplayercommand.convert ⟨0, 0⟩ body = some response ∧ payloadId body = some n := by
  obtain ⟨⟨packetType, body⟩, hget, h⟩ := Option.bind_eq_some_iff.mp h
  obtain ⟨response, hconv, h⟩ := Option.bind_eq_some_iff.mp h
  exact ⟨packetType, body, response, hget, hconv, h⟩

/-- The client takes the response to command 3 for the one to command 4. -/
theorem not_replies_matched :
    ¬∀ (addr server : SockAddr) (start : Server) (buffer : PacketBuffer) (tr : List (Exchange × Act)) (x : Exchange),
      Run (step .reference addr server) (init start buffer) tr x → x.TakesReply .reference server := by
  intro hall
  have hexec : (exec (step .reference Sessions.localClient localServer) (init .init fun _ => 0)
      doubledReply).map (fun x =>
        (x.client.loc.awaits, x.packetQueue.map responseId, x.sent.getLast?.map (·.built.packetId))) =
      some (some .SENDPLAYERCOMMAND, [some 3], some 4) := by decide +kernel
  obtain ⟨x, hx, hfacts⟩ := Option.map_eq_some_iff.mp hexec
  obtain ⟨hawaits, hqueue, hlast⟩ : _ ∧ _ ∧ _ := by simpa only [Prod.mk.injEq] using hfacts
  obtain ⟨tr, hr, _⟩ := Run.of_exec hx
  obtain ⟨p, rest, hp, hread, _⟩ := List.map_eq_cons_iff.mp hqueue
  obtain ⟨packetType, body, response, hget, hconv, hid⟩ := responseId_eq_some hread
  have hloc : x.client.loc = .commandReply := by
    cases hl : x.client.loc <;> rw [hl] at hawaits <;> first | rfl | cases hawaits
  obtain ⟨y, hy, body', hget', hid'⟩ := hall Sessions.localClient localServer .init _ tr x hr ⟨0, 0⟩ p rest _ none hp
    (step_commandReply hloc ⟨0, 0⟩ p) (by rw [hloc]; exact Loc.noConfusion)
    (by simp only [commandPacket, hget, hconv]; exact Loc.noConfusion)
  rw [hy] at hlast
  rw [hget] at hget'
  cases hget'
  rw [hid] at hid'
  rw [Option.map_some, ← hid'] at hlast
  exact absurd hlast (by decide)

/-- The response to the first command is in the queue. -/
def responseArrives : List Act :=
  login ++ [.input (.line (text "hello")), .serve 0 ⟨0, 0⟩ fun _ => 0, .deliver 0 ⟨0, 0⟩]

theorem replies_matched_response :
    ∃ tr x, Run (step .reference Sessions.localClient localServer) (init .init fun _ => 0) tr x ∧
      tr.map Prod.snd = responseArrives ∧ x.packetQueue.map responseId = [some 3] ∧
        x.TakesReply .reference localServer := by
  have hexec : (exec (guarded (step .reference Sessions.localClient localServer) Regular) (init .init fun _ => 0)
      responseArrives).map (fun x => x.packetQueue.map responseId) = some [some 3] := by decide +kernel
  obtain ⟨x, hx, hqueue⟩ := Option.map_eq_some_iff.mp hexec
  obtain ⟨tr, hr, hacts⟩ := Run.of_exec hx
  obtain ⟨hr, hC⟩ := hr.of_guarded
  exact ⟨tr, x, hr, hacts, hqueue, replies_matched hr hC⟩

end Exchange

end Celegraph.Client
