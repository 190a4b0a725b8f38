import Celegraph.Client.Endpoint
import Celegraph.Client.Sent
import Celegraph.Lib.Sends
import Celegraph.Sessions.Isolation

/-!
# The clients are honest

Any number of clients, each with its main loop in all its states, its `PacketListener` and its queue, in front of the
workers, over a network that loses, doubles and reorders packets (`World`).

- `Entitled known c`: the client names a session that it was given, or has none yet. Its steps keep this, and so its
  packets are those of an honest client (`Entitled.step`).
- `Simulates mp x n`: the clients `x` behave as the honest clients `n` of `Isolation.lean` (`Simulates.step`).
- `clients_apart`: so each session that a client has taken is connected to its address, no two clients have the same
  one, and the messages for it go to the client.
-/

namespace Celegraph.Sessions

open CxxString Packets Utils Client Server Runs
open MessagePack (Obj)
open Queue (NUM_WORKER_THREADS)

/-! ## A client -/

/-- The states in which the client has no session yet. -/
def Early : Loc → Prop
  | .connect | .connectReply | .stopped | .terminated => True
  | _ => False

/-- The client names a session that it knows, or has none, and so does the request that it holds in `buffer`. -/
structure Entitled (known : List Int32) (c : Client) : Prop where
  session : c.session ∈ known ∨ c.session = 0 ∧ Early c.loc
  buffer : ∀ buffer, c.loc.buffer? = some buffer →
    ∃ p : Listusers, p.users = [] ∧ p.sessionId = c.session ∧ buffer = p.pack

/-- The packet names a session that is known, or is a `CONNECT` without a session. -/
structure Honest (known : List Int32) (d : Datagram) : Prop where
  session : ∃ id, suppliedSession d.body = some id ∧ (d.packetType = .CONNECT ∧ id = 0 ∨ id ∈ known)
  valid : d.body.Valid

/-- The session in a `CONNECT` packet is known. -/
def Announces (mp : Msgpack) (known : List Int32) (p : Packet) : Prop :=
  ∀ data, getDataFromPacket mp p.data = some (PTYPE.CONNECT.value, data) →
    ∀ u packet, Connect.convert u data = some packet → packet.sessionId ∈ known

section Client

variable {mp : Msgpack} {known known' : List Int32} {server : SockAddr} {c c' : Client} {a : Input}
  {out : Option Sending}

theorem Entitled.mono (h : Entitled known c) (hsub : known ⊆ known') : Entitled known' c :=
  ⟨h.session.imp_left fun hmem => hsub hmem, h.buffer⟩

/-- The client moves to a place where it holds no request. -/
theorem Entitled.move (h : Entitled known c) (packetNumber : Int32) (loc : Loc) (hearly : Early c.loc → Early loc)
    (hbuffer : loc.buffer? = none) : Entitled known ⟨c.session, packetNumber, loc⟩ :=
  ⟨h.session.imp_right fun hs => ⟨hs.1, hearly hs.2⟩, fun buffer hb => by
    rw [hbuffer] at hb
    cases hb⟩

/-- The client still holds the request. -/
theorem Entitled.keep (h : Entitled known c) {loc : Loc} {buffer : Obj} (hold : c.loc.buffer? = some buffer)
    (hnew : loc.buffer? = some buffer) (hearly : ¬Early c.loc) : Entitled known { c with loc } := by
  refine ⟨h.session.imp_right fun hs => absurd hs.2 hearly, fun buffer' hb => ?_⟩
  obtain rfl := Option.some.inj (hnew.symm.trans hb)
  exact h.buffer _ hold

theorem suppliedSession_members (packetId sessionId : Int32) (xs : List Obj) :
    suppliedSession (.array (packInt32 packetId :: packInt32 sessionId :: xs)) = some sessionId :=
  convertInt32_packInt32 sessionId

/-- A session that is not early is known. -/
theorem Entitled.mem (h : Entitled known c) (hearly : ¬Early c.loc) : c.session ∈ known :=
  h.session.resolve_right fun hs => hearly hs.2

/-- **A client is honest**: a step keeps what it is entitled to, and what it sends names a session that it knows, as
long as the `CONNECT` packets that it takes do. -/
theorem Entitled.step (h : Entitled known c) (hst : Step mp server c a c' out)
    (hpacket : ∀ u p, a = .packet u p → Announces mp known p) :
    Entitled known c' ∧ ∀ y ∈ out, Honest known y.datagram := by
  cases hst with
  | connect response hloc _ hs =>
    obtain ⟨_⟩ := hs
    refine ⟨h.move _ .connectReply (fun _ => trivial) rfl, ?_⟩
    rintro y ⟨⟩
    refine ⟨⟨c.session, suppliedSession_members _ _ _, ?_⟩, Connect.valid_pack _⟩
    exact h.session.symm.imp (fun hs => ⟨rfl, hs.1⟩) id
  | listUsers hloc hs =>
    obtain ⟨_⟩ := hs
    have hmem := h.mem (by rw [hloc]; exact id)
    refine ⟨⟨.inl hmem, ?_⟩, ?_⟩
    · rintro buffer ⟨⟩
      exact ⟨_, rfl, rfl, rfl⟩
    · rintro y ⟨⟩
      exact ⟨⟨c.session, suppliedSession_members _ _ _, .inr hmem⟩, Listusers.valid_pack (by simp) (by simp)⟩
  | lastName buffer firstName lastName hloc _ _ hs =>
    obtain ⟨_⟩ := hs
    have hearly : ¬Early c.loc := by rw [hloc]; exact id
    refine ⟨h.move _ .listUsers (fun he => absurd he hearly) rfl, ?_⟩
    rintro y ⟨⟩
    obtain ⟨p, husers, hsession, rfl⟩ := h.buffer buffer (by rw [hloc]; rfl)
    refine ⟨⟨p.sessionId, suppliedSession_members _ _ _, .inr (hsession ▸ h.mem hearly)⟩, ?_⟩
    exact Listusers.valid_pack (by simp [husers]) (by simp [husers])
  | command command hloc _ hpack hs =>
    obtain ⟨_⟩ := hs
    have hearly : ¬Early c.loc := by rw [hloc]; exact id
    refine ⟨h.move _ .commandReply (fun he => absurd he hearly) rfl, ?_⟩
    rintro y ⟨⟩
    exact ⟨⟨c.session, suppliedSession_members _ _ _, .inr (h.mem hearly)⟩, valid_textBody hpack⟩
  | stop => exact ⟨h.move _ .stopped (fun _ => trivial) rfl, by simp⟩
  | longName | longCommand => exact ⟨h.move _ .terminated (fun _ => trivial) rfl, by simp⟩
  | connected hloc => exact ⟨h.move _ .listUsers (fun he => absurd he (by rw [hloc]; exact id)) rfl, by simp⟩
  | firstName buffer _ hloc =>
    have hold : c.loc.buffer? = some buffer := by rw [hloc]; rfl
    exact ⟨h.keep hold rfl (by rw [hloc]; exact id), by simp⟩
  | empty => exact ⟨h, by simp⟩
  | connectPacket u p hloc =>
    refine ⟨?_, by simp⟩
    unfold connectPacket
    split
    · exact h.move _ .terminated (fun _ => trivial) rfl
    · rename_i packetType data hget
      split
      · exact h.move _ .connect (fun _ => trivial) rfl
      · rename_i htype
        split
        · exact h.move _ .terminated (fun _ => trivial) rfl
        · rename_i packet hconv
          rw [not_not.mp htype] at hget
          exact ⟨.inl (hpacket u p rfl data hget u packet hconv), fun buffer hb => by cases hb⟩
  | listUsersPacket buffer u p hloc =>
    have hearly : ¬Early c.loc := by rw [hloc]; exact id
    refine ⟨?_, by simp⟩
    rcases listUsersPacket_cases mp c buffer u p with h' | h' | h' <;> rw [h']
    · exact h.move _ .terminated (fun _ => trivial) rfl
    · exact h.keep (by rw [hloc]; rfl) rfl hearly
    · exact h.move _ .command (fun he => absurd he hearly) rfl
  | commandPacket u p hloc =>
    refine ⟨?_, by simp⟩
    rcases commandPacket_cases mp c u p with h' | h' <;> rw [h']
    · exact h.move _ .terminated (fun _ => trivial) rfl
    · exact h.move _ .command (fun he => absurd he (by rw [hloc]; exact id)) rfl

end Client

/-! ## The clients, the network and the server -/

/-- The clients, what they have sent so far, and the workers with what they have sent so far. -/
structure World (clients : Finset SockAddr) (N : Nat) where
  endpoint : clients → Endpoint
  sent : List (clients × Datagram)
  workers : Workers N

/-- The steps. -/
inductive WorldAct (clients : Finset SockAddr) (N : Nat) where
  /-- The main loop of a client goes on by itself or with a line. -/
  | input (a : clients) (i : Input)
  /-- `WaitOnPacketQueue` returns a packet. -/
  | take (a : clients) (u : Uninit)
  /-- A worker starts to handle a packet of a client, which it may have handled before. -/
  | handle (t : Fin N) (k : Nat) (u : Uninit) (buffer : PacketBuffer)
  /-- A worker takes its next action. -/
  | work (t : Fin N)
  /-- `PacketListener` receives a packet, which it may have received before. -/
  | deliver (a : clients) (k : Nat) (u : Uninit)

namespace World

variable {clients : Finset SockAddr} {N : Nat}

/-- The clients and the server have just started. -/
def init (clients : Finset SockAddr) (N : Nat) (buffer : clients → PacketBuffer) : World clients N where
  endpoint a := ⟨.init, buffer a, []⟩
  sent := []
  workers := Workers.init N

def step (mp : Msgpack) (server : SockAddr) (x : World clients N) : WorldAct clients N → Option (World clients N)
  | .input _ (.packet _ _) => none
  | .input a i => ((x.endpoint a).client.step mp server i).map fun r => { x with
      endpoint := Function.update x.endpoint a { x.endpoint a with client := r.1 }
      sent := x.sent ++ (r.2.map fun y => (a, y.datagram)).toList }
  | .take a u => ((x.endpoint a).take mp server u).map fun e => { x with
      endpoint := Function.update x.endpoint a e }
  | .handle t k u buffer =>
    match x.sent[k]? with
    | none => none
    | some (a, d) =>
      (x.workers.start t (handlePacket mp u (received mp d buffer a))).map fun workers => { x with workers }
  | .work t => (Pool.step x.workers t).map fun workers => { x with workers }
  | .deliver a k u =>
    match x.workers.out[k]? with
    | none => none
    | some d =>
      if d.dest = a then some { x with
        endpoint := Function.update x.endpoint a
          ((x.endpoint a).hear mp u (received mp d (x.endpoint a).buffer server)) }
      else none

end World

/-! ## The simulation -/

variable {mp : Msgpack} {clients : Finset SockAddr} {N : Nat} {x x' : World clients N} {n : Net N} {server : SockAddr}

/-- What a client knows, and what is in its queue. -/
structure Knows (mp : Msgpack) (known : List Int32) (e : Endpoint) : Prop where
  client : Entitled known e.client
  queued : ∀ p ∈ e.packetQueue, Announces mp known p

theorem Knows.mono {known known' : List Int32} {e : Endpoint} (h : Knows mp known e) (hsub : known ⊆ known') :
    Knows mp known' e :=
  ⟨h.client.mono hsub, fun p hp data hget u packet hconv => hsub (h.queued p hp data hget u packet hconv)⟩

/-- `PacketListener` receives a packet. -/
theorem Knows.hear {known : List Int32} {e : Endpoint} (h : Knows mp known e) {p : Packet} (hp : Announces mp known p)
    (u : Uninit) : Knows mp known (e.hear mp u p) := by
  unfold Endpoint.hear
  split
  · refine ⟨h.client, fun q hq => ?_⟩
    rcases List.mem_append.mp hq with hq | hq
    · exact h.queued q hq
    · exact List.mem_singleton.mp hq ▸ hp
  · exact ⟨h.client, h.queued⟩
  · exact ⟨h.client.move _ .terminated (fun _ => trivial) rfl, h.queued⟩

/-- The clients behave as honest clients. A worker that an exception has escaped from is idle there. -/
structure Simulates (mp : Msgpack) (x : World clients N) (n : Net N) : Prop where
  shared : n.workers.shared = x.workers.shared
  owner : n.workers.owner = x.workers.owner
  out : n.workers.out = x.workers.out
  code : ∀ t, x.workers.code t = .throw ∨ n.workers.code t = x.workers.code t
  sent : ∀ r ∈ x.sent, ⟨r.2.packetType.value, r.2.body, r.1⟩ ∈ n.requests ∧ r.2.body.Valid
  endpoint : ∀ a : clients, Knows mp (n.received a) (x.endpoint a)
  replied : ∀ a, ∀ id ∈ n.received a, connectReply id a ∈ n.workers.out

theorem simulates_init (buffer : clients → PacketBuffer) :
    Simulates mp (World.init clients N buffer) (Net.init N) where
  shared := rfl
  owner := rfl
  out := rfl
  code _ := .inr rfl
  sent _ h := by cases h
  endpoint _ := ⟨⟨.inr ⟨rfl, trivial⟩, fun _ h => by cases h⟩, fun _ h => by cases h⟩
  replied _ _ h := by cases h

/-- One of the clients has moved. -/
theorem Knows.update {received : SockAddr → List Int32} {endpoint : clients → Endpoint}
    (h : ∀ a : clients, Knows mp (received a) (endpoint a)) {a : clients} {e : Endpoint} (he : Knows mp (received a) e)
    (b : clients) : Knows mp (received b) (Function.update endpoint a e b) := by
  by_cases hb : b = a
  · subst hb
    rwa [Function.update_self]
  · rw [Function.update_of_ne hb]
    exact h b

/-- A packet that an honest client sends is a request of the network. -/
theorem Honest.request {d : Datagram} {a : SockAddr} (h : Honest (n.received a) d) :
    n.step (.request ⟨d.packetType.value, d.body, a⟩) =
      some { n with requests := n.requests ++ [⟨d.packetType.value, d.body, a⟩] } := by
  obtain ⟨id, hid, hknown⟩ := h.session
  refine if_pos ?_
  simp only [honest, hid, Bool.or_eq_true, Bool.and_eq_true, decide_eq_true_eq]
  exact hknown.imp_left fun hconnect => ⟨by rw [hconnect.1], hconnect.2⟩

namespace Simulates

/-- The main loop of a client goes on. -/
theorem input (h : Simulates mp x n) {a : clients} {i : Input} {c' : Client} {out : Option Sending}
    (hi : ∀ u p, i ≠ .packet u p) (hst : (x.endpoint a).client.step mp server i = some (c', out)) :
    ∃ tr n', Run Net.step n tr n' ∧ Simulates mp { x with
      endpoint := Function.update x.endpoint a { x.endpoint a with client := c' }
      sent := x.sent ++ (out.map fun y => (a, y.datagram)).toList } n' := by
  have hknows := h.endpoint a
  obtain ⟨hclient, hhonest⟩ := hknows.client.step (step_sound hst) fun u p hp => absurd hp (hi u p)
  have hendpoint := Knows.update h.endpoint (a := a) (e := { x.endpoint a with client := c' }) ⟨hclient, hknows.queued⟩
  cases out with
  | none => exact ⟨[], n, .init, h.shared, h.owner, h.out, h.code, by simpa using h.sent, hendpoint, h.replied⟩
  | some y =>
    have hy := hhonest y rfl
    refine ⟨_, _, Run.init.step hy.request, h.shared, h.owner, h.out, h.code, fun r hr => ?_, hendpoint, h.replied⟩
    rcases List.mem_append.mp hr with hr | hr
    · exact ⟨List.mem_append_left _ (h.sent r hr).1, (h.sent r hr).2⟩
    · rw [Option.map_some, Option.toList_some, List.mem_singleton] at hr
      subst hr
      exact ⟨List.mem_append_right _ (List.mem_singleton_self _), hy.valid⟩

/-- `WaitOnPacketQueue` returns a packet: the client takes a session that it knows. -/
theorem take (h : Simulates mp x n) {a : clients} {u : Uninit} {e : Endpoint}
    (hst : (x.endpoint a).take mp server u = some e) :
    Simulates mp { x with endpoint := Function.update x.endpoint a e } n := by
  obtain ⟨p, rest, c', out, hqueue, hpacket, rfl⟩ := Endpoint.take_eq_some hst
  have hknows := h.endpoint a
  have hannounces : Announces mp (n.received a) p := hknows.queued p (by rw [hqueue]; exact List.mem_cons_self)
  obtain ⟨hclient, _⟩ := hknows.client.step (step_sound hpacket) fun _ _ hp => by
    cases hp
    exact hannounces
  refine ⟨h.shared, h.owner, h.out, h.code, h.sent, Knows.update h.endpoint ⟨hclient, fun q hq => ?_⟩, h.replied⟩
  exact hknows.queued q (by rw [hqueue]; exact List.mem_cons_of_mem _ hq)

/-- A worker starts with a packet. If the packet does not fit, an exception escapes. -/
theorem handle [mp.Lawful] (h : Simulates mp x n) {t : Fin N} {k : Nat} {u : Uninit} {buffer : PacketBuffer}
    {a : clients} {d : Datagram} (hd : x.sent[k]? = some (a, d)) {workers : Workers N}
    (hst : x.workers.start t (handlePacket mp u (received mp d buffer a)) = some workers) :
    ∃ tr n', Run Net.step n tr n' ∧ Simulates mp { x with workers } n' := by
  obtain ⟨hidle, rfl⟩ := Pool.start_eq_some hst
  obtain ⟨hrequest, hvalid⟩ := h.sent _ (List.mem_of_getElem? hd)
  by_cases hfit : Fits d.body
  · have hread := getDataFromPacket_fits mp hfit hvalid buffer
    have hcode : handlePacket mp u (received mp d buffer a) = dispatch u d.body a d.packetType.value := by
      simp only [handlePacket, received, hread]
    obtain ⟨j, hj⟩ := List.mem_iff_getElem?.mp hrequest
    have hnidle : n.workers.idle t = true := by
      refine Pool.idle_iff.mpr (((h.code t).resolve_left fun hthrow => ?_).trans hidle)
      cases hidle.symm.trans hthrow
    refine ⟨_, { n with workers := { n.workers with
      code := Function.update n.workers.code t (dispatch u d.body a d.packetType.value) } },
      Run.init.step (a := .handle t u j) (by simp [Net.step, hj, Workers.step, Pool.start, hnidle]),
      h.shared, h.owner, h.out, fun t' => ?_, h.sent, h.endpoint, h.replied⟩
    by_cases ht : t' = t
    · subst ht
      exact .inr (by simp [hcode])
    · simpa [ht] using h.code t'
  · have hread := getDataFromPacket_of_not_fits mp hfit hvalid buffer
    have hcode : handlePacket mp u (received mp d buffer a) = .throw := by
      simp only [handlePacket, received, hread]
    refine ⟨[], n, .init, h.shared, h.owner, h.out, fun t' => ?_, h.sent, h.endpoint, h.replied⟩
    by_cases ht : t' = t
    · subst ht
      exact .inl (by simp [hcode])
    · simpa [ht] using h.code t'

/-- A worker takes an action. -/
theorem work (h : Simulates mp x n) {t : Fin N} {workers : Workers N} (hst : Pool.step x.workers t = some workers) :
    ∃ tr n', Run Net.step n tr n' ∧ Simulates mp { x with workers } n' := by
  have hcode : n.workers.code t = x.workers.code t :=
    (h.code t).resolve_left fun hthrow => by simp [Pool.step, hthrow] at hst
  obtain ⟨hnst, hothers⟩ := Pool.step_congr hst h.shared h.owner h.out hcode
  obtain ⟨_, hout⟩ := Pool.step_maySend hst
  have hnet : n.step (.work t) = some { n with workers := { workers with
      code := Function.update n.workers.code t (workers.code t) } } := by
    simp only [Net.step, Workers.step, hnst, Option.map_some]
  refine ⟨_, _, Run.init.step hnet, rfl, rfl, rfl, fun t' => ?_, h.sent, h.endpoint, fun a id hid => ?_⟩
  · by_cases ht : t' = t
    · subst ht
      exact .inr (Function.update_self ..)
    · simpa [hothers t' ht, ht] using h.code t'
  · have hold := h.replied a id hid
    rw [h.out] at hold
    rcases hout with ⟨hout, _⟩ | ⟨_, hout, _⟩
    · rwa [hout]
    · rw [hout]
      exact List.mem_append_left _ hold

/-- The reply to a `CONNECT` announces its session. -/
theorem announces_connectReply (mp : Msgpack) [mp.Lawful] {known : List Int32} {id : Int32} (hid : id ∈ known)
    (dest : SockAddr) (buffer : PacketBuffer) (source : SockAddr) :
    Announces mp known (received mp (connectReply id dest) buffer source) := by
  intro data hget u packet hconv
  have hread := getDataFromPacket_fits mp (d := connectReply id dest) (fits_connect _) (Connect.valid_pack _) buffer
  obtain ⟨_, rfl⟩ := Prod.mk.inj (Option.some.inj (hread.symm.trans hget))
  rw [connectReply, Connect.convert_pack] at hconv
  cases hconv
  exact hid

/-- `PacketListener` receives a packet. The client learns the session in a reply to a `CONNECT`. -/
theorem deliver [mp.Lawful] (h : Simulates mp x n) {w : Ledger} (hok : NetOk w n) {a : clients} {k : Nat}
    {u : Uninit} {d : Datagram} (hd : x.workers.out[k]? = some d) (hdest : d.dest = a) :
    ∃ tr n', Run Net.step n tr n' ∧ Simulates mp { x with
      endpoint := Function.update x.endpoint a
        ((x.endpoint a).hear mp u (received mp d (x.endpoint a).buffer server)) } n' := by
  have hknows := h.endpoint a
  rw [← h.out] at hd
  by_cases hconnect : d.packetType = .CONNECT
  · obtain ⟨id, heq, _, _⟩ := (hok.workers.sent d (List.mem_of_getElem? hd)).reply hconnect
    have hconv : Connect.convert ⟨0, 0⟩ d.body = some ⟨0, id⟩ := by
      rw [heq]
      exact Connect.convert_pack _ _
    have hnet : n.step (.reply k ⟨0, 0⟩) =
        some { n with received := Function.update n.received d.dest (id :: n.received d.dest) } := by
      simp only [Net.step, hd, if_pos hconnect, hconv]
    have hsub (b : SockAddr) : n.received b ⊆ Function.update n.received d.dest (id :: n.received d.dest) b := by
      by_cases hb : b = d.dest
      · subst hb
        rw [Function.update_self]
        exact List.subset_cons_self _ _
      · rw [Function.update_of_ne hb]
        exact List.Subset.refl _
    have hid : id ∈ Function.update n.received d.dest (id :: n.received d.dest) a := by
      rw [← hdest, Function.update_self]
      exact List.mem_cons_self
    have hannounces := announces_connectReply mp hid d.dest (x.endpoint a).buffer server
    rw [← heq] at hannounces
    refine ⟨_, _, Run.init.step hnet, h.shared, h.owner, h.out, h.code, h.sent, ?_, fun b id' hid' => ?_⟩
    · exact Knows.update (fun b => (h.endpoint b).mono (hsub b)) ((hknows.mono (hsub a)).hear hannounces u)
    · change id' ∈ Function.update n.received d.dest _ b at hid'
      by_cases hb : b = d.dest
      · subst hb
        rw [Function.update_self, List.mem_cons] at hid'
        rcases hid' with rfl | hid'
        · rw [← heq]
          exact List.mem_of_getElem? hd
        · exact h.replied _ _ hid'
      · rw [Function.update_of_ne hb] at hid'
        exact h.replied b id' hid'
  · have hannounces : Announces mp (n.received a) (received mp d (x.endpoint a).buffer server) := fun data hget => by
      have htype := congrArg PTYPE.ofValue (packetType_of_getDataFromPacket hget)
      rw [PTYPE.ofValue_value, PTYPE.ofValue_value] at htype
      exact absurd (Option.some.inj htype).symm hconnect
    exact ⟨[], n, .init, h.shared, h.owner, h.out, h.code, h.sent, Knows.update h.endpoint (hknows.hear hannounces u),
      h.replied⟩

/-- **A step of the clients is a run of honest clients.** -/
theorem step [mp.Lawful] (h : Simulates mp x n) {w : Ledger} (hok : NetOk w n) {act : WorldAct clients N}
    (hst : x.step mp server act = some x') : ∃ tr n', Run Net.step n tr n' ∧ Simulates mp x' n' := by
  cases act with
  | input a i =>
    cases i with
    | packet => cases hst
    | run | line =>
      obtain ⟨⟨c', out⟩, hc, rfl⟩ := Option.map_eq_some_iff.mp hst
      exact h.input (by simp) hc
  | take a u =>
    obtain ⟨e, he, rfl⟩ := Option.map_eq_some_iff.mp hst
    exact ⟨[], n, .init, h.take he⟩
  | handle t k u buffer =>
    simp only [World.step] at hst
    split at hst
    · cases hst
    · rename_i a d hd
      obtain ⟨workers, hw, rfl⟩ := Option.map_eq_some_iff.mp hst
      exact h.handle hd hw
  | work t =>
    obtain ⟨workers, hw, rfl⟩ := Option.map_eq_some_iff.mp hst
    exact h.work hw
  | deliver a k u =>
    simp only [World.step] at hst
    split at hst
    · cases hst
    · rename_i d hd
      split at hst
      · rename_i hdest
        cases hst
        exact h.deliver hok hd hdest
      · cases hst

end Simulates

/-- **The clients refine honest clients**: each run of the clients has a run of honest clients, in which the same
sessions are live and connected, and the same packets sent. -/
theorem exists_honest [mp.Lawful] {buffer : clients → PacketBuffer} {tr : List (World clients N × WorldAct clients N)}
    (h : Run (World.step mp server) (World.init clients N buffer) tr x) :
    ∃ tr' n, Run Net.step (Net.init N) tr' n ∧ Simulates mp x n := by
  induction h with
  | init => exact ⟨[], _, .init, simulates_init buffer⟩
  | step _ hst ih =>
    obtain ⟨tr₁, n₁, hrun₁, hsim⟩ := ih
    obtain ⟨w, hok⟩ := run_netOk hrun₁
    obtain ⟨tr₂, n₂, hrun₂, hsim₂⟩ := hsim.step hok hst
    exact ⟨_, n₂, hrun₁.trans hrun₂, hsim₂⟩

/-! ## Isolation -/

/-- **Each client has its own session**: once a client has taken a session, the server has its address for the session,
no other client has taken the same one, and every message for the session goes to the client. -/
theorem clients_apart [mp.Lawful] {buffer : clients → PacketBuffer} {tr : List (World clients N × WorldAct clients N)}
    (h : Run (World.step mp server) (World.init clients N buffer) tr x) (a : clients)
    (ha : (x.endpoint a).client.session ≠ 0) :
    x.workers.shared.activeConnections[(x.endpoint a).client.session]? = some (a : SockAddr) ∧
      (∀ b, (x.endpoint b).client.session = (x.endpoint a).client.session → b = a) ∧
      ∀ d ∈ x.workers.out, d.packetType = .SENDSERVERCOMMAND →
        ∃ id command, d = serverCommand id command d.dest ∧ (id = (x.endpoint a).client.session → d.dest = a) := by
  obtain ⟨tr', n, hrun, hsim⟩ := exists_honest h
  obtain ⟨w, hok⟩ := run_netOk hrun
  have hisolated := hok.isolated
  have hsent {b : clients} (hb : (x.endpoint b).client.session ≠ 0) :
      SentTo n (x.endpoint b).client.session b := by
    refine hsim.replied b _ ((hsim.endpoint b).client.session.resolve_right fun hs => hb hs.1)
  refine ⟨?_, fun b hb => ?_, fun d hd htype => ?_⟩
  · have hkey := hisolated.key _ _ (hsent ha)
    obtain ⟨dest, hdest⟩ := Option.isSome_iff_exists.mp (Std.TreeMap.isSome_getElem?_iff_mem.mpr hkey)
    rw [← hsim.shared, hdest, (hisolated.entry _ _ hdest).2 _ (hsent ha)]
  · have hsession := hsent (b := b) (by rwa [hb])
    rw [hb] at hsession
    exact Subtype.ext (hisolated.unique _ _ _ hsession (hsent ha))
  · rw [← hsim.out] at hd
    obtain ⟨id, command, heq, _, hunique⟩ := hisolated.message d hd htype
    refine ⟨id, command, heq, fun hid => hunique _ ?_⟩
    rw [hid]
    exact hsent ha

def bothClients : Finset SockAddr := {alice, bob}

def aliceClient : bothClients := ⟨alice, by simp [bothClients]⟩

def bobClient : bothClients := ⟨bob, by simp [bothClients]⟩

/-- A worker handles a packet in `steps` actions, and the client takes the packet `k` of the server. -/
def answered (a : bothClients) (t : Fin NUM_WORKER_THREADS) (request steps k : Nat) :
    List (WorldAct bothClients NUM_WORKER_THREADS) :=
  .handle t request ⟨0, 0⟩ (fun _ => 0) :: List.replicate steps (.work t) ++ [.deliver a k ⟨0, 0⟩, .take a ⟨0, 0⟩]

/-- The clients connect, the first one enters the game, and its message goes to the second. -/
def bothConnect : List (WorldAct bothClients NUM_WORKER_THREADS) :=
  [[.input aliceClient (.line (text "y"))], answered aliceClient 0 0 7 0,
    [.input bobClient (.line [])], answered bobClient 1 1 7 1,
    [.input aliceClient .run, .input aliceClient .run], answered aliceClient 1 2 5 2,
    [.input aliceClient (.line (text "/s 2 hi"))], answered aliceClient 0 3 8 4].flatten

/-- Both clients before they connect. -/
def bothStart : World bothClients NUM_WORKER_THREADS := .init bothClients NUM_WORKER_THREADS fun _ _ => 0

theorem clients_apart_bothConnect : ∃ tr x,
    Run (World.step .reference ⟨0x7f000001, 1337⟩) bothStart tr x ∧ tr.map Prod.snd = bothConnect ∧
      (x.endpoint bobClient).client.session = 2 ∧ (∃ d ∈ x.workers.out, d.packetType = .SENDSERVERCOMMAND) ∧
      x.workers.shared.activeConnections[(x.endpoint bobClient).client.session]? = some bob ∧
      (∀ b, (x.endpoint b).client.session = (x.endpoint bobClient).client.session → b = bobClient) ∧
      ∀ d ∈ x.workers.out, d.packetType = .SENDSERVERCOMMAND →
        ∃ id command, d = serverCommand id command d.dest ∧
          (id = (x.endpoint bobClient).client.session → d.dest = bob) := by
  have hexec : (exec (World.step .reference ⟨0x7f000001, 1337⟩) bothStart bothConnect).map (fun x =>
      ((x.endpoint bobClient).client.session, decide (∃ d ∈ x.workers.out, d.packetType = .SENDSERVERCOMMAND))) =
        some (2, true) := by decide +kernel
  obtain ⟨x, hx, hrest⟩ := Option.map_eq_some_iff.mp hexec
  obtain ⟨hbob, hmessage⟩ := Prod.mk.inj hrest
  obtain ⟨tr, hr, hacts⟩ := Run.of_exec hx
  exact ⟨tr, x, hr, hacts, hbob, of_decide_eq_true hmessage, clients_apart hr bobClient (by rw [hbob]; decide)⟩

end Celegraph.Sessions
