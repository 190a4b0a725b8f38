import Celegraph.Codec
import Celegraph.Queue.Machine
import Celegraph.Sessions.Workers

/-!
# Honest clients

Clients with distinct addresses, a network that loses, duplicates and reorders datagrams, and the workers.

- `Request`: a client's packet. `honest`: its payload names a session that the client has received in a reply to a
  `CONNECT`, or session 0 if it is a `CONNECT`.
- `Net`: the workers, the requests sent so far, and the sessions that each address has received. A worker may start
  with any request, any number of times; a client may receive any reply, any number of times, or never.
- `isolation`: no session is sent to two addresses, every entry of `activeConnections` is the client of its session,
  every session sent has an entry, and messages go to the client of their session.
-/

namespace Celegraph.Sessions

open CxxString Packets Utils Server Runs
open MessagePack (Obj)
open Queue (NUM_WORKER_THREADS)

/-- A packet of a client. -/
structure Request where
  packetType : UInt8
  data : Obj
  source : SockAddr

/-- The session that a payload supplies. -/
def suppliedSession : Obj → Option Int32
  | .array (_ :: e :: _) => convertInt32 e
  | _ => none

/-- The clients, the network and the server. -/
structure Net (N : Nat) where
  workers : Workers N
  requests : List Request
  received : SockAddr → List Int32

/-- What a client sends: only sessions that it has received, or 0 in a `CONNECT`. -/
def honest {N : Nat} (n : Net N) (r : Request) : Bool :=
  match suppliedSession r.data with
  | none => false
  | some id => (r.packetType = PTYPE.CONNECT.value && id = 0) || id ∈ n.received r.source

/-- The steps: a client sends a request; worker `i` starts with request `k` or takes its next action; the client to
which datagram `k` of the server was sent receives it. -/
inductive NetAct (N : Nat) where
  | request (r : Request)
  | handle (i : Fin N) (u : Uninit) (k : Nat)
  | work (i : Fin N)
  | reply (k : Nat) (u : Uninit)

namespace Net

variable {N : Nat}

def init (N : Nat) : Net N := ⟨.init N, [], fun _ => []⟩

def step (n : Net N) : NetAct N → Option (Net N)
  | .request r => if honest n r then some { n with requests := n.requests ++ [r] } else none
  | .handle i u k =>
    match n.requests[k]? with
    | none => none
    | some r => (n.workers.step (.start i u r.data r.source r.packetType)).map fun workers => { n with workers }
  | .work i => (n.workers.step (.work i)).map fun workers => { n with workers }
  | .reply k u =>
    match n.workers.out[k]? with
    | none => none
    | some d =>
      -- a client takes the session of a reply to its `CONNECT`
      if d.packetType = .CONNECT then
        match Connect.convert u d.body with
        | none => none
        | some packet => some
          { n with received := Function.update n.received d.dest (packet.sessionId :: n.received d.dest) }
      else some n

end Net

/-! ## The ledger of the network -/

variable {N : Nat}

/-- A conversion that succeeds takes the session that the payload supplies. -/
theorem sessionId_of_supplied {u : Uninit} {data : Obj} {id : Int32} (h : suppliedSession data = some id)
    {packet : Connect} (hp : Connect.convert u data = some packet) : packet.sessionId = id := by
  match data with
  | .array (x :: e :: xs) =>
    cases hx : convertInt32 x with
    | none => simp [Connect.convert, convertIds, elements, member, hx] at hp
    | some packetId =>
      simp only [suppliedSession] at h
      simp [Connect.convert, convertIds, elements, member, hx, h] at hp
      rw [← hp]

/-- The ledger knows the sessions that clients have received, and those that they have named in requests. -/
structure NetOk (w : Ledger) (n : Net N) : Prop where
  workers : n.workers.Ok (spec .creator) w
  received : ∀ client, ∀ id ∈ n.received client, w.creator id = some client
  requests : ∀ r ∈ n.requests, ∃ id, suppliedSession r.data = some id ∧
    (PTYPE.ofValue r.packetType = some .CONNECT → id = 0 ∨ w.creator id = some r.source)

theorem NetOk.mono {w w' : Ledger} {n : Net N} (h : NetOk w n) (hw : w ≤ w') {workers : Workers N}
    (hok : workers.Ok (spec .creator) w') : NetOk w' { n with workers := workers } :=
  { workers := hok
    received := fun client id hid => hw.1 _ _ (h.received client id hid)
    requests := fun r hr => (h.requests r hr).imp fun _ hid => ⟨hid.1, fun ht => (hid.2 ht).imp_right (hw.1 _ _)⟩ }

theorem netOk_init (N : Nat) : NetOk .empty (Net.init N) where
  workers := Workers.ok_init N
  received _ _ h := by cases h
  requests _ h := by cases h

/-- The session of an honest `CONNECT` is not live, or was issued to its client. -/
theorem NetOk.admissible {w : Ledger} {n : Net N} (h : NetOk w n) {r : Request} (hr : r ∈ n.requests) (u : Uninit) :
    (dispatch u r.data r.source r.packetType).Safe (spec .creator) (fun _ _ => True) w := by
  obtain ⟨id, hid, hown⟩ := h.requests r hr
  refine keeps_dispatch fun ht packet hp w' s hw hinv hlive => ?_
  have hsession := sessionId_of_supplied hid hp
  rcases hown ht with h0 | hown
  · -- 0 is never issued
    rw [hsession, h0] at hlive
    have hrange := (hinv.issued 0).mp (hinv.live 0 hlive)
    exact absurd hrange.1 (by decide)
  · rw [hsession]
    exact hw.1 _ _ hown

/-- A client receives a session that was issued to it. -/
theorem NetOk.receive {w : Ledger} {n : Net N} (h : NetOk w n) {id : Int32} {client : SockAddr}
    (hid : w.creator id = some client) :
    NetOk w { n with received := Function.update n.received client (id :: n.received client) } := by
  refine ⟨h.workers, fun a k hk => ?_, h.requests⟩
  by_cases ha : a = client
  · subst ha
    simp only [Function.update_self, List.mem_cons] at hk
    rcases hk with rfl | hk
    · exact hid
    · exact h.received _ _ hk
  · simp only [Function.update_of_ne ha] at hk
    exact h.received _ _ hk

/-- A client sends an honest request. -/
theorem NetOk.request {w : Ledger} {n : Net N} (h : NetOk w n) {r : Request} (hr : honest n r = true) :
    NetOk w { n with requests := n.requests ++ [r] } := by
  refine ⟨h.workers, h.received, fun r' hr' => ?_⟩
  rcases List.mem_append.mp hr' with hr' | hr'
  · exact h.requests r' hr'
  · rw [List.mem_singleton] at hr'
    subst hr'
    unfold honest at hr
    split at hr
    · cases hr
    · rename_i id hid
      refine ⟨id, hid, fun _ => ?_⟩
      simp only [Bool.or_eq_true, Bool.and_eq_true, decide_eq_true_eq] at hr
      exact hr.imp And.right (h.received r'.source id)

theorem NetOk.step {w : Ledger} {n n' : Net N} (h : NetOk w n) {a : NetAct N} (hst : n.step a = some n') :
    ∃ w', w ≤ w' ∧ NetOk w' n' := by
  cases a with
  | request r =>
    simp only [Net.step] at hst
    split at hst
    · rename_i hhonest
      cases hst
      exact ⟨w, le_rfl, h.request hhonest⟩
    · cases hst
  | handle i u k =>
    simp only [Net.step] at hst
    split at hst
    · cases hst
    · rename_i r hr
      obtain ⟨p', hp', rfl⟩ := Option.map_eq_some_iff.mp hst
      exact ⟨w, le_rfl, h.mono le_rfl (h.workers.start (h.admissible (List.mem_of_getElem? hr) u) hp')⟩
  | work i =>
    obtain ⟨p', hp', rfl⟩ := Option.map_eq_some_iff.mp hst
    obtain ⟨w', hw, hok⟩ := h.workers.step hp'
    exact ⟨w', hw, h.mono hw hok⟩
  | reply k u =>
    simp only [Net.step] at hst
    split at hst
    · cases hst
    · rename_i d hd
      split at hst
      · rename_i ht
        obtain ⟨id, heq, hholds, _⟩ := (h.workers.sent d (List.mem_of_getElem? hd)).reply ht
        rw [show d.body = Connect.pack { packetId := 0, sessionId := id } by rw [heq]; rfl, Connect.convert_pack] at hst
        cases hst
        exact ⟨w, le_rfl, h.receive hholds⟩
      · cases hst
        exact ⟨w, le_rfl, h⟩

theorem run_netOk {tr : List (Net N × NetAct N)} {n : Net N} (h : Run Net.step (Net.init N) tr n) : ∃ w, NetOk w n :=
  h.invariant (I := fun n => ∃ w, NetOk w n) ⟨_, netOk_init N⟩ fun _ _ _ ⟨_, hok⟩ hst =>
    (hok.step hst).imp fun _ => And.right

/-! ## Isolation -/

/-- The session was sent to the client in a reply to a `CONNECT`. -/
def SentTo (n : Net N) (id : Int32) (client : SockAddr) : Prop := connectReply id client ∈ n.workers.out

/-- The session was sent to the client, or a worker is about to send it. -/
def SentOrWill (n : Net N) (id : Int32) (client : SockAddr) : Prop :=
  SentTo n id client ∨ ∃ i, (n.workers.code i).Will (connectReply id client)

/-- What keeps the sessions of the clients apart. -/
structure Isolated (n : Net N) : Prop where
  /-- No session is sent to two addresses. -/
  unique : ∀ id a b, SentTo n id a → SentTo n id b → a = b
  /-- Every entry is the client to which its session was, or is about to be, sent, and only that one. -/
  entry : ∀ id a, n.workers.shared.activeConnections[id]? = some a →
    SentOrWill n id a ∧ ∀ b, SentTo n id b → a = b
  /-- Every session sent has an entry. -/
  key : ∀ id a, SentTo n id a → id ∈ n.workers.shared.activeConnections
  /-- Every message packet names a session, and goes to the client of that session. -/
  message : ∀ d ∈ n.workers.out, d.packetType = .SENDSERVERCOMMAND → ∃ id command, d = serverCommand id command d.dest ∧
    SentOrWill n id d.dest ∧ ∀ b, SentTo n id b → d.dest = b

section Isolated

variable {w : Ledger} {n : Net N} (h : NetOk w n) {id : Int32} {a : SockAddr}
include h

theorem NetOk.creator_of_sentTo (hs : SentTo n id a) : w.creator id = some a ∧ id ∈ w.bound := by
  obtain ⟨id', heq, hholds, hbound⟩ := (h.workers.sent _ hs).reply rfl
  rw [(connectReply_inj.mp heq).1]
  exact ⟨hholds, hbound⟩

theorem NetOk.sentOrWill (hc : w.creator id = some a) : SentOrWill n id a ∧ ∀ b, SentTo n id b → a = b := by
  refine ⟨h.workers.paid _ ⟨id, a, hc, rfl⟩, fun b hb => ?_⟩
  exact Option.some.inj (hc.symm.trans (h.creator_of_sentTo hb).1)

theorem NetOk.isolated : Isolated n where
  unique id a b ha hb := (h.sentOrWill (h.creator_of_sentTo ha).1).2 b hb
  entry id a ha := h.sentOrWill (h.workers.inv.tenant id a ha)
  key id a ha := (h.workers.inv.bound id).mpr (h.creator_of_sentTo ha).2
  message d hd ht := by
    obtain ⟨id, command, heq, hholds⟩ := (h.workers.sent d hd).message ht
    exact ⟨id, command, heq, h.sentOrWill hholds⟩

end Isolated

/-- **Sessions of honest clients are isolated** in every reachable state. -/
theorem isolation {tr : List (Net N × NetAct N)} {n : Net N} (h : Run Net.step (Net.init N) tr n) : Isolated n := by
  obtain ⟨w, hok⟩ := run_netOk h
  exact hok.isolated

/-- `CONNECT` with session 0. -/
def connectFrom (source : SockAddr) : Request :=
  ⟨PTYPE.CONNECT.value, Connect.pack { packetId := 1, sessionId := 0 }, source⟩

def alice : SockAddr := ⟨0x7f000001, 40000⟩
def bob : SockAddr := ⟨0x7f000001, 40001⟩

/-- Two clients connect; the second worker handles its packet while the first is between its two critical sections. The
first client receives its session. -/
def twoClients : List (NetAct NUM_WORKER_THREADS) :=
  [.request (connectFrom alice), .request (connectFrom bob), .handle 0 ⟨0, 0⟩ 0, .work 0, .work 0, .work 0,
    .handle 1 ⟨0, 0⟩ 1, .work 1, .work 1, .work 1, .work 1, .work 1, .work 1, .work 1, .work 0, .work 0, .work 0,
    .work 0, .reply 1 ⟨0, 0⟩]

theorem isolation_two_clients :
    ∃ tr n, Run Net.step (Net.init NUM_WORKER_THREADS) tr n ∧ tr.map Prod.snd = twoClients ∧
      n.workers.out = [connectReply 2 bob, connectReply 1 alice] ∧ n.received alice = [1] ∧ Isolated n := by
  obtain ⟨n, hn, hout, hrec⟩ : ∃ n, exec Net.step (Net.init NUM_WORKER_THREADS) twoClients = some n ∧
      n.workers.out = [connectReply 2 bob, connectReply 1 alice] ∧ n.received alice = [1] := ⟨_, rfl, rfl, rfl⟩
  obtain ⟨tr, hr, hacts⟩ := Run.of_exec hn
  exact ⟨tr, n, hr, hacts, hout, hrec, isolation hr⟩

end Celegraph.Sessions
