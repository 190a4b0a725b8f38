import Celegraph.Client
import Celegraph.Codec
import Celegraph.Lib.Runs

/-!
# What the client sends

The packets that the main loop sends over a whole run, against the messages that it built for them.

- Every packet but `CREATEUSER` holds its message, and takes the next number (`Step.sends`).
- For a `CREATEUSER` the loop packs the new user into `buffer2` and sends `buffer`, which still holds the last
  `LISTUSERS`. So what is sent is what was built exactly in the runs that create no user (`sent_as_built_iff`).
-/

namespace Celegraph.Client

open CxxString Packets Utils Runs
open MessagePack (Obj)

/-! ## Runs -/

/-- The client, and the packets it has sent so far. -/
structure Log where
  client : Client
  sent : List Sending

namespace Log

def init : Log := ⟨.init, []⟩

/-- A step of the main loop, with the packet that it sends. -/
def step (mp : Msgpack) (server : SockAddr) (l : Log) (a : Input) : Option Log :=
  (l.client.step mp server a).map fun x => ⟨x.1, l.sent ++ x.2.toList⟩

theorem step_eq_some {mp : Msgpack} {server : SockAddr} {l l' : Log} {a : Input} (h : l.step mp server a = some l') :
    ∃ out, Step mp server l.client a l'.client out ∧ l'.sent = l.sent ++ out.toList := by
  obtain ⟨⟨c', out⟩, hst, rfl⟩ := Option.map_eq_some_iff.mp h
  exact ⟨out, step_sound hst, rfl⟩

end Log

/-! ## What is sent, and what was built -/

/-- What is handed to the socket is the message, packed under its type. -/
def Faithful (mp : Msgpack) (x : Sending) : Prop :=
  x.datagram.data mp = prependPacketHeader (mp.pack x.built.pack) x.built.packetType.value

instance (mp : Msgpack) (x : Sending) : Decidable (Faithful mp x) := inferInstanceAs (Decidable (_ = _))

/-- The `packetId` in a payload. -/
def payloadId (body : Obj) : Option Int32 := do convertInt32 (← (← elements body).head?)

/-- The numbers in the payloads increase strictly, so that none is sent twice. -/
def NumbersIncrease (sent : List Sending) : Prop :=
  ∃ numbers : List Int32, sent.map (fun x => payloadId x.datagram.body) = numbers.map some ∧
    numbers.Pairwise (· < ·)

@[simp] theorem payloadId_pack (built : Message) : payloadId built.pack = some built.packetId := by
  cases built <;> simp [payloadId, elements, Message.pack, Message.packetId, Connect.pack, Listusers.pack,
    Createuser.pack, Sendplayercommand.pack]

/-- A new user is built and sent in this step. -/
def CreatesUser (c : Client) : Input → Prop
  | .line lastName => ∃ buffer firstName, c.loc = .lastName buffer firstName ∧ Packable firstName ∧ Packable lastName
  | _ => False

/-- What `buffer` holds in state 2. -/
def Loc.buffer? : Loc → Option Obj
  | .listReply buffer | .firstName buffer | .lastName buffer _ => some buffer
  | _ => none

variable {mp : Msgpack} {server : SockAddr} {c c' : Client} {a : Input} {out : Option Sending}

/-- **What a step sends**: nothing, its message under the next number, or a new user without the message. -/
theorem Step.sends (h : Step mp server c a c' out) :
    (out = none ∧ c'.packetNumber = c.packetNumber ∧ ¬CreatesUser c a) ∨
    ∃ built buffer, out = some ⟨built, built.packetType, buffer, server⟩ ∧ built.packetId = c.packetNumber ∧
      c.packetNumber ≠ Int32.maxValue ∧ c'.packetNumber = c.packetNumber + 1 ∧
      (buffer = built.pack ∧ ¬CreatesUser c a ∨
        CreatesUser c a ∧ c.loc.buffer? = some buffer ∧ built.pack.Valid ∧ built.packetType = .CREATEUSER) := by
  have hno {loc : Loc} (hloc : c.loc = loc) (hne : ∀ buffer firstName, loc ≠ .lastName buffer firstName) :
      ¬CreatesUser c a := by
    cases a with
    | line s =>
      rintro ⟨buffer, firstName, hl, _⟩
      exact hne buffer firstName (hloc.symm.trans hl)
    | _ => exact id
  cases h with
  | connect response hloc _ hs =>
    obtain ⟨hmax⟩ := hs
    exact .inr ⟨_, _, rfl, rfl, hmax, rfl, .inl ⟨rfl, hno hloc (by simp)⟩⟩
  | listUsers hloc hs =>
    obtain ⟨hmax⟩ := hs
    exact .inr ⟨_, _, rfl, rfl, hmax, rfl, .inl ⟨rfl, hno hloc (by simp)⟩⟩
  | command command hloc _ _ hs =>
    obtain ⟨hmax⟩ := hs
    exact .inr ⟨_, _, rfl, rfl, hmax, rfl, .inl ⟨rfl, hno hloc (by simp)⟩⟩
  | lastName buffer firstName lastName hloc hfirst hlast hs =>
    obtain ⟨hmax⟩ := hs
    have hvalid : (c.newUser firstName lastName).pack.Valid := Createuser.valid_pack hfirst hlast rfl
    exact .inr ⟨_, _, rfl, rfl, hmax, rfl, .inr ⟨⟨buffer, firstName, hloc, hfirst, hlast⟩, by rw [hloc]; rfl, hvalid,
      rfl⟩⟩
  | connectPacket u p hloc =>
    refine .inl ⟨rfl, ?_, hno hloc (by simp)⟩
    rcases connectPacket_cases mp c u p with h | h | ⟨_, h⟩ <;> rw [h]
  | listUsersPacket buffer u p hloc =>
    refine .inl ⟨rfl, ?_, hno hloc (by simp)⟩
    rcases listUsersPacket_cases mp c buffer u p with h | h | h <;> rw [h]
  | commandPacket u p hloc =>
    refine .inl ⟨rfl, ?_, hno hloc (by simp)⟩
    rcases commandPacket_cases mp c u p with h | h <;> rw [h]
  | longName buffer firstName lastName hloc hlong =>
    refine .inl ⟨rfl, rfl, ?_⟩
    rintro ⟨buffer', firstName', hl, hpack⟩
    rw [hloc, Loc.lastName.injEq] at hl
    exact hlong (hl.2 ▸ hpack)
  | stop _ hloc | connected hloc | firstName _ _ hloc | empty hloc | longCommand _ hloc =>
    exact .inl ⟨rfl, rfl, hno hloc (by simp)⟩

/-! ## The buffer of state 2 -/

/-- It holds a request for the list of users. -/
def ListBuffer (c : Client) : Prop :=
  ∀ buffer, c.loc.buffer? = some buffer → ∃ p : Listusers, p.users = [] ∧ buffer = p.pack

/-- A step leaves the buffer as it is, packs a new request into it, or leaves state 2. -/
theorem Step.listBuffer (h : Step mp server c a c' out) (hc : ListBuffer c) : ListBuffer c' := by
  have hnone {d : Client} (hd : d.loc.buffer? = none) : ListBuffer d := fun buffer hb => by
    rw [hd] at hb
    cases hb
  have hsame {d : Client} {buffer : Obj} (hb : c.loc.buffer? = some buffer) (hd : d.loc.buffer? = some buffer) :
      ListBuffer d := fun buffer' hb' => by
    obtain rfl := Option.some.inj (hd.symm.trans hb')
    exact hc _ hb
  cases h with
  | connect _ _ _ hs | command _ _ _ _ hs | lastName _ _ _ _ _ _ hs =>
    obtain ⟨_⟩ := hs
    exact hnone rfl
  | listUsers _ hs =>
    obtain ⟨_⟩ := hs
    exact fun buffer hb => ⟨_, rfl, (Option.some.inj hb).symm⟩
  | connectPacket u p _ =>
    rcases connectPacket_cases mp c u p with h | h | ⟨_, h⟩ <;> rw [h] <;> exact hnone rfl
  | listUsersPacket buffer u p hloc =>
    have hb : c.loc.buffer? = some buffer := by rw [hloc]; rfl
    rcases listUsersPacket_cases mp c buffer u p with h | h | h <;> rw [h]
    · exact hnone rfl
    · exact hsame hb rfl
    · exact hnone rfl
  | commandPacket u p _ =>
    rcases commandPacket_cases mp c u p with h | h <;> rw [h] <;> exact hnone rfl
  | firstName buffer _ hloc => exact hsame (by rw [hloc]; rfl) rfl
  | empty => exact hc
  | stop | connected | longName | longCommand => exact hnone rfl

theorem run_listBuffer {tr : List (Log × Input)} {l : Log} (h : Run (Log.step mp server) Log.init tr l) :
    ListBuffer l.client := by
  refine h.invariant (I := fun l => ListBuffer l.client) (fun _ hb => by cases hb) fun l a l' hl hst => ?_
  obtain ⟨out, hstep, _⟩ := Log.step_eq_some hst
  exact hstep.listBuffer hl

/-! ## As built -/

/-- What holds of a client that has created no user: its packets are what it built, and their numbers increase up to
the next one. -/
structure AsBuilt (mp : Msgpack) (l : Log) : Prop where
  faithful : ∀ x ∈ l.sent, Faithful mp x
  numbers : ∃ numbers : List Int32, l.sent.map (fun x => payloadId x.datagram.body) = numbers.map some ∧
    numbers.Pairwise (· < ·) ∧ ∀ n ∈ numbers, n < l.client.packetNumber

theorem asBuilt_init : AsBuilt mp Log.init := ⟨by simp [Log.init], [], rfl, .nil, by simp⟩

theorem AsBuilt.step {l l' : Log} (h : AsBuilt mp l) (hC : ¬CreatesUser l.client a)
    (hst : l.step mp server a = some l') : AsBuilt mp l' := by
  obtain ⟨out, hstep, hsent⟩ := Log.step_eq_some hst
  obtain ⟨numbers, hmap, hinc, hlt⟩ := h.numbers
  rcases hstep.sends with ⟨rfl, hn, _⟩ | ⟨built, buffer, rfl, hid, hmax, hn, hbuffer⟩
  · rw [Option.toList_none, List.append_nil] at hsent
    exact ⟨hsent ▸ h.faithful, numbers, hsent ▸ hmap, hinc, hn ▸ hlt⟩
  · obtain ⟨rfl, _⟩ := hbuffer.resolve_right fun hbad => hC hbad.1
    have hnext : l.client.packetNumber < l'.client.packetNumber := by
      rw [Int32.lt_iff_toInt_lt, hn, toInt_succ hmax]
      exact Int.lt_succ _
    refine ⟨fun x hx => ?_, numbers ++ [l.client.packetNumber], ?_, ?_, fun n hn => ?_⟩
    · rw [hsent, Option.toList_some, List.mem_append, List.mem_singleton] at hx
      rcases hx with hx | rfl
      · exact h.faithful x hx
      · rfl
    · rw [hsent, List.map_append, hmap, List.map_append, Option.toList_some, List.map_singleton, payloadId_pack, hid]
      rfl
    · exact List.pairwise_append.mpr ⟨hinc, List.pairwise_singleton _ _, fun n hn m hm => by
        rw [List.mem_singleton.mp hm]
        exact hlt n hn⟩
    · rcases List.mem_append.mp hn with hn | hn
      · exact Int32.lt_trans (hlt n hn) hnext
      · rwa [List.mem_singleton.mp hn]

/-! ## The new user -/

theorem prependPacketHeader_inj {s s' : Bytes} {t t' : UInt8} (h : prependPacketHeader s t = prependPacketHeader s' t') :
    s = s' := (List.cons.inj (List.cons.inj (List.cons.inj h).2).2).2

/-- The packet of a new user does not hold the new user. -/
theorem not_faithful_of_createsUser [mp.Lawful] {l l' : Log} (hbuffer : ListBuffer l.client)
    (hC : CreatesUser l.client a) (hst : l.step mp server a = some l') : ∃ x ∈ l'.sent, ¬Faithful mp x := by
  obtain ⟨out, hstep, hsent⟩ := Log.step_eq_some hst
  rcases hstep.sends with ⟨_, _, hno⟩ | ⟨built, buffer, rfl, _, _, _, ⟨_, hno⟩ | ⟨_, hb, hvalid, htype⟩⟩
  · exact absurd hC hno
  · exact absurd hC hno
  · obtain ⟨p, hp, rfl⟩ := hbuffer buffer hb
    refine ⟨_, by rw [hsent]; exact List.mem_append_right _ List.mem_cons_self, fun hf => ?_⟩
    have hpvalid : p.pack.Valid := Listusers.valid_pack (by simp [hp]) (by simp [hp])
    have hpack := congrArg mp.unpack (prependPacketHeader_inj hf)
    rw [Msgpack.Lawful.unpack_pack hpvalid, Msgpack.Lawful.unpack_pack hvalid] at hpack
    -- a `LISTUSERS` has three members, a `CREATEUSER` five
    cases built with
    | createUser newUser => simp [Message.pack, Listusers.pack, Createuser.pack] at hpack
    | _ => cases htype

variable {tr : List (Log × Input)} {l : Log}

/-- What has been sent after a step of a run has been sent in its end. -/
theorem run_sent (h : Run (Log.step mp server) Log.init tr l) {x : Log × Input} (hx : x ∈ tr) {l₁ : Log}
    (hst : x.1.step mp server x.2 = some l₁) {y : Sending} (hy : y ∈ l₁.sent) : y ∈ l.sent := by
  induction h with
  | init => cases hx
  | step _ hlast ih =>
    rcases List.mem_append.mp hx with hx | hx
    · obtain ⟨_, _, hsent⟩ := Log.step_eq_some hlast
      exact hsent ▸ List.mem_append_left _ (ih hx)
    · rw [List.mem_singleton.mp hx, hlast] at hst
      exact Option.some.inj hst ▸ hy

/-- **What the client sends is what it built**, under increasing numbers, exactly in the runs in which it creates no
user. -/
theorem sent_as_built_iff [mp.Lawful] (h : Run (Log.step mp server) Log.init tr l) :
    (∀ x ∈ l.sent, Faithful mp x) ∧ NumbersIncrease l.sent ↔ ∀ x ∈ tr, ¬CreatesUser x.1.client x.2 := by
  constructor
  · rintro ⟨hfaithful, _⟩ x hx hC
    obtain ⟨_, l₁, hr, _, hst⟩ := h.mem hx
    obtain ⟨y, hy, hnot⟩ := not_faithful_of_createsUser (run_listBuffer hr) hC hst
    exact hnot (hfaithful y (run_sent h hx hst hy))
  · intro hC
    have hbuilt := h.invariant_where (C := fun l a => ¬CreatesUser l.client a) asBuilt_init
      (fun _ _ _ hI hC hst => hI.step hC hst) hC
    obtain ⟨numbers, hmap, hinc, _⟩ := hbuilt.numbers
    exact ⟨hbuilt.faithful, numbers, hmap, hinc⟩

/-- The address of the server, in the runs below. -/
def localServer : SockAddr := ⟨0x7f000001, 1337⟩

/-- A packet from the server. -/
def fromServer (packetType : PTYPE) (body : Obj) : Input :=
  .packet ⟨0, 0⟩ ⟨receivePacketFrom (Datagram.data .reference ⟨packetType, body, ⟨0x7f000001, 40001⟩⟩) fun _ => 0,
    localServer⟩

/-- The server reports no users, so the client creates one. -/
def noUsers : List Input :=
  [.line (text "y"), fromServer .CONNECT (Connect.pack ⟨0, 1⟩), .run, .run,
    fromServer .LISTUSERS (Listusers.pack ⟨2, 1, []⟩), .line (text "Harry"), .line (text "Potter")]

/-- Under `CREATEUSER` it sends its last `LISTUSERS`. -/
theorem not_sent_as_built :
    ¬∀ (server : SockAddr) (tr : List (Log × Input)) (l : Log), Run (Log.step .reference server) Log.init tr l →
      (∀ x ∈ l.sent, Faithful .reference x) ∧ NumbersIncrease l.sent := by
  intro hall
  obtain ⟨l, hl, x, hx, hnot⟩ : ∃ l, exec (Log.step .reference localServer) Log.init noUsers = some l ∧
      ∃ x ∈ l.sent, ¬Faithful .reference x :=
    ⟨_, rfl, _, List.mem_cons_of_mem _ (List.mem_cons_of_mem _ List.mem_cons_self), by decide⟩
  obtain ⟨tr, hr, _⟩ := Run.of_exec hl
  exact hnot ((hall localServer tr l hr).1 x hx)

/-- A run in which the server reports users. -/
def someUsers : List Input :=
  [.line (text "y"), fromServer .CONNECT (Connect.pack ⟨0, 1⟩), .run, .run,
    fromServer .LISTUSERS (Listusers.pack ⟨2, 1, [text "Grapthar"]⟩), .line (text "hello")]

theorem sent_as_built_someUsers :
    ∃ tr l, Run (Log.step .reference localServer) Log.init tr l ∧ tr.map Prod.snd = someUsers ∧ l.sent.length = 3 ∧
      ((∀ x ∈ l.sent, Faithful .reference x) ∧ NumbersIncrease l.sent ↔ ∀ x ∈ tr, ¬CreatesUser x.1.client x.2) := by
  obtain ⟨l, hl, hlen⟩ : ∃ l, exec (Log.step .reference localServer) Log.init someUsers = some l ∧ l.sent.length = 3 :=
    ⟨_, rfl, rfl⟩
  obtain ⟨tr, hr, hacts⟩ := Run.of_exec hl
  exact ⟨tr, l, hr, hacts, hlen, sent_as_built_iff hr⟩

end Celegraph.Client
