import Celegraph.Chat.System

/-!
# What is still to come for a client

A client waits for a packet after each command.

- `Waiting`: a client in the game, with its queue and the number of packets that are still to come. There is at most
  one, in the queue or to come, and none while the client waits for a line. Its steps keep this.
- `toCome x a` counts what stands for a command of `a` outside the client: its packet, the worker that handles it, and
  its reply. How the count of the workers changes when one of them moves: `busy_le_succ`, `busy_mono`, `busy_succ`.
-/

namespace Celegraph.Chat

open CxxString Packets Utils Client Server Prog Runs

/-! ## A client and its queue -/

/-- The client of a session is in the game. At most one packet is in its queue or still to come, where `n` are still
to come, and none is while the client waits for a line. -/
structure Waiting (sessionId : Int32) (n : Nat) (e : Endpoint) : Prop where
  inGame : InGame e.client
  session : e.client.session = sessionId
  count : n + e.packetQueue.length ≤ 1
  idle : e.client.loc = .command → n + e.packetQueue.length = 0

namespace Waiting

variable {mp : Msgpack} {sessionId : Int32} {n n' : Nat} {e e' : Endpoint} {server : SockAddr} {c' : Client}
  {u : Uninit}

theorem mono (h : Waiting sessionId n e) (hn : n' ≤ n) : Waiting sessionId n' e := by
  refine ⟨h.inGame, h.session, ?_, fun hloc => ?_⟩
  · have hcount := h.count
    omega
  · have hidle := h.idle hloc
    omega

/-- The client has read a line: nothing was still to come, and now the reply to it is, if it was sent. -/
theorem line (h : Waiting sessionId n e) {line : Bytes} {out : Option Sending}
    (hst : e.client.step mp server (.line line) = some (c', out)) :
    n = 0 ∧ Waiting sessionId (n + out.toList.length) { e with client := c' } := by
  obtain ⟨hloc, hsession, hout⟩ := step_line h.inGame hst
  have hidle := h.idle hloc
  refine ⟨by omega, ?_⟩
  rcases hout with ⟨rfl, hloc'⟩ | ⟨y, _, rfl, hloc', _⟩
  · refine ⟨?_, hsession.trans h.session, h.count, fun _ => hidle⟩
    rcases hloc' with hloc' | hloc'
    · exact .inl hloc'
    · exact .inr (.inr hloc')
  · refine ⟨.inr (.inl hloc'), hsession.trans h.session, ?_, fun hcommand => ?_⟩
    · simp only [Option.toList_some, List.length_singleton]
      omega
    · cases hloc'.symm.trans hcommand

/-- The client has taken a packet: it was the only one. -/
theorem take (h : Waiting sessionId n e) (hst : e.take mp server u = some e') : Waiting sessionId n e' := by
  obtain ⟨p, rest, c', out, hqueue, hpacket, rfl⟩ := Endpoint.take_eq_some hst
  obtain ⟨_, hsession, hloc'⟩ := step_packet h.inGame hpacket
  have hcount := h.count
  rw [hqueue, List.length_cons] at hcount
  refine ⟨?_, hsession.trans h.session, ?_, fun _ => ?_⟩
  · rcases hloc' with hloc' | hloc'
    · exact .inl hloc'
    · exact .inr (.inr hloc')
  · change n + rest.length ≤ 1
    omega
  · change n + rest.length = 0
    omega

/-- The listener has received a packet, which was still to come if it is no message. -/
theorem hear {d : Datagram} {buffer : PacketBuffer} (h : Waiting sessionId n e)
    (hn : n' + (if IsRelay d then 0 else 1) = n) :
    Waiting sessionId n' (e.hear mp u (received mp d buffer server)) := by
  have hcount := h.count
  rcases e.hear_cases u d buffer server with hdead | ⟨_, hprint⟩ | ⟨htype, hqueued⟩
  · rw [hdead]
    refine ⟨.inr (.inr rfl), h.session, ?_, fun hloc => by cases hloc⟩
    change n' + e.packetQueue.length ≤ 1
    omega
  · rw [hprint]
    exact ⟨h.inGame, h.session, (h.mono (by omega)).count, (h.mono (by omega)).idle⟩
  · rw [if_neg (show ¬IsRelay d from htype)] at hn
    rw [hqueued]
    refine ⟨h.inGame, h.session, ?_, fun hloc => ?_⟩
    · rw [List.length_append, List.length_singleton]
      omega
    · have hidle := h.idle hloc
      omega

end Waiting

/-! ## What is still to come -/

namespace System

variable {clients : Finset SockAddr} {N : Nat} {x : System clients N} {a : clients} {t : Fin N}

/-- A worker with this task and this code handles a command of `a`, and may still send something. -/
def Busy (a : clients) (task : Option (Line clients)) (code : ServerProg Unit) : Prop :=
  (∃ n, task = some ⟨a, n⟩) ∧ ∃ ds ≠ [], code.MaySend ds

theorem not_busy_of_task {task : Option (Line clients)} {code : ServerProg Unit} (h : ∀ L ∈ task, L.client ≠ a) :
    ¬Busy a task code := by
  rintro ⟨⟨n, rfl⟩, _⟩
  exact h _ rfl rfl

open Classical in
/-- The number of such workers. -/
noncomputable def busy (a : clients) (task : Fin N → Option (Line clients)) (code : Fin N → ServerProg Unit) : Nat :=
  tally (fun b : Prop => decide b) fun t => Busy a (task t) (code t)

/-- The packet is a reply to the client. -/
def IsReplyTo (a : SockAddr) (d : Datagram) : Prop := d.dest = a ∧ ¬IsRelay d

instance (a : SockAddr) (d : Datagram) : Decidable (IsReplyTo a d) := inferInstanceAs (Decidable (_ ∧ _))

/-- The commands of `a` whose reply has not come: their packets, the workers that handle them, and the replies. -/
noncomputable def toCome (x : System clients N) (a : clients) : Nat :=
  x.requests.countP (fun r => r.line.client = a) + busy a x.task x.workers.code +
    x.replies.countP (fun d => IsReplyTo a d)

/-- One packet more, or none, is on its way to the server. -/
theorem toCome_append (x : System clients N) (y : Option (Request clients)) (endpoint : clients → Endpoint)
    (typed : clients → List Bytes) (a : clients) :
    toCome { x with endpoint, typed, requests := x.requests ++ y.toList } a =
      x.toCome a + y.toList.countP fun r => r.line.client = a := by
  simp only [toCome, List.countP_append]
  omega

/-- One packet less is on its way to the clients. -/
theorem toCome_eraseIdx {k : Nat} {d : Datagram} (hd : x.replies[k]? = some d) (endpoint : clients → Endpoint)
    (a : clients) :
    toCome { x with endpoint, replies := x.replies.eraseIdx k } a + (if IsReplyTo a d then 1 else 0) =
      x.toCome a := by
  have hcount := countP_eraseIdx (p := fun d => IsReplyTo a d) hd
  simp only [decide_eq_true_eq] at hcount
  simp only [toCome]
  omega

/-- A packet of the client that is on its way to the server is still to come back. -/
theorem countP_requests_pos {r : Request clients} (hr : r ∈ x.requests) :
    0 < x.requests.countP fun r' => r'.line.client = r.line.client :=
  List.countP_pos_iff.mpr ⟨r, hr, by simp⟩

section Busy

variable {task task' : Fin N → Option (Line clients)} {code code' : Fin N → ServerProg Unit}

open Classical in
/-- Only the worker `t` has moved. -/
theorem busy_update (h : ∀ u, u ≠ t → task' u = task u ∧ code' u = code u) :
    busy a task' code' + (if Busy a (task t) (code t) then 1 else 0) =
      busy a task code + (if Busy a (task' t) (code' t) then 1 else 0) := by
  have hbusy : (fun u => Busy a (task' u) (code' u)) =
      Function.update (fun u => Busy a (task u) (code u)) t (Busy a (task' t) (code' t)) := by
    funext u
    by_cases hu : u = t
    · rw [hu, Function.update_self]
    · rw [Function.update_of_ne hu, (h u hu).1, (h u hu).2]
  have htally := tally_update (fun b : Prop => decide b) (fun u => Busy a (task u) (code u)) t
    (Busy a (task' t) (code' t))
  rw [← hbusy] at htally
  simp only [decide_eq_true_eq] at htally
  exact htally

theorem busy_le_succ (h : ∀ u, u ≠ t → task' u = task u ∧ code' u = code u) :
    busy a task' code' ≤ busy a task code + 1 := by
  classical
  have hupdate := busy_update (a := a) h
  split_ifs at hupdate <;> omega

theorem busy_mono (h : ∀ u, u ≠ t → task' u = task u ∧ code' u = code u)
    (ht : Busy a (task' t) (code' t) → Busy a (task t) (code t)) : busy a task' code' ≤ busy a task code := by
  classical
  have hupdate := busy_update (a := a) h
  by_cases hbusy : Busy a (task' t) (code' t)
  · rw [if_pos hbusy, if_pos (ht hbusy)] at hupdate
    omega
  · rw [if_neg hbusy] at hupdate
    omega

theorem busy_succ (h : ∀ u, u ≠ t → task' u = task u ∧ code' u = code u) (ht : Busy a (task t) (code t))
    (ht' : ¬Busy a (task' t) (code' t)) : busy a task' code' + 1 = busy a task code := by
  classical
  have hupdate := busy_update (a := a) h
  rw [if_pos ht, if_neg ht'] at hupdate
  exact hupdate

/-- A worker has started with another task. -/
theorem start_others (task : Fin N → Option (Line clients)) (code : Fin N → ServerProg Unit) (t : Fin N)
    (L : Option (Line clients)) (c : ServerProg Unit) : ∀ u, u ≠ t →
      Function.update task t L u = task u ∧ Function.update code t c u = code u := by
  intro u hu
  exact ⟨Function.update_of_ne hu _ _, Function.update_of_ne hu _ _⟩

theorem busy_pos (h : Busy a (task t) (code t)) : 0 < busy a task code := by
  classical
  exact tally_pos (p := fun b : Prop => decide b) (f := fun t => Busy a (task t) (code t)) (i := t) (by simpa using h)

theorem busy_unique (h : busy a task code ≤ 1) {u : Fin N} (ht : Busy a (task t) (code t))
    (hu : Busy a (task u) (code u)) : t = u := by
  classical
  exact eq_of_tally_le_one (p := fun b : Prop => decide b) (f := fun t => Busy a (task t) (code t)) h
    (by simpa using ht) (by simpa using hu)

end Busy

end System

end Celegraph.Chat
