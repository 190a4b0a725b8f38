import Celegraph.Server.Attribution
import Celegraph.Server.Commands

/-!
# Who gets a message

- `SendMessageToConnection`: the message goes to the session that the target numbers, and to nobody else, exactly if the
  target is a numeral as a whole or starts with nothing that numbers a connection (`message_reaches_iff`). `std::stoi`
  takes the numeral that a target starts with, so `2x` is session 2 (`not_message_reaches`).
- `BroadcastToConnections`: everyone but the sender gets exactly one packet, everyone if the admin is the sender
  (`broadcast_reaches`).
-/

namespace Celegraph.Server

open CxxString Packets Utils Prog Checked

variable {s : Server} {held : List Mutex}

/-! ## Messages -/

/-- The packets `out` are one to the connection that the target numbers, and none if there is no such connection. -/
def ReachesAddressee (s : Server) (toUser command : Bytes) (out : List Datagram) : Prop :=
  (∀ n dest, numeral toUser = some n.toInt → s.activeConnections[n]? = some dest →
      out = [serverCommand n command dest]) ∧
    ((∀ n : Int32, numeral toUser = some n.toInt → n ∉ s.activeConnections) → out = [])

/-- An `int` is the value of a numeral exactly if `stoi` reads it. -/
theorem numeral_toInt {toUser : Bytes} {z : Int} (h : numeral toUser = some z) (n : Int32) :
    numeral toUser = some n.toInt ↔ stoi toUser = some n := by
  rw [stoi_of_numeral h, h, Option.some.injEq]
  constructor
  · rintro rfl
    rw [if_pos (toInt_bounds n), Int32.ofInt_toInt]
  · intro hn
    obtain ⟨⟨hlo, hhi⟩, hz⟩ := Option.ite_none_right_eq_some.mp hn
    rw [← Option.some.inj hz, Int32.toInt_ofInt_of_le hlo hhi]

/-- Nothing is sent if `stoi` reads no connection. -/
theorem addressees_eq_nil {toUser msg : Bytes} (h : ∀ n, stoi toUser = some n → n ∉ s.activeConnections) :
    addressees s 0 (.message toUser msg) = [] := by
  by_cases hadmin : toUser = text "admin"
  · simp [addressees, hadmin]
  · cases hstoi : stoi toUser with
    | none => simp [addressees, hadmin, hstoi]
    | some n => simp [addressees, hadmin, hstoi, Std.TreeMap.getElem?_eq_none (h n hstoi)]

/-- One packet is sent if it does. -/
theorem addressees_eq_singleton {toUser msg : Bytes} {n : Int32} {dest : SockAddr} (hadmin : toUser ≠ text "admin")
    (hstoi : stoi toUser = some n) (hconn : s.activeConnections[n]? = some dest) :
    addressees s 0 (.message toUser msg) = [(n, dest)] := by
  simp [addressees, hadmin, hstoi, hconn]

/-- The packets of a message, where the target is a numeral as a whole or numbers no connection. -/
theorem reachesAddressee_of {toUser : Bytes} (hadmin : toUser ≠ text "admin") (msg command : Bytes)
    (h : (numeral toUser).isSome ∨ ∀ n, stoi toUser = some n → n ∉ s.activeConnections) :
    ReachesAddressee s toUser command (sentTo command (addressees s 0 (.message toUser msg))) := by
  by_cases hnum : (numeral toUser).isSome
  · obtain ⟨z, hz⟩ := Option.isSome_iff_exists.mp hnum
    constructor
    · intro n dest hn hconn
      rw [addressees_eq_singleton hadmin ((numeral_toInt hz n).mp hn) hconn]
      rfl
    · intro hnot
      rw [addressees_eq_nil fun n hn => hnot n ((numeral_toInt hz n).mpr hn)]
      rfl
  · constructor
    · intro n _ hn
      simp [hn] at hnum
    · intro _
      rw [addressees_eq_nil (h.resolve_left hnum)]
      rfl

/-- **A message reaches its addressee and nobody else** exactly if the target is a numeral as a whole, or what `stoi`
reads from it is not a connection. -/
theorem message_reaches_iff (hheld : Mutex.activeConnections ∉ held) (msg fromUser : Bytes) {toUser : Bytes}
    (hadmin : toUser ≠ text "admin") :
    (∃ out, (sendMessageToConnection msg fromUser toUser).run s held = .ok () s held out ∧
        ReachesAddressee s toUser (messageText fromUser msg) out) ↔
      (numeral toUser).isSome ∨ ∀ n, stoi toUser = some n → n ∉ s.activeConnections := by
  have hrun := run_message (s := s) hheld 0 msg fromUser toUser
  constructor
  · rintro ⟨out, hout, hreach⟩
    by_contra hnot
    obtain ⟨hnum, hconn⟩ := not_or.mp hnot
    push Not at hconn
    obtain ⟨n, hstoi, hmem⟩ := hconn
    -- `stoi` reads a number that the target is not, and a connection has it
    have hnil : out = [] := hreach.2 fun k hk => absurd (Option.isSome_iff_exists.mpr ⟨_, hk⟩) hnum
    obtain ⟨dest, hdest⟩ := Option.isSome_iff_exists.mp (Std.TreeMap.mem_iff_isSome_getElem?.mp hmem)
    rw [hrun, addressees_eq_singleton hadmin hstoi hdest, hnil] at hout
    cases hout
  · intro h
    exact ⟨_, hrun, reachesAddressee_of hadmin msg _ h⟩

theorem message_reaches_two : ∃ out,
    (sendMessageToConnection (text "hi") (text "1") (text "2")).run twoSessions [] = .ok () twoSessions [] out ∧
      ReachesAddressee twoSessions (text "2") (messageText (text "1") (text "hi")) out :=
  (message_reaches_iff (by decide) _ _ (by decide)).mpr (.inl (by decide))

/-- A message to `2x` goes to session 2. -/
theorem not_message_reaches :
    ¬∀ (s : Server) (msg fromUser toUser : Bytes), toUser ≠ text "admin" → ∃ out,
      (sendMessageToConnection msg fromUser toUser).run s [] = .ok () s [] out ∧
        ReachesAddressee s toUser (messageText fromUser msg) out := by
  intro hall
  have hsent := hall twoSessions (text "hi") (text "1") (text "2x") (by decide)
  rcases (message_reaches_iff (by decide) _ _ (by decide)).mp hsent with hnum | hconn
  · exact absurd hnum (by decide)
  · exact absurd (hconn 2 (by decide)) (by simp [twoSessions])

/-! ## Broadcasts -/

/-- The loop leaves nobody out for the admin. -/
theorem run_broadcastLoop_admin (broadcast user : Bytes) (conns : List (Int32 × SockAddr)) :
    (broadcastLoop true broadcast user conns).run s held = .ok () s held (sentTo broadcast conns) := by
  induction conns with
  | nil => rfl
  | cons conn conns ih => simp [broadcastLoop, sentTo, run_bind, Outcome.andThen, ih]

theorem run_broadcast_admin (hheld : Mutex.activeConnections ∉ held) (msg : Bytes) :
    (broadcastToConnections msg (text "admin")).run s held =
      .ok () s held (sentTo (broadcastText (text "admin") msg) s.activeConnections.toList) := by
  simp only [broadcastToConnections, decide_true]
  refine run_withLock_of_ok hheld ?_
  exact run_broadcastLoop_admin _ _ _

/-- `PlayerCommand` broadcasts in the name of its session. -/
theorem user_of_playerCall {command msg user : Bytes} {sessionId : Int32}
    (h : (playerCall command sessionId).result = some (some (.broadcastToConnections msg user))) :
    user = CxxString.toString sessionId := by
  obtain ⟨t₀, ts, hts⟩ := List.exists_cons_of_ne_nil (List.splitOn_ne_nil 32 command)
  have hresult : (playerCall command sessionId).result = _ := result_tokens hts _
  rw [hresult] at h
  split_ifs at h
  · -- a `/s` makes another call
    simp [Option.bind_eq_some_iff] at h
  · simp only [result_bind, result_substring, Option.bind_eq_some_iff, result_pure, Option.some.injEq,
      Call.broadcastToConnections.injEq] at h
    obtain ⟨_, _, _, huser⟩ := h
    exact huser.symm
  all_goals cases h

/-- The connections but one, as the entries of the map. -/
theorem mem_others {s : Server} {n k : Int32} {dest : SockAddr} :
    (k, dest) ∈ addressees s n (.broadcast []) ↔ s.activeConnections[k]? = some dest ∧ k ≠ n := by
  simp [addressees, Std.TreeMap.mem_toList_iff_getElem?_eq_some]

/-- **A broadcast reaches everyone else exactly once.** There is one packet for each connection but the sender's, or
for every connection if the admin is the sender; all carry one text. The sender's numeral is read back, so a broadcast
of `PlayerCommand` is never stopped by `stoi`. -/
theorem broadcast_reaches (s : Server) (hheld : Mutex.activeConnections ∉ held) (msg : Bytes) :
    (∀ n, ∃ conns,
      (broadcastToConnections msg (CxxString.toString n)).run s held =
        .ok () s held (sentTo (broadcastText (CxxString.toString n) msg) conns) ∧
      (conns.map Prod.fst).Nodup ∧ ∀ k dest, (k, dest) ∈ conns ↔ s.activeConnections[k]? = some dest ∧ k ≠ n) ∧
    (∃ conns,
      (broadcastToConnections msg (text "admin")).run s held =
        .ok () s held (sentTo (broadcastText (text "admin") msg) conns) ∧
      (conns.map Prod.fst).Nodup ∧ ∀ k dest, (k, dest) ∈ conns ↔ s.activeConnections[k]? = some dest) ∧
    ∀ command n passed user, (playerCall command n).result = some (some (.broadcastToConnections passed user)) →
      ∃ out, (broadcastToConnections passed user).run s held = .ok () s held out := by
  refine ⟨fun n => ⟨_, ?_, ?_, fun k dest => mem_others⟩, ⟨_, run_broadcast_admin hheld msg, nodup_connections s,
    fun k dest => Std.TreeMap.mem_toList_iff_getElem?_eq_some⟩, fun command n passed user h => ?_⟩
  · rw [run_broadcastToConnections hheld, broadcastText_toString]
    rfl
  · exact (nodup_connections s).sublist (List.filter_sublist.map _)
  · rw [user_of_playerCall h]
    exact ⟨_, run_broadcastToConnections hheld passed n⟩

/-- Three sessions, each with a connection. -/
def threeSessions : Server where
  serverState := { ServerState.init with sessions := {1, 2, 3}, curSession := 4 }
  activeConnections := (((∅ : Std.TreeMap Int32 SockAddr).insert 1 ⟨0x7f000001, 40001⟩).insert 2
    ⟨0x7f000001, 40002⟩).insert 3 ⟨0x7f000001, 40003⟩

/-- Session 1 is connected too, and is left out. -/
theorem broadcast_reaches_three : ∃ conns,
    (broadcastToConnections (text "hi") (text "1")).run threeSessions [] =
      .ok () threeSessions [] (sentTo (broadcastText (text "1") (text "hi")) conns) ∧
    (conns.map Prod.fst).Nodup ∧ (∀ dest, (1, dest) ∉ conns) ∧ (2, ⟨0x7f000001, 40002⟩) ∈ conns ∧
      (3, ⟨0x7f000001, 40003⟩) ∈ conns := by
  have hheld : Mutex.activeConnections ∉ ([] : List Mutex) := by decide
  obtain ⟨conns, hrun, hnodup, hmem⟩ := (broadcast_reaches threeSessions hheld (text "hi")).1 1
  refine ⟨conns, hrun, hnodup, fun dest hsender => ((hmem 1 dest).mp hsender).2 rfl, ?_, ?_⟩
  · exact (hmem _ _).mpr ⟨rfl, by decide⟩
  · exact (hmem _ _).mpr ⟨rfl, by decide⟩

end Celegraph.Server
