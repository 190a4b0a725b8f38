import Celegraph.Lib.Sends
import Celegraph.Server

/-!
# Messages passed on

- `relayOf command`: what a player command asks to pass on, and `relayText`: the text that it becomes.
- `relays`: the packets that a player command sends when it runs alone (`run_playerCommand`).
- `maySend_playerCommand`: the packets that it can send among other threads: the one text, to each session at most
  once.
- `yields_playerCommand`: among other threads that do not change the tables, it sends what it does alone.
-/

namespace Celegraph.Server

open CxxString Packets Utils Prog
open MessagePack (Obj)

variable {s : Server} {held : List Mutex}

@[simp] theorem run_sendDataTo (body : Obj) (packetType : PTYPE) (dest : SockAddr) :
    (sendDataTo body packetType dest : ServerProg Unit).run s held = .ok () s held [⟨packetType, body, dest⟩] := rfl

@[simp] theorem run_sendErrorTo (errorMsg : Bytes) (dest : SockAddr) :
    (sendErrorTo errorMsg dest : ServerProg Unit).run s held = .ok () s held [errorTo errorMsg dest] := rfl

@[simp] theorem run_sendServerCommand (sessionId : Int32) (command : Bytes) (dest : SockAddr) :
    (sendServerCommand sessionId command dest).run s held = .ok () s held [serverCommand sessionId command dest] := rfl

@[simp] theorem run_perform {β : Type} (o : ServerOp β) :
    (perform o : ServerProg β).run s held = .ok (Effect.apply o s).1 (Effect.apply o s).2 held [] := rfl

/-! ## Commands that are passed on -/

/-- What a player command asks to pass on. -/
inductive Relay where
  | message (toUser msg : Bytes)
  | broadcast (msg : Bytes)

/-- `/s` with an addressee and a message, or `/h` with a message. -/
def relayOf (command : Bytes) : Option Relay :=
  match command.splitOn 32 with
  | token₀ :: token₁ :: tokens =>
    if token₀ = text "/s" then
      if tokens = [] then none
      else some (.message token₁ ((command.drop (token₀.length + 1 + token₁.length + 1)).takeWhile (· ≠ 0)))
    else if token₀ = text "/h" then some (.broadcast (command.drop 3))
    else none
  | _ => none

/-- The text that a client's message becomes. -/
def relayText (sessionId : Int32) : Relay → Bytes
  | .message _ msg => text ">>>MESSAGE Client " ++ CxxString.toString sessionId ++ text ": " ++ msg ++ text " <<<"
  | .broadcast msg => text ">>>BROADCAST Client " ++ CxxString.toString sessionId ++ text ": " ++ msg ++ text " <<<"

/-- The text that a message of `fromUser` becomes. -/
def messageText (fromUser msg : Bytes) : Bytes :=
  if fromUser = text "admin" then text ">>>MESSAGE Celegraph Admin: " ++ msg ++ text " <<<"
  else text ">>>MESSAGE Client " ++ fromUser ++ text ": " ++ msg ++ text " <<<"

/-- The text that a broadcast of `user` becomes. -/
def broadcastText (user msg : Bytes) : Bytes :=
  if user = text "admin" then text ">>>BROADCAST Celegraph Admin: " ++ msg ++ text " <<<"
  else text ">>>BROADCAST Client " ++ user ++ text ": " ++ msg ++ text " <<<"

/-- The connections to which it goes. -/
def addressees (s : Server) (sessionId : Int32) : Relay → List (Int32 × SockAddr)
  | .message toUser _ =>
    if toUser = text "admin" then []
    else match stoi toUser with
      | none => []
      | some n => match s.activeConnections[n]? with
        | none => []
        | some dest => [(n, dest)]
  | .broadcast _ => s.activeConnections.toList.filter (·.1 ≠ sessionId)

/-- A text sent to connections. -/
def sentTo (command : Bytes) (conns : List (Int32 × SockAddr)) : List Datagram :=
  conns.map fun conn => serverCommand conn.1 command conn.2

/-- The packets that a player command passes on. -/
def relays (s : Server) (sessionId : Int32) (command : Bytes) : List Datagram :=
  match relayOf command with
  | none => []
  | some relay => sentTo (relayText sessionId relay) (addressees s sessionId relay)

/-- A number is not the admin's name. -/
theorem toString_ne_admin (n : Int32) : CxxString.toString n ≠ text "admin" := by
  intro h
  have hstoi := stoi_toString n
  rw [h, show stoi (text "admin") = none by decide] at hstoi
  cases hstoi

theorem messageText_toString (sessionId : Int32) (toUser msg : Bytes) :
    messageText (CxxString.toString sessionId) msg = relayText sessionId (.message toUser msg) :=
  if_neg (toString_ne_admin sessionId)

theorem broadcastText_toString (sessionId : Int32) (msg : Bytes) :
    broadcastText (CxxString.toString sessionId) msg = relayText sessionId (.broadcast msg) :=
  if_neg (toString_ne_admin sessionId)

/-! ## Alone -/

/-- The loop over the connections leaves the originator out. -/
theorem run_broadcastLoop {user : Bytes} {n : Int32} (hu : stoi user = some n) (broadcast : Bytes)
    (conns : List (Int32 × SockAddr)) :
    (broadcastLoop false broadcast user conns).run s held =
      .ok () s held (sentTo broadcast (conns.filter (·.1 ≠ n))) := by
  induction conns with
  | nil => rfl
  | cons conn conns ih =>
    by_cases hsame : conn.1 = n
    · simpa [broadcastLoop, hu, hsame, sentTo] using ih
    · simp [broadcastLoop, hu, hsame, sentTo, run_bind, Outcome.andThen, ih]

theorem run_broadcastToConnections (hheld : Mutex.activeConnections ∉ held) (msg : Bytes) (sessionId : Int32) :
    (broadcastToConnections msg (CxxString.toString sessionId)).run s held =
      .ok () s held (sentTo (relayText sessionId (.broadcast msg)) (addressees s sessionId (.broadcast msg))) := by
  simp only [broadcastToConnections, toString_ne_admin, decide_false]
  refine run_withLock_of_ok hheld ?_
  exact run_broadcastLoop (stoi_toString sessionId) _ _

/-- A message is sent to the connection that `stoi` reads, whoever sends it. -/
theorem run_message (hheld : Mutex.activeConnections ∉ held) (sessionId : Int32) (msg fromUser toUser : Bytes) :
    (sendMessageToConnection msg fromUser toUser).run s held =
      .ok () s held (sentTo (messageText fromUser msg) (addressees s sessionId (.message toUser msg))) := by
  unfold sendMessageToConnection
  by_cases hadmin : toUser = text "admin"
  · simp [addressees, hadmin, sentTo]
  · cases hstoi : stoi toUser with
    | none => simp [addressees, hadmin, hstoi, sentTo]
    | some n =>
      simp only [hadmin, if_false]
      refine run_withLock_of_ok hheld ?_
      cases hconn : s.activeConnections[n]? with
      | none => simp [run, hconn, addressees, hadmin, hstoi, sentTo]
      | some dest =>
        simp only [perform_bind, run]
        simp [hconn, addressees, hadmin, hstoi, sentTo, messageText]

theorem run_sendMessageToConnection (hheld : Mutex.activeConnections ∉ held) (msg : Bytes) (sessionId : Int32)
    (toUser : Bytes) :
    (sendMessageToConnection msg (CxxString.toString sessionId) toUser).run s held =
      .ok () s held (sentTo (relayText sessionId (.message toUser msg))
        (addressees s sessionId (.message toUser msg))) := by
  rw [← messageText_toString]
  exact run_message hheld sessionId msg _ toUser

/-- A `/s` command names an addressee and has a message, which may be empty. -/
def SayComplete (command : Bytes) : Prop :=
  (command.splitOn 32).head? = some (text "/s") → 3 ≤ (command.splitOn 32).length

instance (command : Bytes) : Decidable (SayComplete command) := inferInstanceAs (Decidable (_ → _))

theorem substr_of_tokens {command t₀ t₁ : Bytes} {ts : List Bytes} (h : command.splitOn 32 = t₀ :: t₁ :: ts) :
    substr command (t₀.length + 1) none = some (command.drop (t₀.length + 1)) := if_pos (length_lt_of_tokens h)

/-- What a player command comes down to: nothing, one of the two ways to pass a message on, or a `/s` that leaves its
tokens or its string. -/
theorem playerCommand_cases (command : Bytes) (sessionId : Int32) :
    (¬SayComplete command ∧ relayOf command = none ∧ playerCommand command sessionId = .undefined) ∨
    (SayComplete command ∧ relayOf command = none ∧ playerCommand command sessionId = .pure ()) ∨
    (∃ toUser msg, SayComplete command ∧ relayOf command = some (.message toUser msg) ∧
      playerCommand command sessionId = sendMessageToConnection msg (CxxString.toString sessionId) toUser) ∨
    ∃ msg, SayComplete command ∧ relayOf command = some (.broadcast msg) ∧
      playerCommand command sessionId = broadcastToConnections msg (CxxString.toString sessionId) := by
  unfold playerCommand SayComplete relayOf
  rw [tokenfy_eq]
  obtain ⟨t₀, ts, hts⟩ := List.exists_cons_of_ne_nil (List.splitOn_ne_nil 32 command)
  simp only [hts, List.head?_cons, Option.some.injEq]
  by_cases hsay : t₀ = text "/s"
  · simp only [hsay, if_true, forall_const]
    rcases ts with _ | ⟨t₁, _ | ⟨t₂, ts⟩⟩
    · exact .inl ⟨by simp, rfl, rfl⟩
    · have hlen := (tokens_length hts).not.mpr (by simp)
      rw [hsay] at hlen
      exact .inl ⟨by simp, rfl, by simp [cString, hlen]⟩
    · have hlen := (tokens_length hts).mpr (by simp)
      rw [hsay] at hlen
      exact .inr (.inr (.inl ⟨_, _, by simp, rfl, by simp [cString, hlen]⟩))
  · simp only [hsay, if_false, IsEmpty.forall_iff, true_and, not_true_eq_false, false_and, false_or]
    by_cases hhelp : t₀ = text "/h"
    · cases ts with
      | nil => exact .inl (by simp [hhelp])
      | cons t₁ ts =>
        have hsub := substr_of_tokens hts
        rw [hhelp] at hsub
        simp only [show (text "/h").length + 1 = 3 from rfl] at hsub
        have hne : text "/h" ≠ text "/s" := by decide
        exact .inr (.inr ⟨command.drop 3, by simp [hhelp, hne], by simp [hhelp, hsub]⟩)
    · refine .inl ⟨?_, by simp [hhelp]⟩
      cases ts <;> simp [hhelp, hsay]

/-- A command is processed without a change, unless it is a `/s` without addressee or message: then it leaves the
tokens or the string. -/
theorem run_playerCommand (s : Server) (hheld : Mutex.activeConnections ∉ held) (command : Bytes) (sessionId : Int32) :
    (playerCommand command sessionId).run s held =
      if SayComplete command then .ok () s held (relays s sessionId command) else .undefined := by
  rcases playerCommand_cases command sessionId with ⟨hsay, _, h⟩ | ⟨hsay, hr, h⟩ | ⟨toUser, msg, hsay, hr, h⟩ |
    ⟨msg, hsay, hr, h⟩
  · rw [h, if_neg hsay]
    rfl
  · rw [h, if_pos hsay, relays, hr]
    rfl
  · rw [h, if_pos hsay, relays, hr]
    exact run_sendMessageToConnection hheld msg sessionId toUser
  · rw [h, if_pos hsay, relays, hr]
    exact run_broadcastToConnections hheld msg sessionId

/-- What is passed on is sent whatever becomes of the command. -/
theorem sends_playerCommand (s : Server) (hheld : Mutex.activeConnections ∉ held) (command : Bytes)
    (sessionId : Int32) : (playerCommand command sessionId).sends s held = relays s sessionId command := by
  have hrun := run_playerCommand s hheld command sessionId
  by_cases hsay : SayComplete command
  · rw [if_pos hsay] at hrun
    exact sends_of_run hrun
  · rcases playerCommand_cases command sessionId with ⟨_, hr, h⟩ | ⟨hsay', _⟩ | ⟨_, _, hsay', _⟩ | ⟨_, hsay', _⟩
    · rw [h, relays, hr]
      rfl
    all_goals exact absurd hsay' hsay

/-! ## Among other threads -/

/-- The loop over the connections sends its text to some of them. -/
theorem maySend_broadcastLoop {isAdmin : Bool} {broadcast user : Bytes} {conns : List (Int32 × SockAddr)}
    {ds : List Datagram} (h : (broadcastLoop isAdmin broadcast user conns).MaySend ds) :
    ∃ conns', conns'.Sublist conns ∧ ds = sentTo broadcast conns' := by
  induction conns generalizing ds with
  | nil => exact ⟨[], .slnil, h⟩
  | cons conn conns ih =>
    have hsend (h : (do sendServerCommand conn.1 broadcast conn.2
                        broadcastLoop isAdmin broadcast user conns : ServerProg Unit).MaySend ds) :
        ∃ conns', conns'.Sublist (conn :: conns) ∧ ds = sentTo broadcast conns' := by
      rcases h with rfl | ⟨ds', rfl, hk⟩
      · exact ⟨[], List.nil_sublist _, rfl⟩
      · obtain ⟨conns', hsub, rfl⟩ := ih hk
        exact ⟨conn :: conns', hsub.cons_cons conn, rfl⟩
    have hskip (h : (broadcastLoop isAdmin broadcast user conns).MaySend ds) :
        ∃ conns', conns'.Sublist (conn :: conns) ∧ ds = sentTo broadcast conns' := by
      obtain ⟨conns', hsub, rfl⟩ := ih h
      exact ⟨conns', hsub.cons conn, rfl⟩
    unfold broadcastLoop at h
    split at h
    · exact hsend h
    · split at h
      · exact ⟨[], List.nil_sublist _, h⟩
      · split at h
        · exact hskip h
        · exact hsend h

/-- The sessions of the connections are distinct. -/
theorem nodup_connections (s : Server) : (s.activeConnections.toList.map Prod.fst).Nodup := by
  refine List.pairwise_map.mpr (s.activeConnections.distinct_keys_toList.imp fun h heq => h ?_)
  rw [heq]
  exact Std.ReflCmp.compare_self

/-- A broadcast goes to each session at most once. -/
theorem maySend_broadcastToConnections {msg user : Bytes} {ds : List Datagram}
    (h : (broadcastToConnections msg user).MaySend ds) :
    ∃ conns, (conns.map Prod.fst).Nodup ∧ ds = sentTo (broadcastText user msg) conns := by
  rcases MaySend.of_withLock h with rfl | ⟨s, h⟩
  · exact ⟨[], List.nodup_nil, rfl⟩
  · obtain ⟨conns, hsub, rfl⟩ := maySend_broadcastLoop h
    exact ⟨conns, (nodup_connections s).sublist (hsub.map _), by simp only [broadcastText]⟩

/-- A message goes to one session at most. -/
theorem maySend_sendMessageToConnection {msg fromUser toUser : Bytes} {ds : List Datagram}
    (h : (sendMessageToConnection msg fromUser toUser).MaySend ds) :
    ∃ conns, (conns.map Prod.fst).Nodup ∧ ds = sentTo (messageText fromUser msg) conns := by
  simp only [sendMessageToConnection, ← messageText.eq_def] at h
  generalize messageText fromUser msg = formattedMsg at h ⊢
  have hnone (h : ds = []) : ∃ conns, (conns.map Prod.fst).Nodup ∧ ds = sentTo formattedMsg conns :=
    ⟨[], List.nodup_nil, h⟩
  split at h
  · exact hnone h
  · split at h
    · exact hnone h
    · rename_i sessionId _
      rcases MaySend.of_withLock h with h | ⟨s, h⟩
      · exact hnone h
      · simp only [Prog.bind, ServerOp.apply_findConnection] at h
        cases hconn : s.activeConnections[sessionId]? with
        | none => exact hnone (by rwa [hconn] at h)
        | some dest =>
          rw [hconn] at h
          rcases h with h | ⟨ds', rfl, hk⟩
          · exact hnone h
          · have hnil : ds' = [] := hk
            subst hnil
            exact ⟨[(sessionId, dest)], List.nodup_singleton _, rfl⟩

/-- **A player command sends one text, to each session at most once.** -/
theorem maySend_playerCommand {command : Bytes} {sessionId : Int32} {ds : List Datagram}
    (h : (playerCommand command sessionId).MaySend ds) : ds = [] ∨ ∃ relay conns, relayOf command = some relay ∧
      (conns.map Prod.fst).Nodup ∧ ds = sentTo (relayText sessionId relay) conns := by
  rcases playerCommand_cases command sessionId with ⟨_, _, hc⟩ | ⟨_, _, hc⟩ | ⟨toUser, msg, _, hr, hc⟩ |
    ⟨msg, _, hr, hc⟩
  · rw [hc] at h
    exact .inl h
  · rw [hc] at h
    exact .inl h
  · rw [hc] at h
    obtain ⟨conns, hnodup, rfl⟩ := maySend_sendMessageToConnection h
    exact .inr ⟨_, conns, hr, hnodup, by rw [messageText_toString sessionId toUser]⟩
  · rw [hc] at h
    obtain ⟨conns, hnodup, rfl⟩ := maySend_broadcastToConnections h
    exact .inr ⟨_, conns, hr, hnodup, by rw [broadcastText_toString]⟩

/-! ## While the tables do not change -/

theorem yields_broadcastLoop {user : Bytes} {n : Int32} (hu : stoi user = some n) (broadcast : Bytes)
    (conns : List (Int32 × SockAddr)) :
    (broadcastLoop false broadcast user conns).Yields s (sentTo broadcast (conns.filter (·.1 ≠ n))) := by
  induction conns with
  | nil => rfl
  | cons conn conns ih =>
    by_cases hsame : conn.1 = n
    · simpa [broadcastLoop, hu, hsame, sentTo] using ih
    · rw [List.filter_cons_of_pos (by simpa using hsame)]
      simp only [broadcastLoop, hu, hsame, Bool.false_eq_true, if_false]
      exact ⟨_, rfl, ih⟩

theorem yields_broadcastToConnections (msg : Bytes) (sessionId : Int32) :
    (broadcastToConnections msg (CxxString.toString sessionId)).Yields s
      (sentTo (relayText sessionId (.broadcast msg)) (addressees s sessionId (.broadcast msg))) := by
  simp only [broadcastToConnections, toString_ne_admin, decide_false]
  refine Yields.withLock ⟨rfl, ?_⟩
  exact yields_broadcastLoop (stoi_toString sessionId) _ _

theorem yields_sendMessageToConnection (msg : Bytes) (sessionId : Int32) (toUser : Bytes) :
    (sendMessageToConnection msg (CxxString.toString sessionId) toUser).Yields s
      (sentTo (relayText sessionId (.message toUser msg)) (addressees s sessionId (.message toUser msg))) := by
  unfold sendMessageToConnection
  by_cases hadmin : toUser = text "admin"
  · simp [addressees, hadmin, sentTo, Yields]
  · cases hstoi : stoi toUser with
    | none => simp [addressees, hadmin, hstoi, sentTo, Yields]
    | some n =>
      simp only [hadmin, toString_ne_admin, if_false]
      refine Yields.withLock ⟨rfl, ?_⟩
      simp only [addressees, hadmin, hstoi, if_false, ServerOp.apply_findConnection]
      cases s.activeConnections[n]? with
      | none => rfl
      | some dest => exact ⟨[], rfl, rfl⟩

/-- A player command passes on its messages. -/
theorem yields_playerCommand (command : Bytes) (sessionId : Int32) :
    (playerCommand command sessionId).Yields s (relays s sessionId command) := by
  rcases playerCommand_cases command sessionId with ⟨_, _, h⟩ | ⟨_, hr, h⟩ | ⟨toUser, msg, _, hr, h⟩ | ⟨msg, _, hr, h⟩
  · rw [h]
    trivial
  · rw [h, relays, hr]
    rfl
  · rw [h, relays, hr]
    exact yields_sendMessageToConnection msg sessionId toUser
  · rw [h, relays, hr]
    exact yields_broadcastToConnections msg sessionId

end Celegraph.Server
