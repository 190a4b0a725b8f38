import Celegraph.AdminShell
import Celegraph.Server.Relays
import Celegraph.Tokenfy

/-!
# How commands are parsed

`ServerState::PlayerCommand` and the branches of `AdminShell::Run`, each with its accesses to the command and to its
tokens, and with the call that it makes. `playerCommand` and `AdminShell.action` are the code of these calls
(`playerCommand_eq`, `action_code_eq`).

- **In bounds** (`commands_in_bounds_iff`): all accesses of `PlayerCommand` are in bounds exactly if a `/s` has an
  addressee and a message; for the shell a `/h` must in addition not be the whole line.
- **Agreement** (`parsers_agree`): both cut a `/s` at the same places. The shell, and `PlayerCommand` for a `/s`, lose
  what follows the first NUL of a message; `PlayerCommand` does not for a `/h`.
-/

namespace Celegraph.Server

open CxxString Utils Checked

/-- What a command makes its parser call, or do. -/
inductive Call where
  | sendMessageToConnection (msg fromUser toUser : Bytes)
  | broadcastToConnections (msg user : Bytes)
  | getPacketQueueSize
  | exit
  | listAccounts
  | getUsers
  | execute (cmd : Bytes)

/-- The code of a call, as far as it acts on the server. -/
def Call.code : Option Call → ServerProg Unit
  | some (.sendMessageToConnection msg fromUser toUser) => Server.sendMessageToConnection msg fromUser toUser
  | some (.broadcastToConnections msg user) => Server.broadcastToConnections msg user
  | some .getPacketQueueSize | some .exit | some .listAccounts | some .getUsers | some (.execute _) | none => return

/-! ## The parsers

A token that is used several times is read once. -/

/-- `ServerState::PlayerCommand`. The commands `/y`, `/ooc` and `/w` only print. -/
def playerCall (pCommand : Bytes) (sessionId : Int32) : Checked (Option Call) := do
  let pCommandTokens ← tokenfyCalls pCommand 32
  let token₀ ← elementAt pCommandTokens 0
  if token₀ = text "/s" then
    let token₁ ← elementAt pCommandTokens 1
    let msg ← cStringAt pCommand (token₀.length + 1 + token₁.length + 1)
    return some (.sendMessageToConnection msg (CxxString.toString sessionId) token₁)
  else if token₀ = text "/h" then
    if 1 < pCommandTokens.length then
      let msg ← substring pCommand 3 none
      return some (.broadcastToConnections msg (CxxString.toString sessionId))
    else return none
  else return none

/-- One round of `AdminShell::Run`, for the line `adminCommand`. `/list packets` and `/create` do not call anything. -/
def adminCall (adminCommand : Bytes) : Checked (Option Call) := do
  let adminTokens ← tokenfyCalls adminCommand 32
  let token₀ ← elementAt adminTokens 0
  if token₀ = text "/shutdown" then return some .exit
  else if token₀ = text "/list" then
    if adminTokens.length = 2 then
      let token₁ ← elementAt adminTokens 1
      if token₁ = text "accounts" then return some .listAccounts
      else if token₁ = text "users" then return some .getUsers
      else if token₁ = text "packetqueue" ∨ token₁ = text "pq" then return some .getPacketQueueSize
      else return none
    else return none
  -- `erase(0, 4)` takes as many bytes as there are
  else if token₀ = text "/db" then return some (.execute (adminCommand.drop 4))
  else if token₀ = text "/h" then
    let msg ← cStringAt adminCommand 3
    return some (.broadcastToConnections msg (text "admin"))
  else if token₀ = text "/s" then
    let token₁ ← elementAt adminTokens 1
    let msg ← cStringAt adminCommand (token₀.length + 1 + token₁.length + 1)
    return some (.sendMessageToConnection msg (text "admin") token₁)
  else return none

/-- The calls of a parser that does not leave its input; nothing is known of one that does. -/
def parsed (x : Checked (Option Call)) : ServerProg Unit := x.result.elim .undefined Call.code

/-- The first two lines of both parsers: a command has a first token. -/
theorem safe_tokens {command token₀ : Bytes} {ts : List Bytes} (h : command.splitOn 32 = token₀ :: ts)
    (f : List Bytes → Bytes → Checked (Option Call)) :
    (do let tokens ← tokenfyCalls command 32
        let token₀ ← elementAt tokens 0
        f tokens token₀).Safe ↔ (f (token₀ :: ts) token₀).Safe := by
  have htokens : (tokenfyCalls command 32).result = some (token₀ :: ts) := by
    rw [result_tokenfyCalls, tokenfy_eq, h]
  simp [safe_bind, safe_tokenfyCalls, htokens]

theorem result_tokens {command token₀ : Bytes} {ts : List Bytes} (h : command.splitOn 32 = token₀ :: ts)
    (f : List Bytes → Bytes → Checked (Option Call)) :
    (do let tokens ← tokenfyCalls command 32
        let token₀ ← elementAt tokens 0
        f tokens token₀).result = (f (token₀ :: ts) token₀).result := by
  simp [result_tokenfyCalls, tokenfy_eq, h]

/-! ## The slice of a `/s` -/

/-- The `/s` branch of both parsers, in the name of `user`. -/
def sayCall (command : Bytes) (tokens : List Bytes) (token₀ user : Bytes) : Checked (Option Call) := do
  let token₁ ← elementAt tokens 1
  let msg ← cStringAt command (token₀.length + 1 + token₁.length + 1)
  return some (.sendMessageToConnection msg user token₁)

/-- The addressee is read and the message starts inside the command exactly if there are three tokens. -/
theorem safe_sayCall {command token₀ : Bytes} {ts : List Bytes} (h : command.splitOn 32 = token₀ :: ts)
    (user : Bytes) : (sayCall command (token₀ :: ts) token₀ user).Safe ↔ 3 ≤ (token₀ :: ts).length := by
  rcases ts with _ | ⟨t₁, ts⟩
  · simp [sayCall, safe_bind]
  · have hlen := tokens_length h
    have hts : ts ≠ [] ↔ 3 ≤ (token₀ :: t₁ :: ts).length := by cases ts <;> simp
    rw [← hts, ← hlen]
    simp [sayCall, safe_bind]

/-- What a `/s` passes on: its second token, and what follows it up to a NUL. -/
theorem result_sayCall {command token₀ t₁ : Bytes} {ts : List Bytes} (h : command.splitOn 32 = token₀ :: t₁ :: ts)
    (hts : ts ≠ []) (user : Bytes) : (sayCall command (token₀ :: t₁ :: ts) token₀ user).result =
      some (some (.sendMessageToConnection
        ((command.drop (token₀.length + 1 + t₁.length + 1)).takeWhile (· ≠ 0)) user t₁)) := by
  have hread := cString_of_le ((tokens_length h).mpr hts)
  simp [sayCall, hread]

/-! ## The parsers and the code -/

/-- `PlayerCommand` is the code of the call that it makes. -/
theorem playerCommand_eq (command : Bytes) (sessionId : Int32) :
    playerCommand command sessionId = parsed (playerCall command sessionId) := by
  obtain ⟨t₀, ts, hts⟩ := List.exists_cons_of_ne_nil (List.splitOn_ne_nil 32 command)
  have hresult : (playerCall command sessionId).result = _ := result_tokens hts _
  rw [parsed, hresult]
  simp only [playerCommand, tokenfy_eq, hts]
  by_cases hsay : t₀ = text "/s"
  · rw [if_pos hsay, if_pos hsay]
    cases ts with
    | nil => rfl
    | cons t₁ ts => cases h : cString command (t₀.length + 1 + t₁.length + 1) <;> simp [h, Call.code]
  rw [if_neg hsay, if_neg hsay]
  by_cases hhelp : t₀ = text "/h"
  · rw [if_pos hhelp, if_pos hhelp]
    cases ts with
    | nil => rfl
    | cons t₁ ts =>
      have hsub := substr_of_tokens hts
      rw [hhelp] at hsub
      have hsub' : substr command 3 none = some (command.drop 3) := hsub
      simp [hsub', Call.code]
  · rw [if_neg hhelp, if_neg hhelp]
    rfl

/-- A round of the shell is the code of the call that it makes. -/
theorem action_code_eq (line : Bytes) : (AdminShell.action line).code = parsed (adminCall line) := by
  obtain ⟨t₀, ts, hts⟩ := List.exists_cons_of_ne_nil (List.splitOn_ne_nil 32 line)
  have hresult : (adminCall line).result = _ := result_tokens hts _
  rw [parsed, hresult]
  simp only [AdminShell.action, tokenfy_eq, hts]
  by_cases hshutdown : t₀ = text "/shutdown"
  · rw [if_pos hshutdown, if_pos hshutdown]
    rfl
  rw [if_neg hshutdown, if_neg hshutdown]
  by_cases hlist : t₀ = text "/list"
  · rw [if_pos hlist, if_pos hlist]
    rcases ts with _ | ⟨t₁, _ | ⟨t₂, ts⟩⟩
    · rfl
    · simp
      split_ifs <;> rfl
    · rfl
  rw [if_neg hlist, if_neg hlist]
  by_cases hdb : t₀ = text "/db"
  · rw [if_pos hdb, if_pos hdb]
    rfl
  rw [if_neg hdb, if_neg hdb]
  by_cases hhelp : t₀ = text "/h"
  · rw [if_pos hhelp, if_pos hhelp]
    cases h : cString line 3 <;> simp [h, Call.code, AdminShell.Action.code]
  rw [if_neg hhelp, if_neg hhelp]
  by_cases hsay : t₀ = text "/s"
  · rw [if_pos hsay, if_pos hsay]
    cases ts with
    | nil => rfl
    | cons t₁ ts =>
      cases h : cString line (t₀.length + 1 + t₁.length + 1) <;> simp [h, Call.code, AdminShell.Action.code]
  rw [if_neg hsay, if_neg hsay]
  rfl

/-! ## Accesses -/

theorem safe_playerCall (command : Bytes) (sessionId : Int32) :
    (playerCall command sessionId).Safe ↔ SayComplete command := by
  obtain ⟨t₀, ts, hts⟩ := List.exists_cons_of_ne_nil (List.splitOn_ne_nil 32 command)
  refine (safe_tokens hts _).trans ?_
  rw [SayComplete, hts, List.head?_cons, Option.some.injEq]
  by_cases hsay : t₀ = text "/s"
  · rw [if_pos hsay]
    exact (safe_sayCall hts _).trans (by simp [hsay])
  · rw [if_neg hsay]
    refine iff_of_true ?_ fun h => absurd h hsay
    by_cases hhelp : t₀ = text "/h"
    · rw [if_pos hhelp]
      split
      · rename_i hlen
        obtain ⟨t₁, ts, rfl⟩ : ∃ t₁ ts', ts = t₁ :: ts' := by
          cases ts with
          | nil => simp at hlen
          | cons t₁ ts => exact ⟨t₁, ts, rfl⟩
        have hstart := length_lt_of_tokens hts
        rw [hhelp] at hstart
        exact safe_bind.mpr ⟨safe_substring.mpr hstart, fun _ _ => safe_pure _⟩
      · exact safe_pure _
    · rw [if_neg hhelp]
      exact safe_pure _

/-- A `/h` alone ends before the place where the shell looks for a message. -/
theorem safe_helpCall {command : Bytes} {ts : List Bytes} (h : command.splitOn 32 = text "/h" :: ts) :
    3 ≤ command.length ↔ command ≠ text "/h" := by
  cases ts with
  | nil =>
    have hjoin : [32].intercalate (command.splitOn 32) = command := List.intercalate_splitOn 32
    rw [h, List.intercalate_singleton] at hjoin
    simp [← hjoin, text]
  | cons t₁ ts =>
    have hstart := length_lt_of_tokens h
    refine iff_of_true hstart ?_
    rintro rfl
    exact absurd hstart (by decide)

theorem safe_adminCall (line : Bytes) : (adminCall line).Safe ↔ SayComplete line ∧ line ≠ text "/h" := by
  obtain ⟨t₀, ts, hts⟩ := List.exists_cons_of_ne_nil (List.splitOn_ne_nil 32 line)
  refine (safe_tokens hts _).trans ?_
  rw [SayComplete, hts, List.head?_cons, Option.some.injEq]
  have hline (h : t₀ ≠ text "/h") : line ≠ text "/h" := by
    rintro rfl
    exact h (List.head_eq_of_cons_eq hts).symm
  -- all commands but two access nothing that need not be there
  have hother (hsay : t₀ ≠ text "/s") (hhelp : t₀ ≠ text "/h") :
      (t₀ = text "/s" → 3 ≤ (t₀ :: ts).length) ∧ line ≠ text "/h" := ⟨fun h => absurd h hsay, hline hhelp⟩
  by_cases hshutdown : t₀ = text "/shutdown"
  · rw [if_pos hshutdown]
    exact iff_of_true (safe_pure _) (hother (by rw [hshutdown]; decide) (by rw [hshutdown]; decide))
  rw [if_neg hshutdown]
  by_cases hlist : t₀ = text "/list"
  · rw [if_pos hlist]
    refine iff_of_true ?_ (hother (by rw [hlist]; decide) (by rw [hlist]; decide))
    split
    · rename_i hlen
      refine safe_bind.mpr ⟨safe_elementAt.mpr (by omega), fun token₁ _ => ?_⟩
      split_ifs <;> exact safe_pure _
    · exact safe_pure _
  rw [if_neg hlist]
  by_cases hdb : t₀ = text "/db"
  · rw [if_pos hdb]
    exact iff_of_true (safe_pure _) (hother (by rw [hdb]; decide) (by rw [hdb]; decide))
  rw [if_neg hdb]
  by_cases hhelp : t₀ = text "/h"
  · rw [if_pos hhelp]
    have hsay : t₀ ≠ text "/s" := by rw [hhelp]; decide
    have hlen := safe_helpCall (hhelp ▸ hts)
    simp [safe_bind, hsay, hlen]
  rw [if_neg hhelp]
  by_cases hsay : t₀ = text "/s"
  · rw [if_pos hsay]
    exact (safe_sayCall hts _).trans (by simp [hsay, hline hhelp])
  rw [if_neg hsay]
  exact iff_of_true (safe_pure _) (hother hsay hhelp)

/-- **Parsing stays inside the command** exactly if a `/s` has an addressee and a message, and, for the shell, a `/h`
is not alone. -/
theorem commands_in_bounds_iff (command : Bytes) (sessionId : Int32) (line : Bytes) :
    ((playerCall command sessionId).Safe ↔ SayComplete command) ∧
      ((adminCall line).Safe ↔ SayComplete line ∧ line ≠ text "/h") :=
  ⟨safe_playerCall command sessionId, safe_adminCall line⟩

/-- A `/s` alone has no second token. -/
theorem not_commands_in_bounds :
    ¬((∀ command sessionId, (playerCall command sessionId).Safe) ∧ ∀ line, line ≠ [] → (adminCall line).Safe) := by
  rintro ⟨hplayer, _⟩
  exact absurd ((safe_playerCall (text "/s") 1).mp (hplayer _ _)) (by decide)

/-! ## The two parsers on one command -/

/-- A message is cut at its first NUL, so it is passed on whole exactly if it has none. -/
theorem takeWhile_ne_zero_eq {msg : Bytes} : msg.takeWhile (· ≠ 0) = msg ↔ 0 ∉ msg := by
  rw [List.takeWhile_eq_self_iff]
  constructor
  · intro h hmem
    simpa using h 0 hmem
  · intro h c hc
    have hne : c ≠ 0 := by rintro rfl; exact h hc
    simpa using hne

/-- The tokens of a `/s` with an addressee. -/
theorem splitOn_say {toUser : Bytes} (h : 32 ∉ toUser) (msg : Bytes) :
    (text "/s " ++ toUser ++ 32 :: msg).splitOn 32 = text "/s" :: toUser :: msg.splitOn 32 := by
  have hjoin : text "/s " ++ toUser ++ 32 :: msg = text "/s" ++ 32 :: (toUser ++ 32 :: msg) := by
    simp [text]
  have hsay : (32 : UInt8) ∉ text "/s" := by decide
  rw [hjoin, List.splitOn_append_cons_self_of_not_mem hsay, List.splitOn_append_cons_self_of_not_mem h]

theorem splitOn_help (msg : Bytes) : (text "/h " ++ msg).splitOn 32 = text "/h" :: msg.splitOn 32 :=
  List.splitOn_append_cons_self_of_not_mem (show (32 : UInt8) ∉ text "/h" by decide) msg

/-- What follows the addressee and the space after it. -/
theorem drop_say (toUser msg : Bytes) :
    (text "/s " ++ toUser ++ 32 :: msg).drop ((text "/s").length + 1 + toUser.length + 1) = msg := by
  have hlen : (text "/s").length + 1 + toUser.length + 1 = (text "/s " ++ toUser ++ [32]).length := by
    simp [text]
    omega
  have happend : text "/s " ++ toUser ++ 32 :: msg = (text "/s " ++ toUser ++ [32]) ++ msg := by simp
  rw [hlen, happend, List.drop_left]

/-- The call of a `/s` branch. -/
theorem result_sayCall_line {toUser : Bytes} (h : 32 ∉ toUser) (msg user : Bytes) :
    (sayCall (text "/s " ++ toUser ++ 32 :: msg) (text "/s" :: toUser :: msg.splitOn 32) (text "/s") user).result =
      some (some (.sendMessageToConnection (msg.takeWhile (· ≠ 0)) user toUser)) := by
  rw [result_sayCall (splitOn_say h msg) (List.splitOn_ne_nil 32 msg), drop_say]

/-- **Both parsers cut a `/s` at the same places**, and lose of the message what follows its first NUL. Of a `/h`,
`PlayerCommand` passes the whole message on, the shell loses what follows the first NUL. -/
theorem parsers_agree (toUser msg : Bytes) (sessionId : Int32) (h : 32 ∉ toUser) :
    (∃ passed,
      (playerCall (text "/s " ++ toUser ++ 32 :: msg) sessionId).result =
        some (some (.sendMessageToConnection passed (CxxString.toString sessionId) toUser)) ∧
      (adminCall (text "/s " ++ toUser ++ 32 :: msg)).result =
        some (some (.sendMessageToConnection passed (text "admin") toUser)) ∧
      passed = msg.takeWhile (· ≠ 0) ∧ (passed = msg ↔ 0 ∉ msg)) ∧
    (playerCall (text "/h " ++ msg) sessionId).result =
      some (some (.broadcastToConnections msg (CxxString.toString sessionId))) ∧
    ∃ passed, (adminCall (text "/h " ++ msg)).result = some (some (.broadcastToConnections passed (text "admin"))) ∧
      passed = msg.takeWhile (· ≠ 0) ∧ (passed = msg ↔ 0 ∉ msg) := by
  refine ⟨⟨_, ?_, ?_, rfl, takeWhile_ne_zero_eq⟩, ?_, _, ?_, rfl, takeWhile_ne_zero_eq⟩
  · exact (result_tokens (splitOn_say h msg) _).trans (result_sayCall_line h msg _)
  · exact (result_tokens (splitOn_say h msg) _).trans (result_sayCall_line h msg _)
  · obtain ⟨t₁, ts, hts⟩ := List.exists_cons_of_ne_nil (List.splitOn_ne_nil 32 msg)
    refine (result_tokens (splitOn_help msg) _).trans ?_
    simp [hts, substr, text]
  · refine (result_tokens (splitOn_help msg) _).trans ?_
    simp [cString, text]

/-- A message of `0`, NUL and `1` to session 2 arrives as `0`. -/
theorem parsers_agree_nul :
    ∃ passed, (playerCall (text "/s 2 " ++ [48, 0, 49]) 1).result =
      some (some (.sendMessageToConnection passed (text "1") (text "2"))) ∧ passed ≠ [48, 0, 49] := by
  obtain ⟨⟨passed, h, _, _, hpassed⟩, _⟩ := parsers_agree (text "2") [48, 0, 49] 1 (by decide)
  exact ⟨passed, h, fun heq => hpassed.mp heq (by decide)⟩

end Celegraph.Server
