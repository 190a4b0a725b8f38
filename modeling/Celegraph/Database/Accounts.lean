import Celegraph.Database
import Celegraph.Lib.Runs

/-!
# The account table stays well-formed

One call of `InsertAccount` (`insertCall_cases`): it does not return, it refuses and changes nothing, or it adds its row
under the next key and returns that key. It returns exactly if the loops over the key and the salt end (`Ends`,
`insertCall_isSome_iff`).

Any sequence of calls that end, on the tables of `init_db.sql`: names, keys and salts are valid, no two names are alike,
and the list of accounts has one entry for each call that returned a key (`accounts_wellFormed`).
-/

namespace Celegraph.Database

open CxxString Utils Tables Runs

/-- The arguments of `InsertAccount`. -/
structure AccountCall where
  accountName : Bytes
  email : Bytes
  key : Bytes
  salt : Bytes

namespace AccountCall

/-- The row that the call inserts. -/
def row (c : AccountCall) : Account where
  valid := true
  accountname := c.accountName
  email := c.email
  session := none
  active := true
  key := c.key
  salt := c.salt

/-- The call returns: the loops that it comes to end. -/
def Ends (c : AccountCall) : Prop :=
  ValidName c.accountName → Utils.Ends isHexDigit c.key ∧ (ValidHex c.key → Utils.Ends isHexDigit c.salt)

/-- The arguments are valid, and the name is new. -/
def Accepted (db : Database) (c : AccountCall) : Prop :=
  ValidName c.accountName ∧ ValidHex c.key ∧ ValidHex c.salt ∧
    ∀ row ∈ db.account.rows, nocase row.2.accountname ≠ nocase c.accountName

end AccountCall

/-- A call of `InsertAccount`: what it returns, and the database after it; `none` if it does not return. -/
def insertCall (db : Database) (c : AccountCall) : Option (Int32 × Database) :=
  db.insertAccount c.accountName c.email c.key c.salt

variable {db db' : Database} {c : AccountCall}

/-! ## One call -/

theorem insertIntoAccount_eq_some {row : Account} {n : Nat} (h : db.insertIntoAccount row = some (n, db')) :
    nocase row.accountname ∉ (db.account.column fun row => nocase row.accountname) ∧ n = 1 ∧
      db'.account = db.account.append row ∧ db'.user = db.user ∧ db'.lastInsertRowid = db.account.seq + 1 := by
  unfold insertIntoAccount at h
  split at h
  · cases h
  · rename_i account hinsert
    obtain ⟨hnew, _, rfl⟩ := Table.insertUnique_eq_some.mp hinsert
    cases h
    exact ⟨hnew, rfl, rfl, rfl, rfl⟩

theorem insertIntoAccount_eq_none {row : Account} (h : db.insertIntoAccount row = none) :
    nocase row.accountname ∈ (db.account.column fun row => nocase row.accountname) ∨ maxKey ≤ db.account.seq := by
  unfold insertIntoAccount at h
  split at h
  · rename_i hinsert
    by_contra hnot
    obtain ⟨hnew, hkey⟩ := not_or.mp hnot
    have hsome := Table.insertUnique_eq_some.mpr ⟨hnew, by omega, rfl⟩
    rw [hinsert] at hsome
    cases hsome
  · cases h

/-- The name of a call is new exactly if the column does not have it. -/
theorem accepted_iff : c.Accepted db ↔ ValidName c.accountName ∧ ValidHex c.key ∧ ValidHex c.salt ∧
    nocase c.row.accountname ∉ (db.account.column fun row => nocase row.accountname) := by
  simp [AccountCall.Accepted, Table.column, AccountCall.row]

/-- **One call**: it does not return; or it refuses, and changes nothing; or it adds its row, and returns the key. It is
refused if it is not accepted, or if there are no keys left. -/
theorem insertCall_cases (db : Database) (c : AccountCall) :
    (¬c.Ends ∧ db.insertCall c = none) ∨
    (c.Ends ∧ (¬c.Accepted db ∨ maxKey ≤ db.account.seq) ∧ db.insertCall c = some (0, db)) ∨
    ∃ db', c.Ends ∧ c.Accepted db ∧ db'.account = db.account.append c.row ∧ db'.user = db.user ∧
      db.insertCall c = some (Int32.ofInt (db.account.seq + 1), db') := by
  rcases sanitizeAccountName_cases c.accountName with ⟨hn, hname⟩ | ⟨hn, hname⟩
  swap
  · refine .inr (.inl ⟨fun h => absurd h hn, .inl fun h => hn h.1, ?_⟩)
    simp [insertCall, insertAccount, hname]
  rcases sanitizeHexString_cases c.key with ⟨hkeyEnds, hkey⟩ | ⟨hkeyEnds, hk, hkey⟩ | ⟨hkeyEnds, hk, hkey⟩
  · refine .inl ⟨fun h => hkeyEnds (h hn).1, ?_⟩
    simp [insertCall, insertAccount, hname, hkey]
  swap
  · refine .inr (.inl ⟨fun _ => ⟨hkeyEnds, fun h => absurd h hk⟩, .inl fun h => hk h.2.1, ?_⟩)
    simp [insertCall, insertAccount, hname, hkey]
  rcases sanitizeHexString_cases c.salt with ⟨hsaltEnds, hsalt⟩ | ⟨hsaltEnds, hs, hsalt⟩ | ⟨hsaltEnds, hs, hsalt⟩
  · refine .inl ⟨fun h => hsaltEnds ((h hn).2 hk), ?_⟩
    simp [insertCall, insertAccount, hname, hkey, hsalt]
  swap
  · refine .inr (.inl ⟨fun _ => ⟨hkeyEnds, fun _ => hsaltEnds⟩, .inl fun h => hs h.2.2.1, ?_⟩)
    simp [insertCall, insertAccount, hname, hkey, hsalt]
  -- all three are valid, so that the rest is up to the table
  have hends : c.Ends := fun _ => ⟨hkeyEnds, fun _ => hsaltEnds⟩
  cases hinsert : db.insertIntoAccount c.row with
  | none =>
    refine .inr (.inl ⟨hends, ?_, ?_⟩)
    · refine (insertIntoAccount_eq_none hinsert).imp_left fun hmem haccepted => ?_
      exact (accepted_iff.mp haccepted).2.2.2 hmem
    · rw [AccountCall.row] at hinsert
      simp [insertCall, insertAccount, hname, hkey, hsalt, hinsert]
  | some inserted =>
    obtain ⟨n, db'⟩ := inserted
    obtain ⟨hnew, rfl, haccount, huser, hrowid⟩ := insertIntoAccount_eq_some hinsert
    refine .inr (.inr ⟨db', hends, accepted_iff.mpr ⟨hn, hk, hs, hnew⟩, haccount, huser, ?_⟩)
    rw [AccountCall.row] at hinsert
    simp [insertCall, insertAccount, hname, hkey, hsalt, hinsert, hrowid]

/-- **A call returns** exactly if its loops end. -/
theorem insertCall_isSome_iff (db : Database) (c : AccountCall) : (db.insertCall c).isSome ↔ c.Ends := by
  rcases insertCall_cases db c with ⟨hends, h⟩ | ⟨hends, _, h⟩ | ⟨_, hends, _, _, _, h⟩
  · exact iff_of_false (by simp [h]) hends
  · exact iff_of_true (by simp [h]) hends
  · exact iff_of_true (by simp [h]) hends

/-- What a call is to do: it returns a key exactly if it is accepted; then it has added its row under that key, otherwise
it has changed nothing. -/
structure Correct (db : Database) (c : AccountCall) (r : Int32) (db' : Database) : Prop where
  accepted : r ≠ 0 ↔ c.Accepted db
  refused : r = 0 → db' = db
  added : r ≠ 0 → db'.account.rows = db.account.rows ++ [(r.toInt, c.row)] ∧ db'.user = db.user

/-! ## Sequences of calls -/

/-- The keys are given out in order, and what is stored was checked. -/
structure WellFormed (db : Database) : Prop where
  seq : db.account.seq = db.account.rows.length
  checked : ∀ row ∈ db.account.rows, ValidName row.2.accountname ∧ ValidHex row.2.key ∧ ValidHex row.2.salt

theorem wellFormed_init : WellFormed .init where
  seq := rfl
  checked row h := by cases h

/-- A call keeps the table well-formed. -/
theorem wellFormed_insertCall (h : WellFormed db) {r : Int32} (hcall : db.insertCall c = some (r, db')) :
    WellFormed db' := by
  rcases insertCall_cases db c with ⟨_, hcase⟩ | ⟨_, _, hcase⟩ | ⟨db₁, _, haccepted, haccount, _, hcase⟩
  · rw [hcase] at hcall
    cases hcall
  · rw [hcase] at hcall
    cases hcall
    exact h
  · rw [hcase] at hcall
    cases hcall
    constructor
    · rw [haccount, Table.append_seq, h.seq, Table.append_rows, List.length_append, List.length_singleton]
      omega
    · intro row hrow
      rw [haccount, Table.append_rows] at hrow
      rcases List.mem_append.mp hrow with hrow | hrow
      · exact h.checked row hrow
      · rw [List.mem_singleton.mp hrow]
        exact ⟨haccepted.1, haccepted.2.1, haccepted.2.2.1⟩

/-- **A call on a well-formed table is correct**, while the keys fit into an `int`. -/
theorem correct_insertCall (h : WellFormed db) {r : Int32} (hcall : db.insertCall c = some (r, db'))
    (hlen : db'.account.rows.length < 2 ^ 31) : Correct db c r db' := by
  have hseq := h.seq
  rcases insertCall_cases db c with ⟨_, hcase⟩ | ⟨_, hnot, hcase⟩ | ⟨db₁, _, haccepted, haccount, huser, hcase⟩
  · rw [hcase] at hcall
    cases hcall
  · rw [hcase] at hcall
    cases hcall
    have hrefused : ¬c.Accepted db := hnot.resolve_right (by rw [maxKey]; omega)
    exact ⟨iff_of_false (fun hne => hne rfl) hrefused, fun _ => rfl, fun hne => absurd rfl hne⟩
  · rw [hcase] at hcall
    cases hcall
    rw [haccount, Table.append_rows, List.length_append, List.length_singleton] at hlen
    have hkey : (Int32.ofInt (db.account.seq + 1)).toInt = db.account.seq + 1 :=
      Int32.toInt_ofInt_of_le (by omega) (by omega)
    have hne : Int32.ofInt (db.account.seq + 1) ≠ 0 := by
      intro hzero
      rw [hzero, show (0 : Int32).toInt = 0 from rfl] at hkey
      omega
    refine ⟨iff_of_true hne haccepted, fun hzero => absurd hzero hne, fun _ => ⟨?_, huser⟩⟩
    rw [haccount, Table.append_rows, hkey]

/-- The database after a call. -/
def callStep (db : Database) (c : AccountCall) : Option Database := (db.insertCall c).map Prod.snd

/-- The call returned a key. -/
def ReturnedKey (x : Database × AccountCall) : Bool := (x.1.insertCall x.2).any fun result => result.1 ≠ 0

/-- The names of the calls that returned a key. -/
def storedNames (tr : List (Database × AccountCall)) : List Bytes :=
  (tr.filter ReturnedKey).map fun x => x.2.accountName

/-- A run of calls, while the keys fit into an `int`: all calls are correct, and the stored names are those of the calls
that returned a key. -/
theorem run_correct {tr : List (Database × AccountCall)} (h : Run callStep .init tr db) : WellFormed db ∧
    (db.account.rows.length < 2 ^ 31 →
      (∀ x ∈ tr, ∃ r db', x.1.insertCall x.2 = some (r, db') ∧ Correct x.1 x.2 r db') ∧
        db.account.column Account.accountname = storedNames tr) := by
  induction h with
  | init => exact ⟨wellFormed_init, fun _ => ⟨by simp, rfl⟩⟩
  | @step tr db db' c _ hstep ih =>
    obtain ⟨hwf, hprev⟩ := ih
    obtain ⟨⟨r, db₁⟩, hcall, rfl⟩ := Option.map_eq_some_iff.mp hstep
    refine ⟨wellFormed_insertCall hwf hcall, fun hlen => ?_⟩
    change db₁.account.rows.length < 2 ^ 31 at hlen
    have hcorrect := correct_insertCall hwf hcall hlen
    have hle : db.account.rows.length ≤ db₁.account.rows.length := by
      by_cases hr : r = 0
      · rw [hcorrect.refused hr]
      · rw [(hcorrect.added hr).1, List.length_append]
        omega
    obtain ⟨hall, hnames⟩ := hprev (by omega)
    constructor
    · intro x hx
      rcases List.mem_append.mp hx with hx | hx
      · exact hall x hx
      · rw [List.mem_singleton.mp hx]
        exact ⟨r, db₁, hcall, hcorrect⟩
    · have hreturned : ReturnedKey (db, c) = decide (r ≠ 0) := by simp [ReturnedKey, hcall]
      rw [storedNames, List.filter_append, List.map_append, ← storedNames, ← hnames, List.filter_singleton, hreturned]
      by_cases hr : r = 0
      · rw [hcorrect.refused hr]
        simp [hr]
      · rw [Table.column, (hcorrect.added hr).1]
        simp [hr, Table.column, AccountCall.row]

/-- Calls whose loops end all return. -/
theorem exec_callStep {calls : List AccountCall} (hends : ∀ c ∈ calls, c.Ends) (db : Database) :
    ∃ db', exec callStep db calls = some db' := by
  induction calls generalizing db with
  | nil => exact ⟨db, rfl⟩
  | cons c calls ih =>
    obtain ⟨⟨r, db₁⟩, hcall⟩ :=
      Option.isSome_iff_exists.mp ((insertCall_isSome_iff db c).mpr (hends c List.mem_cons_self))
    obtain ⟨db', hexec⟩ := ih (fun c hc => hends c (List.mem_cons_of_mem _ hc)) db₁
    exact ⟨db', by simp [exec, callStep, hcall, hexec]⟩

/-- **The account table stays well-formed.** Any sequence of calls whose loops end, on the empty tables, runs to its end.
As long as the keys fit into an `int`, every call is correct, what is stored is valid, no two names are alike, and the
list of accounts has one entry for each call that returned a key. -/
theorem accounts_wellFormed {calls : List AccountCall} (hends : ∀ c ∈ calls, c.Ends) :
    ∃ tr db, Run callStep .init tr db ∧ tr.map Prod.snd = calls ∧
      (db.account.rows.length < 2 ^ 31 →
        (∀ x ∈ tr, ∃ r db', x.1.insertCall x.2 = some (r, db') ∧ Correct x.1 x.2 r db') ∧
        (∀ row ∈ db.account.rows, ValidName row.2.accountname ∧ ValidHex row.2.key ∧ ValidHex row.2.salt) ∧
        (db.account.UniqueOn fun row => nocase row.accountname) ∧ db.getAccounts.Perm (storedNames tr)) := by
  obtain ⟨db, hexec⟩ := exec_callStep hends .init
  obtain ⟨tr, hrun, hcalls⟩ := Run.of_exec hexec
  obtain ⟨hwf, hcorrect⟩ := run_correct hrun
  refine ⟨tr, db, hrun, hcalls, fun hlen => ?_⟩
  obtain ⟨hall, hnames⟩ := hcorrect hlen
  refine ⟨hall, hwf.checked, db.unique, ?_⟩
  rw [← hnames]
  exact List.mergeSort_perm _ _

/-- An account is inserted, and then the same name in capitals. -/
def twoCalls : List AccountCall :=
  [⟨text "joe", [], text "deadBEEF019", text "deAD1337"⟩, ⟨text "JOE", [], text "deadBEEF019", text "deAD1337"⟩]

theorem accounts_wellFormed_twoCalls : ∃ tr db, Run callStep .init tr db ∧ tr.map Prod.snd = twoCalls ∧
    (db.account.rows.length < 2 ^ 31 → db.account.UniqueOn fun row => nocase row.accountname) := by
  have hends : ∀ c ∈ twoCalls, c.Ends := by
    intro c hc _
    have hkey : c.key = text "deadBEEF019" ∧ c.salt = text "deAD1337" := by
      rcases List.mem_pair.mp hc with rfl | rfl <;> exact ⟨rfl, rfl⟩
    rw [hkey.1, hkey.2]
    exact ⟨.inl (by decide), fun _ => .inl (by decide)⟩
  obtain ⟨tr, db, hrun, hcalls, h⟩ := accounts_wellFormed hends
  exact ⟨tr, db, hrun, hcalls, fun hlen => (h hlen).2.2.1⟩

/-- A key of `2^32` zeros is not checked to its end. -/
theorem not_insertCall_correct :
    ¬∀ c : AccountCall, ∃ r db', init.insertCall c = some (r, db') ∧ (r ≠ 0 ↔ c.Accepted .init) := by
  intro hall
  obtain ⟨n, hn⟩ : ∃ n, n = 2 ^ 32 := ⟨_, rfl⟩
  obtain ⟨r, db', hcall, _⟩ := hall ⟨text "joe", [], List.replicate n 48, []⟩
  have hends := (insertCall_isSome_iff .init _).mp (by rw [hcall]; rfl)
  have hname : ValidName (text "joe") := ⟨by decide, by decide, by simp [text, isalnum]⟩
  rcases (hends hname).1 with hlen | ⟨c, hc, hbad⟩
  · rw [List.length_replicate] at hlen
    omega
  · rw [List.eq_of_mem_replicate (List.mem_of_mem_take hc)] at hbad
    exact absurd hbad (by decide)

end Celegraph.Database
