import Celegraph.Database

/-!
# The user that is stored and the user that is listed

`InsertUser` adds one entry to the list of the account, and changes no other account's list (`insertUser_lists`). The
entry is made of the names that the object holds, and the constructor of `User` drops the names that it is given: so the
user that is listed is the one that was meant exactly if both names are empty (`listed_iff`).
-/

namespace Celegraph.Database

open CxxString Tables

/-- The list of the account `accountname` gains the entry `name`, and no other account's list changes. -/
structure Listed (db db' : Database) (accountname name : Bytes) : Prop where
  gains : (db'.getUserList accountname).Perm (db.getUserList accountname ++ [name])
  others : ∀ other, nocase other ≠ nocase accountname → db'.getUserList other = db.getUserList other

variable {db db' : Database} {accountId : Int32} {account : Account}

/-- An insertion that returns a key has added the row. -/
theorem insertUser_eq {u : User} (h : (db.insertUser u accountId).1 ≠ 0) : (db.insertUser u accountId).2 =
    { db with
      user := db.user.append ⟨some accountId.toInt, u.getFirstname, u.getLastname⟩
      lastInsertRowid := db.user.seq + 1 } := by
  unfold insertUser at h ⊢
  cases hinsert : db.insertIntoUser ⟨some accountId.toInt, u.getFirstname, u.getLastname⟩ with
  | none => simp [hinsert] at h
  | some inserted =>
    obtain ⟨user, huser, rfl⟩ := Option.map_eq_some_iff.mp hinsert
    obtain ⟨_, rfl⟩ := Table.insert_eq_some.mp huser
    simp

/-- The users of an account, after a user is added to the account `accountId`. -/
theorem usersOf_append (haccount : (accountId.toInt, account) ∈ db.account.rows) (firstname lastname other : Bytes)
    (rowid : Int) :
    usersOf { db with user := db.user.append ⟨some accountId.toInt, firstname, lastname⟩, lastInsertRowid := rowid }
        other =
      db.usersOf other ++
        if nocase account.accountname = nocase other then [⟨some accountId.toInt, firstname, lastname⟩] else [] := by
  have hlookup : db.account.lookup accountId.toInt = some account := Table.lookup_eq_some.mpr haccount
  simp only [usersOf, viewUser, Table.leftJoin_append, List.filter_append, List.map_append]
  split <;> simp_all

/-- The entry of a user in the list. -/
theorem getUserList_perm (db : Database) (accountname : Bytes) : (db.getUserList accountname).Perm
    ((db.usersOf accountname).map fun row => row.firstname ++ text " " ++ row.lastname) :=
  (List.mergeSort_perm _ _).map _

/-- **A user is listed** with the names that the object holds. -/
theorem insertUser_lists {u : User} (haccount : (accountId.toInt, account) ∈ db.account.rows)
    (hreturn : (db.insertUser u accountId).1 ≠ 0) :
    Listed db (db.insertUser u accountId).2 account.accountname (u.getFirstname ++ text " " ++ u.getLastname) := by
  rw [insertUser_eq hreturn]
  constructor
  · refine (getUserList_perm _ _).trans ?_
    rw [usersOf_append haccount, if_pos rfl, List.map_append]
    exact ((getUserList_perm db _).symm).append_right _
  · intro other hother
    rw [getUserList, usersOf_append haccount, if_neg fun h => hother h.symm, List.append_nil]
    rfl

/-- Only one entry can be the one that a list gains. -/
theorem Listed.unique {accountname name name' : Bytes} (h : Listed db db' accountname name)
    (h' : Listed db db' accountname name') : name = name' := by
  have hperm := (List.perm_append_left_iff _).mp (h.gains.symm.trans h'.gains)
  exact List.singleton_perm_singleton.mp hperm

/-- **The user that is listed is the one that was meant** exactly if both names are empty. -/
theorem listed_iff {memory : User} {client : Packets.SockAddr} {name : Bytes} {id session : Int32}
    {firstname lastname : Bytes} (haccount : (accountId.toInt, account) ∈ db.account.rows)
    (hreturn : (db.insertUser (User.construct memory client name id session firstname lastname) accountId).1 ≠ 0) :
    Listed db (db.insertUser (User.construct memory client name id session firstname lastname) accountId).2
        account.accountname (firstname ++ text " " ++ lastname) ↔
      firstname = [] ∧ lastname = [] := by
  have hlisted := insertUser_lists haccount hreturn
  constructor
  · intro h
    have hlen := congrArg List.length (h.unique hlisted)
    simp only [User.construct, User.getFirstname, User.getLastname, List.length_append, List.length_nil] at hlen
    exact ⟨List.length_eq_zero_iff.mp (by omega), List.length_eq_zero_iff.mp (by omega)⟩
  · rintro ⟨rfl, rfl⟩
    exact hlisted

/-! ## The user of the tests -/

/-- The account of the tests. -/
def joe : Account where
  valid := true
  accountname := text "joe"
  email := text "my_email@my.example.com"
  session := none
  active := true
  key := text "deadBEEF019"
  salt := text "deAD1337"

/-- The database with the account `joe`. -/
def withJoe : Database where
  account := Table.empty.append joe
  user := .empty
  lastInsertRowid := 1
  unique := List.nodup_singleton _

/-- What the memory of a `User` may hold. -/
def zeroMemory : User := ⟨0, 0, ⟨0, 0⟩, [], [], []⟩

theorem listed_nameless :
    Listed withJoe (withJoe.insertUser (User.construct zeroMemory ⟨0, 0⟩ (text "joe") 17 1 [] []) 1).2 (text "joe")
      (text " ") := by
  have hjoe : ((1 : Int32).toInt, joe) ∈ withJoe.account.rows := List.mem_singleton_self _
  have hreturn : (withJoe.insertUser (User.construct zeroMemory ⟨0, 0⟩ (text "joe") 17 1 [] []) 1).1 ≠ 0 := by decide
  exact (listed_iff hjoe hreturn).mpr ⟨rfl, rfl⟩

/-- Tony Starks is listed as a user without names. -/
theorem not_listed :
    ¬∀ (db : Database) (accountId : Int32) (account : Account) (memory : User) (client : Packets.SockAddr)
        (name : Bytes) (id session : Int32) (firstname lastname : Bytes),
      (accountId.toInt, account) ∈ db.account.rows →
      (db.insertUser (User.construct memory client name id session firstname lastname) accountId).1 ≠ 0 →
      Listed db (db.insertUser (User.construct memory client name id session firstname lastname) accountId).2
        account.accountname (firstname ++ text " " ++ lastname) := by
  intro hall
  have hjoe : ((1 : Int32).toInt, joe) ∈ withJoe.account.rows := List.mem_singleton_self _
  have hreturn : (withJoe.insertUser
      (User.construct zeroMemory ⟨0, 0⟩ (text "joe") 17 1 (text "Tony") (text "Starks")) 1).1 ≠ 0 := by decide
  have h := (listed_iff hjoe hreturn).mp (hall withJoe 1 joe zeroMemory _ _ _ _ _ _ hjoe hreturn)
  exact absurd h.1 (by decide)

end Celegraph.Database
