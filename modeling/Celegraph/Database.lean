import Celegraph.Lib.Table
import Celegraph.Packets
import Celegraph.Sanitize

/-!
# The database

The tables and the view of `init_db.sql`, and the functions of `SQLConnector.cpp` that insert and list accounts and users.

SQLite is taken as documented: an `insert` adds one row with the values bound to it, under the next key; a `unique
collate nocase` column is compared without regard to the case of ASCII letters, and a duplicate raises an exception and
changes nothing. A failure of the storage, or a text beyond its limits, is left out.
-/

namespace Celegraph

open CxxString Utils Tables

/-! ## Text in SQL -/

/-- An upper case ASCII letter in lower case. -/
def toLower (c : UInt8) : UInt8 := if 65 ≤ c && c ≤ 90 then c + 32 else c

/-- What `collate nocase` compares. -/
def nocase (s : Bytes) : Bytes := s.map toLower

/-- The byte order, in which texts are sorted. -/
def textLE (s s' : Bytes) : Bool := s ≤ s'

/-! ## Tables -/

structure Account where
  valid : Bool
  accountname : Bytes
  email : Bytes
  session : Option Bytes
  active : Bool
  key : Bytes
  salt : Bytes

/-- A row of the table `user`. -/
structure UserRow where
  accountId : Option Int
  firstname : Bytes
  lastname : Bytes

/-- The database, and what the connection to it remembers. -/
structure Database where
  account : Table Account
  user : Table UserRow
  lastInsertRowid : Int
  unique : account.UniqueOn fun row => nocase row.accountname

namespace Database

/-- The database after `init_db.sql`. -/
def init : Database where
  account := .empty
  user := .empty
  lastInsertRowid := 0
  unique := List.nodup_nil

/-- An `insert into account`, with the number of rows it modifies; `none` if it raises an exception. -/
def insertIntoAccount (db : Database) (row : Account) : Option (Nat × Database) :=
  match h : db.account.insertUnique (fun row => nocase row.accountname) row with
  | none => none
  | some account =>
    some (1, { db with account, lastInsertRowid := account.seq, unique := Table.uniqueOn_insertUnique db.unique h })

/-- An `insert into user`. -/
def insertIntoUser (db : Database) (row : UserRow) : Option (Nat × Database) :=
  (db.user.insert row).map fun user => (1, { db with user, lastInsertRowid := user.seq })

/-- The view `view_user`: the users, each with its account, if it has one. -/
def viewUser (db : Database) : List (UserRow × Option Account) := db.user.leftJoin db.account UserRow.accountId

/-! ## Accounts -/

/-- `InsertAccount`; `none` if it does not return. -/
def insertAccount (db : Database) (accountName email key salt : Bytes) : Option (Int32 × Database) := do
  if !(← sanitizeAccountName accountName) then return (0, db)
  if !(← sanitizeHexString key) then return (0, db)
  if !(← sanitizeHexString salt) then return (0, db)
  match db.insertIntoAccount
    { valid := true, accountname := accountName, email, session := none, active := true, key, salt } with
  | none => return (0, db)
  | some (rowsModified, db) =>
    if rowsModified < 1 then return (0, db)
    -- a 64-bit key, returned as an `int`
    else return (Int32.ofInt db.lastInsertRowid, db)

def getAccounts (db : Database) : List Bytes :=
  (db.account.column Account.accountname).mergeSort fun name name' => textLE (nocase name) (nocase name')

end Database

/-! ## Users -/

/-- An object of the class `User`. -/
structure User where
  id : Int32
  session : Int32
  client : Packets.SockAddr
  account : Bytes
  firstname : Bytes
  lastname : Bytes

namespace User

/-- The constructor. Its body sets nothing: the strings are empty, and the other members are what `memory` was. -/
def construct (memory : User) (_client : Packets.SockAddr) (_account : Bytes) (_id _session : Int32)
    (_firstname _lastname : Bytes) : User :=
  { memory with account := [], firstname := [], lastname := [] }

def getFirstname (u : User) : Bytes := u.firstname

def getLastname (u : User) : Bytes := u.lastname

end User

namespace Database

/-- `InsertUser`. -/
def insertUser (db : Database) (u : User) (accountId : Int32) : Int32 × Database :=
  match db.insertIntoUser
    { accountId := some accountId.toInt, firstname := u.getFirstname, lastname := u.getLastname } with
  | none => (0, db)
  | some (rowsModified, db) =>
    if rowsModified < 1 then (0, db)
    else (Int32.ofInt db.lastInsertRowid, db)

/-- The rows of `view_user` whose account has a name. -/
def usersOf (db : Database) (accountname : Bytes) : List UserRow :=
  (db.viewUser.filter fun row => row.2.any fun account => nocase account.accountname = nocase accountname).map Prod.fst

def getUserList (db : Database) (accountname : Bytes) : List Bytes :=
  ((db.usersOf accountname).mergeSort fun row row' => textLE row.lastname row'.lastname).map fun row =>
    row.firstname ++ text " " ++ row.lastname

end Database

end Celegraph
