import Mathlib.Data.List.Nodup
import Mathlib.Data.List.Perm.Basic

/-!
# Tables with an automatic key

The tables of an SQL database, as far as they have an `integer primary key autoincrement`: a list of rows with their
keys, no two alike, and the largest key that was ever given out.

- `insert` gives the new row the key after it, and is refused when there is none (`insert_eq_some`).
- `insertUnique` is also refused if a column that is to be unique has the value already; it keeps the column without
  repetitions (`uniqueOn_insertUnique`).
- `leftJoin` takes to each row the row of another table that it refers to, if there is one. A row that is inserted adds
  one row to the join (`leftJoin_append`).
-/

namespace Tables

/-- The largest key, `2^63 - 1`. -/
def maxKey : Int := 9223372036854775807

/-- Rows with distinct keys, none above `seq`. -/
structure Table (ρ : Type*) where
  rows : List (Int × ρ)
  seq : Int
  keys : (rows.map Prod.fst).Nodup
  le_seq : ∀ row ∈ rows, row.1 ≤ seq

namespace Table

variable {ρ ρ' κ : Type*}

def empty : Table ρ where
  rows := []
  seq := 0
  keys := List.nodup_nil
  le_seq _ h := by cases h

/-- The table with one more row, under the next key. -/
def append (t : Table ρ) (r : ρ) : Table ρ where
  rows := t.rows ++ [(t.seq + 1, r)]
  seq := t.seq + 1
  keys := by
    rw [List.map_append, List.map_singleton]
    refine List.nodup_append.mpr ⟨t.keys, List.nodup_singleton _, fun k hk k' hk' => ?_⟩
    obtain ⟨row, hrow, rfl⟩ := List.mem_map.mp hk
    rw [List.mem_singleton.mp hk']
    have := t.le_seq row hrow
    omega
  le_seq row h := by
    rcases List.mem_append.mp h with h | h
    · have := t.le_seq row h
      omega
    · exact Int.le_of_eq (congrArg Prod.fst (List.mem_singleton.mp h))

/-- Inserting a row; `none` when there is no next key. -/
def insert (t : Table ρ) (r : ρ) : Option (Table ρ) := if t.seq < maxKey then some (t.append r) else none

/-- The values of a column. -/
def column (t : Table ρ) (f : ρ → κ) : List κ := t.rows.map fun row => f row.2

/-- Inserting a row into a table in which the column `f` is unique. -/
def insertUnique [DecidableEq κ] (t : Table ρ) (f : ρ → κ) (r : ρ) : Option (Table ρ) :=
  if f r ∈ t.column f then none else t.insert r

/-- The column `f` has no value twice. -/
def UniqueOn (t : Table ρ) (f : ρ → κ) : Prop := (t.column f).Nodup

/-- The row with a key. -/
def lookup (t : Table ρ) (key : Int) : Option ρ := (t.rows.find? (·.1 = key)).map Prod.snd

/-- Each row with the row of `t'` whose key is `ref` of it, if there is one. -/
def leftJoin (t : Table ρ) (t' : Table ρ') (ref : ρ → Option Int) : List (ρ × Option ρ') :=
  t.rows.map fun row => (row.2, (ref row.2).bind t'.lookup)

variable {t t' : Table ρ} {r : ρ}

@[simp] theorem append_rows : (t.append r).rows = t.rows ++ [(t.seq + 1, r)] := rfl

@[simp] theorem append_seq : (t.append r).seq = t.seq + 1 := rfl

@[simp] theorem column_append (f : ρ → κ) : (t.append r).column f = t.column f ++ [f r] := by
  simp [column]

theorem insert_eq_some : t.insert r = some t' ↔ t.seq < maxKey ∧ t' = t.append r := by
  rw [insert, Option.ite_none_right_eq_some, Option.some.injEq, eq_comm]

theorem insertUnique_eq_some [DecidableEq κ] {f : ρ → κ} :
    t.insertUnique f r = some t' ↔ f r ∉ t.column f ∧ t.seq < maxKey ∧ t' = t.append r := by
  rw [insertUnique, Option.ite_none_left_eq_some, insert_eq_some]

/-- A column that is checked stays unique. -/
theorem uniqueOn_insertUnique [DecidableEq κ] {f : ρ → κ} (h : t.UniqueOn f) (ht : t.insertUnique f r = some t') :
    t'.UniqueOn f := by
  obtain ⟨hr, _, rfl⟩ := insertUnique_eq_some.mp ht
  rw [UniqueOn, column_append]
  refine List.nodup_append.mpr ⟨h, List.nodup_singleton _, fun a ha b hb => ?_⟩
  rw [List.mem_singleton.mp hb]
  rintro rfl
  exact hr ha

theorem leftJoin_append (u : Table ρ') (ref : ρ → Option Int) :
    (t.append r).leftJoin u ref = t.leftJoin u ref ++ [(r, (ref r).bind u.lookup)] := by
  simp [leftJoin]

/-- The row found by its key. -/
theorem lookup_eq_some {key : Int} : t.lookup key = some r ↔ (key, r) ∈ t.rows := by
  unfold lookup
  rw [Option.map_eq_some_iff]
  constructor
  · rintro ⟨row, hfind, rfl⟩
    have hkey : row.1 = key := by simpa using List.find?_some hfind
    rw [← hkey]
    exact List.mem_of_find?_eq_some hfind
  · intro hmem
    cases hfind : t.rows.find? (·.1 = key) with
    | none => simpa using List.find?_eq_none.mp hfind _ hmem
    | some row =>
      have hkey : row.1 = key := by simpa using List.find?_some hfind
      have hrow := List.inj_on_of_nodup_map t.keys (List.mem_of_find?_eq_some hfind) hmem hkey
      exact ⟨row, rfl, congrArg Prod.snd hrow⟩

end Table

end Tables
