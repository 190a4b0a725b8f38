import Mathlib.Data.List.TakeWhile
import Mathlib.Data.Nat.Digits.Defs
import Mathlib.Tactic.NormNum

/-!
# C++ strings as lists of bytes

A `std::string` is a list of bytes, any bytes (`Bytes`). The library functions on it follow their documented
behaviour; one that can throw, or whose behaviour is undefined out of bounds, returns an `Option`.

- `substr`, `findFirstOf`: positions are counted from 0, `none` stands for `npos`.
- `cString s off`: the C string at `s.c_str() + off`, defined while `off` is at most the length.
- `splitOn`, the splitting at a delimiter: its pieces are free of the delimiter (`not_mem_of_mem_splitOn`), one more
  than it has occurrences (`length_splitOn`), and lie in the string one after the other (`tokens_length`).
- `toString`, `stoi`: decimal numerals of an `int`; `stoi` skips blanks, takes an optional sign and the longest run
  of digits, and throws without a digit or out of range. It undoes `toString` (`stoi_toString`), and reads a text that
  is a numeral as a whole (`numeral`) as its value (`stoi_of_numeral`).
-/

namespace CxxString

abbrev Bytes := List UInt8

/-- The bytes of an ASCII text. -/
def text (s : String) : Bytes := s.toList.map fun c => c.toNat.toUInt8

/-- `s.substr(pos, n)`, with `n = none` for `npos`; it throws if `pos` is past the end. -/
def substr (s : Bytes) (pos : Nat) (n : Option Nat) : Option Bytes :=
  if pos ≤ s.length then
    match n with
    | none => some (s.drop pos)
    | some n => some ((s.drop pos).take n)
  else none

/-- `s.find_first_of(c, pos)`. -/
def findFirstOf (s : Bytes) (c : UInt8) (pos : Nat) : Option Nat := ((s.drop pos).idxOf? c).map (pos + ·)

/-- `std::string(s.c_str() + off)`: up to the first NUL, at the latest the one that ends `s`. Past that one the read
is undefined. -/
def cString (s : Bytes) (off : Nat) : Option Bytes :=
  if off ≤ s.length then some ((s.drop off).takeWhile (· ≠ 0)) else none

theorem cString_of_le {s : Bytes} {off : Nat} (h : off ≤ s.length) :
    cString s off = some ((s.drop off).takeWhile (· ≠ 0)) := if_pos h

/-! ## Splitting at a delimiter -/

/-- No piece contains the delimiter. -/
theorem not_mem_of_mem_splitOn {s token : Bytes} {delim : UInt8} (h : token ∈ s.splitOn delim) : delim ∉ token := by
  induction s generalizing token with
  | nil =>
    rw [List.splitOn_nil, List.mem_singleton] at h
    subst h
    exact List.not_mem_nil
  | cons c s ih =>
    obtain ⟨t, ts, hts⟩ := List.exists_cons_of_ne_nil (List.splitOn_ne_nil delim s)
    rw [List.splitOn_cons_eq_if_modifyHead, hts] at h
    split at h
    · rcases List.mem_cons.mp h with rfl | h
      · exact List.not_mem_nil
      · exact ih (hts ▸ h)
    · rename_i hc
      rcases List.mem_cons.mp h with rfl | h
      · intro hmem
        rcases List.mem_cons.mp hmem with rfl | hmem
        · simp at hc
        · exact ih (hts ▸ List.mem_cons_self) hmem
      · exact ih (hts ▸ List.mem_cons_of_mem _ h)

/-- There is one piece more than there are delimiters. -/
theorem length_splitOn (s : Bytes) (delim : UInt8) : (s.splitOn delim).length = s.count delim + 1 := by
  induction s with
  | nil => rfl
  | cons c s ih =>
    rw [List.splitOn_cons_eq_if_modifyHead, List.count_cons]
    split
    · rw [List.length_cons, ih]
    · rw [List.length_modifyHead, ih]

/-- The first two pieces and the delimiters after them are in the string exactly if there is a third. -/
theorem tokens_length {s t₀ t₁ : Bytes} {ts : List Bytes} {delim : UInt8} (h : s.splitOn delim = t₀ :: t₁ :: ts) :
    t₀.length + 1 + t₁.length + 1 ≤ s.length ↔ ts ≠ [] := by
  have hjoin : [delim].intercalate (s.splitOn delim) = s := List.intercalate_splitOn delim
  rw [h] at hjoin
  have hlen := congrArg List.length hjoin
  cases ts with
  | nil => simp [List.intercalate] at hlen ⊢; omega
  | cons t₂ ts => simp [List.intercalate] at hlen ⊢; omega

/-- A second piece starts after the first and its delimiter. -/
theorem length_lt_of_tokens {s t₀ t₁ : Bytes} {ts : List Bytes} {delim : UInt8}
    (h : s.splitOn delim = t₀ :: t₁ :: ts) : t₀.length + 1 ≤ s.length := by
  have hjoin : [delim].intercalate (s.splitOn delim) = s := List.intercalate_splitOn delim
  rw [h] at hjoin
  have hlen := congrArg List.length hjoin
  cases ts <;> simp [List.intercalate] at hlen <;> omega

/-! ## Decimal numerals -/

def isSpace (c : UInt8) : Bool := c = 32 || (9 ≤ c && c ≤ 13)

def isDigit (c : UInt8) : Bool := 48 ≤ c && c ≤ 57

/-- The value of a run of digits. -/
def digitsValue (ds : Bytes) : Nat := ds.foldl (fun acc c => 10 * acc + (c.toNat - 48)) 0

/-- The decimal digits of a number. -/
def decimal (n : Nat) : Bytes := (Nat.toDigits 10 n).map fun c => c.toNat.toUInt8

/-- `std::to_string(n)` of an `int`. -/
def toString (n : Int32) : Bytes :=
  if n.toInt < 0 then 45 :: decimal n.toInt.natAbs else decimal n.toInt.natAbs

/-- The sign in front of a numeral: whether it is `-`, and what follows it. -/
def sign : Bytes → Bool × Bytes
  | 45 :: s => (true, s)
  | 43 :: s => (false, s)
  | s => (false, s)

/-- `std::stoi(s)`; `none` when it throws. -/
def stoi (s : Bytes) : Option Int32 :=
  let (neg, s) := sign (s.dropWhile isSpace)
  let ds := s.takeWhile isDigit
  if ds = [] then none
  else
    let z : Int := if neg then -(digitsValue ds : Int) else digitsValue ds
    if -2 ^ 31 ≤ z ∧ z < 2 ^ 31 then some (Int32.ofInt z) else none

/-- The value of a text that is as a whole a decimal numeral, with or without a sign. -/
def numeral (s : Bytes) : Option Int :=
  let (neg, ds) := sign s
  if ds ≠ [] ∧ ds.all isDigit then some (if neg then -(digitsValue ds : Int) else digitsValue ds) else none

/-- A numeral is short. -/
theorem length_toString_le (n : Int32) : (toString n).length ≤ 11 := by
  have hlo := n.le_toInt
  have hhi := n.toInt_lt
  have hdecimal : (decimal n.toInt.natAbs).length ≤ 10 := by
    rw [decimal, List.length_map, Nat.length_toDigits_le_iff (by decide) (by decide)]
    omega
  unfold toString
  split
  · rw [List.length_cons]
    omega
  · omega

theorem decimal_ne_nil (n : Nat) : decimal n ≠ [] := by
  simp [decimal, Nat.toDigits_ne_nil]

/-- The code of a digit character. -/
theorem toNat_of_isDigit {c : Char} (h : c.isDigit = true) : 48 ≤ c.toNat ∧ c.toNat ≤ 57 := by
  simp only [Char.isDigit, Bool.and_eq_true, decide_eq_true_eq] at h
  exact ⟨by simpa using UInt32.le_iff_toNat_le.mp h.1, by simpa using UInt32.le_iff_toNat_le.mp h.2⟩

theorem isDigit_of_mem_decimal {n : Nat} {b : UInt8} (h : b ∈ decimal n) : isDigit b = true := by
  obtain ⟨c, hc, rfl⟩ := List.mem_map.mp h
  obtain ⟨h1, h2⟩ := toNat_of_isDigit (Nat.isDigit_of_mem_toDigits (by decide) (by decide) hc)
  simp only [isDigit, Bool.and_eq_true, decide_eq_true_eq, UInt8.le_iff_toNat_le]
  simp
  omega

theorem digitsValue_decimal (n : Nat) : digitsValue (decimal n) = n := by
  have hfold : ∀ (l : List Char) (acc : Nat), (∀ c ∈ l, c.isDigit = true) →
      (l.map fun c => c.toNat.toUInt8).foldl (fun acc c => 10 * acc + (c.toNat - 48)) acc =
        Nat.ofDigitChars 10 l acc := by
    intro l
    induction l with
    | nil => intro acc _; rfl
    | cons c l ih =>
      intro acc h
      obtain ⟨h1, h2⟩ := toNat_of_isDigit (h c (by simp))
      have hc : c.toNat.toUInt8.toNat = c.toNat := by simp; omega
      simp only [List.map_cons, List.foldl_cons, hc]
      rw [ih _ fun d hd => h d (by simp [hd]), Nat.ofDigitChars_cons]
      rfl
  have := hfold (Nat.toDigits 10 n) 0 fun c hc => Nat.isDigit_of_mem_toDigits (by decide) (by decide) hc
  exact this.trans Nat.ofDigitChars_ten_toDigits

theorem takeWhile_decimal (n : Nat) : (decimal n).takeWhile isDigit = decimal n :=
  List.takeWhile_eq_self_iff.mpr fun _ h => isDigit_of_mem_decimal h

theorem isSpace_of_isDigit {b : UInt8} (h : isDigit b = true) : isSpace b = false := by
  simp only [isDigit, Bool.and_eq_true, decide_eq_true_eq, UInt8.le_iff_toNat_le] at h
  have hne : b ≠ 32 := by rintro rfl; simp at h
  have hgt : ¬b ≤ 13 := fun hle => by
    have := UInt8.le_iff_toNat_le.mp hle
    simp at h this
    omega
  simp [isSpace, hne, hgt]

/-- A digit is neither a blank nor a sign. -/
theorem sign_decimal (n : Nat) : sign ((decimal n).dropWhile isSpace) = (false, decimal n) := by
  obtain ⟨b, bs, h⟩ := List.exists_cons_of_ne_nil (decimal_ne_nil n)
  have hb : isDigit b = true := isDigit_of_mem_decimal (n := n) (by rw [h]; simp)
  have hsp : isSpace b = false := isSpace_of_isDigit hb
  have hs : b ≠ 45 ∧ b ≠ 43 := by
    constructor <;> rintro rfl <;> simp [isDigit] at hb
  rw [h, List.dropWhile_cons_of_neg (by simp [hsp])]
  unfold sign
  split <;> simp_all

/-- **`stoi` undoes `toString`.** -/
theorem stoi_toString (n : Int32) : stoi (toString n) = some n := by
  have hlo : -2 ^ 31 ≤ n.toInt := by simpa using n.le_toInt
  have hhi : n.toInt < 2 ^ 31 := by simpa using n.toInt_lt
  unfold toString
  split
  · rename_i hneg
    have hz : -((n.toInt.natAbs : Nat) : Int) = n.toInt := by omega
    have hdrop : (45 :: decimal n.toInt.natAbs).dropWhile isSpace = 45 :: decimal n.toInt.natAbs :=
      List.dropWhile_cons_of_neg (by decide)
    simp only [stoi, hdrop, sign, takeWhile_decimal, decimal_ne_nil, if_false, if_true, digitsValue_decimal, hz]
    rw [if_pos ⟨hlo, hhi⟩, Int32.ofInt_toInt]
  · rename_i hneg
    have hz : ((n.toInt.natAbs : Nat) : Int) = n.toInt := by omega
    simp only [stoi, sign_decimal, takeWhile_decimal, decimal_ne_nil, if_false, digitsValue_decimal, hz,
      Bool.false_eq_true]
    rw [if_pos ⟨hlo, hhi⟩, Int32.ofInt_toInt]

theorem numeral_eq_some {s : Bytes} {z : Int} : numeral s = some z ↔ (sign s).2 ≠ [] ∧
    (∀ c ∈ (sign s).2, isDigit c = true) ∧
      (if (sign s).1 then -(digitsValue (sign s).2 : Int) else digitsValue (sign s).2) = z := by
  simp [numeral, and_assoc]

/-- A numeral does not start with a blank. -/
theorem dropWhile_of_numeral {s : Bytes} {z : Int} (h : numeral s = some z) : s.dropWhile isSpace = s := by
  cases s with
  | nil => rfl
  | cons c s =>
    refine List.dropWhile_cons_of_neg ?_
    by_cases hsign : c = 45 ∨ c = 43
    · rcases hsign with rfl | rfl <;> decide
    · have hnone : sign (c :: s) = (false, c :: s) := by
        unfold sign
        split <;> simp_all
      obtain ⟨_, hall, _⟩ := numeral_eq_some.mp h
      rw [hnone] at hall
      have hc : isDigit c = true := hall c List.mem_cons_self
      simp [isSpace_of_isDigit hc]

/-- **A numeral is read by `stoi` as a whole**, if an `int` holds its value. -/
theorem stoi_of_numeral {s : Bytes} {z : Int} (h : numeral s = some z) :
    stoi s = if -2 ^ 31 ≤ z ∧ z < 2 ^ 31 then some (Int32.ofInt z) else none := by
  obtain ⟨hne, hall, hz⟩ := numeral_eq_some.mp h
  have htake : (sign s).2.takeWhile isDigit = (sign s).2 := List.takeWhile_eq_self_iff.mpr hall
  simp only [stoi, dropWhile_of_numeral h, htake, if_neg hne, hz]

end CxxString
