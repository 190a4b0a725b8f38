import Celegraph.Lib.CxxString

/-!
# Checking names and keys

The checks of `Utils.cpp` on account names, keys and salts.

`SanitizeAlphanumeric` and `SanitizeHexString` are loops over the bytes with a 32-bit counter (`sanitizeLoop`). They
return whether all bytes are as they should be, unless the first `2^32` bytes are and there are more: then the counter
starts over, and the loop never ends (`sanitize_eq_some`, `sanitizeLoop_eq_none`).
-/

namespace Celegraph.Utils

open CxxString

def MIN_ACCOUNT_NAME_LENGTH : Nat := 3

def MAX_ACCOUNT_NAME_LENGTH : Nat := 30

/-- `isalnum` in the C locale; a byte from 128 on, a negative `char`, is not alphanumeric. -/
def isalnum (c : UInt8) : Bool := (48 ≤ c && c ≤ 57) || (65 ≤ c && c ≤ 90) || (97 ≤ c && c ≤ 122)

/-- The cases of the `switch` of `SanitizeHexString`. -/
def isHexDigit (c : UInt8) : Bool := c ∈ text "0123456789abcdefABCDEF"

/-- The loop of `SanitizeAlphanumeric` and `SanitizeHexString`, at `i`. Each round takes one unit of fuel. -/
def sanitizeLoop (good : UInt8 → Bool) (s : Bytes) : Nat → UInt32 → Option Bool
  | 0, _ => none
  | fuel + 1, i =>
    if h : i.toNat < s.length then
      if good s[i.toNat] then sanitizeLoop good s fuel (i + 1) else some false
    else some true

/-- What the loop returns; `none` if it does not end. After `2^32` rounds the counter is where it was. -/
def sanitize (good : UInt8 → Bool) (s : Bytes) : Option Bool := sanitizeLoop good s (2 ^ 32 + 1) 0

def sanitizeAlphanumeric (strToCheck : Bytes) : Option Bool := sanitize (fun c => isalnum c || c = 95) strToCheck

def sanitizeHexString (strToCheck : Bytes) : Option Bool := sanitize isHexDigit strToCheck

def checkAccountNameLength (accountName : Bytes) : Bool :=
  if MAX_ACCOUNT_NAME_LENGTH < accountName.length then false
  else if accountName.length < MIN_ACCOUNT_NAME_LENGTH then false
  else true

def sanitizeAccountName (accountName : Bytes) : Option Bool :=
  if checkAccountNameLength accountName then sanitizeAlphanumeric accountName else some false

/-! ## The loop -/

/-- The loop ends: the counter reaches the end of the string, or a byte that is not good. -/
def Ends (good : UInt8 → Bool) (s : Bytes) : Prop := s.length < 2 ^ 32 ∨ ∃ c ∈ s.take (2 ^ 32), good c = false

variable {good : UInt8 → Bool} {s : Bytes}

theorem toNat_succ {i : UInt32} (h : i.toNat + 1 < 2 ^ 32) : (i + 1).toNat = i.toNat + 1 := by
  rw [UInt32.toNat_add, show (1 : UInt32).toNat = 1 from rfl, Nat.mod_eq_of_lt h]

/-- The loop stops at the first byte that is not good. -/
theorem sanitizeLoop_of_bad {j : Nat} (hj : j < s.length) (hlt : j < 2 ^ 32) (hbad : good s[j] = false)
    (hgood : ∀ k (hk : k < j), good s[k] = true) (fuel : Nat) (i : UInt32) (hi : i.toNat ≤ j)
    (hfuel : j < fuel + i.toNat) : sanitizeLoop good s fuel i = some false := by
  induction fuel generalizing i with
  | zero => omega
  | succ fuel ih =>
    have hin : i.toNat < s.length := by omega
    rw [sanitizeLoop, dif_pos hin]
    by_cases heq : i.toNat = j
    · subst heq
      rw [hbad]
      rfl
    · have hnext := toNat_succ (i := i) (by omega)
      rw [if_pos (hgood i.toNat (by omega))]
      exact ih (i + 1) (by omega) (by omega)

/-- Without such a byte the loop stops at the end, if the counter can reach it. -/
theorem sanitizeLoop_of_good (hlen : s.length < 2 ^ 32) (hgood : ∀ c ∈ s, good c = true) (fuel : Nat) (i : UInt32)
    (hi : i.toNat ≤ s.length) (hfuel : s.length < fuel + i.toNat) : sanitizeLoop good s fuel i = some true := by
  induction fuel generalizing i with
  | zero => omega
  | succ fuel ih =>
    rw [sanitizeLoop]
    split
    · rename_i hin
      have hnext := toNat_succ (i := i) (by omega)
      rw [if_pos (hgood _ (List.getElem_mem hin))]
      exact ih (i + 1) (by omega) (by omega)
    · rfl

/-- **The loop does not end** if the first `2^32` bytes are good and there are that many. -/
theorem sanitizeLoop_eq_none (h : ¬Ends good s) (fuel : Nat) (i : UInt32) : sanitizeLoop good s fuel i = none := by
  obtain ⟨hlen, hgood⟩ := not_or.mp h
  push Not at hgood
  induction fuel generalizing i with
  | zero => rfl
  | succ fuel ih =>
    have hi : i.toNat < 2 ^ 32 := i.toNat_lt
    have hin : i.toNat < s.length := by omega
    have hmem : s[i.toNat] ∈ s.take (2 ^ 32) := List.mem_take_iff_getElem.mpr ⟨i.toNat, by omega, rfl⟩
    rw [sanitizeLoop, dif_pos hin, if_pos (by simpa using hgood _ hmem)]
    exact ih (i + 1)

/-- **What the loop returns**, if it ends: whether all bytes are good. -/
theorem sanitize_eq_some (h : Ends good s) : sanitize good s = some (s.all good) := by
  by_cases hall : ∀ c ∈ s, good c = true
  · have hlen : s.length < 2 ^ 32 := by
      refine h.resolve_right ?_
      rintro ⟨c, hc, hbad⟩
      rw [hall c (List.mem_of_mem_take hc)] at hbad
      cases hbad
    rw [List.all_eq_true.mpr hall]
    exact sanitizeLoop_of_good hlen hall _ 0 (Nat.zero_le _) (by simp; omega)
  · push Not at hall
    obtain ⟨c, hc, hbad⟩ := hall
    have hfalse : s.all good = false := List.all_eq_false.mpr ⟨c, hc, hbad⟩
    -- the first byte that is not good
    have hj : s.findIdx (fun c => !good c) < s.length :=
      List.findIdx_lt_length_of_exists ⟨c, hc, by simpa using hbad⟩
    have hgood (k : Nat) (hk : k < s.findIdx fun c => !good c) : good s[k] = true := by
      simpa using List.not_of_lt_findIdx hk
    have hlt : s.findIdx (fun c => !good c) < 2 ^ 32 := by
      by_contra hge
      rcases h with hlen | ⟨c, hc, hbad⟩
      · omega
      · obtain ⟨k, hk, rfl⟩ := List.mem_take_iff_getElem.mp hc
        rw [hgood k (by omega)] at hbad
        cases hbad
    have hbad' : good s[s.findIdx fun c => !good c] = false := by
      simpa using List.findIdx_getElem (p := fun c => !good c) (w := hj)
    rw [hfalse]
    exact sanitizeLoop_of_bad hj hlt hbad' hgood _ 0 (Nat.zero_le _) (by simp; omega)

theorem sanitize_eq_none (h : ¬Ends good s) : sanitize good s = none := sanitizeLoop_eq_none h _ 0

/-! ## The checks -/

/-- A name of 3 to 30 letters, digits and underscores. -/
def ValidName (accountName : Bytes) : Prop :=
  3 ≤ accountName.length ∧ accountName.length ≤ 30 ∧ ∀ c ∈ accountName, isalnum c = true ∨ c = 95

/-- Hex digits only. -/
def ValidHex (s : Bytes) : Prop := ∀ c ∈ s, isHexDigit c = true

theorem checkAccountNameLength_iff {accountName : Bytes} :
    checkAccountNameLength accountName = true ↔ 3 ≤ accountName.length ∧ accountName.length ≤ 30 := by
  unfold checkAccountNameLength MAX_ACCOUNT_NAME_LENGTH MIN_ACCOUNT_NAME_LENGTH
  split_ifs <;> simp <;> omega

/-- The check of a name ends, since a name of more than 30 bytes is refused before the loop. -/
theorem sanitizeAccountName_cases (accountName : Bytes) :
    (ValidName accountName ∧ sanitizeAccountName accountName = some true) ∨
      (¬ValidName accountName ∧ sanitizeAccountName accountName = some false) := by
  unfold sanitizeAccountName
  by_cases hlen : checkAccountNameLength accountName = true
  · rw [if_pos hlen]
    have hbounds := checkAccountNameLength_iff.mp hlen
    have hloop : sanitizeAlphanumeric accountName = some (accountName.all fun c => isalnum c || c = 95) :=
      sanitize_eq_some (.inl (by omega))
    rw [hloop]
    by_cases hvalid : ∀ c ∈ accountName, isalnum c = true ∨ c = 95
    · exact .inl ⟨⟨hbounds.1, hbounds.2, hvalid⟩, by simpa using hvalid⟩
    · exact .inr ⟨fun h => hvalid h.2.2, by simpa using hvalid⟩
  · rw [if_neg hlen]
    exact .inr ⟨fun h => hlen (checkAccountNameLength_iff.mpr ⟨h.1, h.2.1⟩), rfl⟩

theorem sanitizeHexString_cases (s : Bytes) :
    (¬Ends isHexDigit s ∧ sanitizeHexString s = none) ∨
    (Ends isHexDigit s ∧ ValidHex s ∧ sanitizeHexString s = some true) ∨
      (Ends isHexDigit s ∧ ¬ValidHex s ∧ sanitizeHexString s = some false) := by
  by_cases hends : Ends isHexDigit s
  · have hloop : sanitizeHexString s = some (s.all isHexDigit) := sanitize_eq_some hends
    by_cases hvalid : ValidHex s
    · exact .inr (.inl ⟨hends, hvalid, by rw [hloop, List.all_eq_true.mpr hvalid]⟩)
    · exact .inr (.inr ⟨hends, hvalid, by rw [hloop, Bool.eq_false_iff.mpr (List.all_eq_true.not.mpr hvalid)]⟩)
  · exact .inl ⟨hends, sanitize_eq_none hends⟩

example : sanitizeAccountName (text "my_ACCOUNT_1234") = some true := by decide

example : sanitizeAccountName (text "; drop all tables") = some false := by decide

end Celegraph.Utils
