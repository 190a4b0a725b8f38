import Celegraph.Lib.Checked
import Celegraph.Utils

/-!
# Splitting a string

`Tokenfy` is the exact splitting of a string at a delimiter (`tokenfy_exact`). Its loop is given once more with its
calls of `substr` (`tokenfyCalls`): it gives what `tokenfy` gives, and no call starts past the end.
-/

namespace Celegraph.Utils

open CxxString Checked

/-! ## The calls of `substr` -/

/-- The loop of `Tokenfy` with its calls of `substr`. -/
def tokenfyLoopCalls (s : Bytes) (delim : UInt8) : Nat → Nat → Option Nat → Checked (List Bytes)
  | 0, _, _ => ⟨[], none⟩
  | fuel + 1, start, stop => do
    let token ← substring s start (stop.map (· - start))
    match stop with
    | none => return [token]
    | some stop => return token :: (← tokenfyLoopCalls s delim fuel (stop + 1) (findFirstOf s delim (stop + 1)))

def tokenfyCalls (s : Bytes) (delim : UInt8) : Checked (List Bytes) :=
  tokenfyLoopCalls s delim (s.length + 1) 0 (findFirstOf s delim 0)

theorem result_tokenfyLoopCalls (s : Bytes) (delim : UInt8) (fuel start : Nat) (stop : Option Nat) :
    (tokenfyLoopCalls s delim fuel start stop).result = tokenfyLoop s delim fuel start stop := by
  induction fuel generalizing start stop with
  | zero => rfl
  | succ fuel ih =>
    cases stop with
    | none => simp [tokenfyLoopCalls, tokenfyLoop]
    | some stop => simp [tokenfyLoopCalls, tokenfyLoop, ih]

/-- A delimiter that is found is inside the string. -/
theorem lt_of_findFirstOf {s : Bytes} {c : UInt8} {pos i : Nat} (h : findFirstOf s c pos = some i) :
    pos ≤ i ∧ i < s.length := by
  obtain ⟨k, hk, rfl⟩ := Option.map_eq_some_iff.mp h
  obtain ⟨hlt, _⟩ := List.idxOf?_eq_some_iff.mp hk
  rw [List.length_drop] at hlt
  omega

/-- The loop starts each round inside the string, or at its end. -/
theorem safe_tokenfyLoopCalls (s : Bytes) (delim : UInt8) (fuel start : Nat) (hs : start ≤ s.length) :
    (tokenfyLoopCalls s delim fuel start (findFirstOf s delim start)).Safe := by
  induction fuel generalizing start with
  | zero => exact fun access h => by cases h
  | succ fuel ih =>
    cases hfind : findFirstOf s delim start with
    | none => simp [tokenfyLoopCalls, safe_bind, hs]
    | some stop =>
      obtain ⟨_, hstop⟩ := lt_of_findFirstOf hfind
      have hrest := ih (stop + 1) (by omega)
      simp [tokenfyLoopCalls, safe_bind, hs, hrest]

theorem result_tokenfyCalls (s : Bytes) (delim : UInt8) : (tokenfyCalls s delim).result = tokenfy s delim :=
  result_tokenfyLoopCalls s delim _ 0 _

theorem safe_tokenfyCalls (s : Bytes) (delim : UInt8) : (tokenfyCalls s delim).Safe :=
  safe_tokenfyLoopCalls s delim _ 0 (Nat.zero_le _)

/-! ## The splitting -/

/-- **`Tokenfy` splits exactly.** Its loop ends, with no call of `substr` past the end; the tokens are free of the
delimiter, one more than it has occurrences, and join to the string. Tokens that are free of the delimiter are found
again in their join. -/
theorem tokenfy_exact (s : Bytes) (delim : UInt8) :
    (∃ tokens, (∀ fuel, s.length < fuel → (tokenfyLoopCalls s delim fuel 0 (findFirstOf s delim 0)).result =
          some tokens ∧ (tokenfyLoopCalls s delim fuel 0 (findFirstOf s delim 0)).Safe) ∧
        tokenfy s delim = some tokens ∧ tokens ≠ [] ∧ (∀ token ∈ tokens, delim ∉ token) ∧
        tokens.length = s.count delim + 1 ∧ [delim].intercalate tokens = s) ∧
      ∀ tokens : List Bytes, tokens ≠ [] → (∀ token ∈ tokens, delim ∉ token) →
        tokenfy ([delim].intercalate tokens) delim = some tokens := by
  constructor
  · refine ⟨s.splitOn delim, fun fuel hfuel => ⟨?_, ?_⟩, tokenfy_eq s delim, List.splitOn_ne_nil delim s,
      fun token => not_mem_of_mem_splitOn, length_splitOn s delim, List.intercalate_splitOn delim⟩
    · rw [result_tokenfyLoopCalls]
      exact tokenfyLoop_eq s delim fuel 0 (Nat.zero_le _) (by omega)
    · exact safe_tokenfyLoopCalls s delim fuel 0 (Nat.zero_le _)
  · intro tokens hne hfree
    rw [tokenfy_eq, List.splitOn_intercalate delim hfree hne]

example : tokenfy (text ".....") 46 = some (List.replicate 6 []) := by decide

end Celegraph.Utils
