import Celegraph.Lib.CxxString

/-!
# Accesses to strings and vectors

A computation that records its accesses to strings and vectors and goes no further than the first one that is out of
bounds (`Checked`).

- `elementAt`, `substring`, `cStringAt`: the three kinds of access, each defined exactly in bounds.
- `Safe`: all accesses are in bounds. A sequence is safe exactly if its first part is, and its second part is for the
  value of the first (`safe_bind`).
-/

namespace CxxString

/-- An access to a vector or a string: the place, and how long the object is. -/
inductive Access where
  /-- `v[i]`. -/
  | element (i size : Nat)
  /-- `s.substr(pos, _)`. -/
  | substr (pos length : Nat)
  /-- The pointer `s.c_str() + offset`; the NUL that ends `s` is still in bounds. -/
  | pointer (offset length : Nat)
  deriving DecidableEq

namespace Access

def InBounds : Access → Prop
  | element i size => i < size
  | substr pos length => pos ≤ length
  | pointer offset length => offset ≤ length

instance : DecidablePred InBounds
  | element i size => inferInstanceAs (Decidable (i < size))
  | substr pos length => inferInstanceAs (Decidable (pos ≤ length))
  | pointer offset length => inferInstanceAs (Decidable (offset ≤ length))

end Access

/-- A computation with its accesses. Without a result it has stopped at an access, or has run out of fuel. -/
structure Checked (α : Type) where
  accesses : List Access
  result : Option α

namespace Checked

variable {α β : Type}

protected def pure (a : α) : Checked α := ⟨[], some a⟩

protected def bind (x : Checked α) (f : α → Checked β) : Checked β :=
  match x.result with
  | none => ⟨x.accesses, none⟩
  | some a => ⟨x.accesses ++ (f a).accesses, (f a).result⟩

instance : Monad Checked where
  pure := Checked.pure
  bind := Checked.bind

/-- The element `i` of a vector. -/
def elementAt (v : List α) (i : Nat) : Checked α := ⟨[.element i v.length], v[i]?⟩

/-- `s.substr(pos, n)`. -/
def substring (s : Bytes) (pos : Nat) (n : Option Nat) : Checked Bytes := ⟨[.substr pos s.length], substr s pos n⟩

/-- `std::string(s.c_str() + offset)`. -/
def cStringAt (s : Bytes) (offset : Nat) : Checked Bytes := ⟨[.pointer offset s.length], cString s offset⟩

/-- All accesses are in bounds. -/
def Safe (x : Checked α) : Prop := ∀ access ∈ x.accesses, access.InBounds

instance (x : Checked α) : Decidable x.Safe := inferInstanceAs (Decidable (∀ access ∈ x.accesses, access.InBounds))

@[simp] theorem result_pure (a : α) : (pure a : Checked α).result = some a := rfl

@[simp] theorem result_bind (x : Checked α) (f : α → Checked β) :
    (x >>= f).result = x.result.bind fun a => (f a).result := by
  change (x.bind f).result = _
  unfold Checked.bind
  split <;> simp_all

@[simp] theorem safe_pure (a : α) : (pure a : Checked α).Safe := by
  intro access h
  cases h

/-- A sequence is safe exactly if both parts are. -/
theorem safe_bind {x : Checked α} {f : α → Checked β} :
    (x >>= f).Safe ↔ x.Safe ∧ ∀ a, x.result = some a → (f a).Safe := by
  change (x.bind f).Safe ↔ _
  unfold Checked.bind
  cases hx : x.result with
  | none => exact ⟨fun h => ⟨h, fun a ha => by cases ha⟩, fun h => h.1⟩
  | some a =>
    constructor
    · intro h
      refine ⟨fun access hmem => h access (List.mem_append_left _ hmem), fun b hb => ?_⟩
      cases hb
      exact fun access hmem => h access (List.mem_append_right _ hmem)
    · rintro ⟨hfst, hsnd⟩ access hmem
      rcases List.mem_append.mp hmem with hmem | hmem
      · exact hfst access hmem
      · exact hsnd a rfl access hmem

@[simp] theorem safe_elementAt {v : List α} {i : Nat} : (elementAt v i).Safe ↔ i < v.length := by
  simp [Safe, elementAt, Access.InBounds]

@[simp] theorem safe_substring {s : Bytes} {pos : Nat} {n : Option Nat} :
    (substring s pos n).Safe ↔ pos ≤ s.length := by
  simp [Safe, substring, Access.InBounds]

@[simp] theorem safe_cStringAt {s : Bytes} {offset : Nat} : (cStringAt s offset).Safe ↔ offset ≤ s.length := by
  simp [Safe, cStringAt, Access.InBounds]

@[simp] theorem result_elementAt (v : List α) (i : Nat) : (elementAt v i).result = v[i]? := rfl

@[simp] theorem result_substring (s : Bytes) (pos : Nat) (n : Option Nat) :
    (substring s pos n).result = substr s pos n := rfl

@[simp] theorem result_cStringAt (s : Bytes) (offset : Nat) : (cStringAt s offset).result = cString s offset := rfl

end Checked

end CxxString
