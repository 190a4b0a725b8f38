import Mathlib.Algebra.Ring.Int.Defs
import Mathlib.Algebra.Ring.Nat
import Mathlib.Data.List.Basic

/-!
# The MessagePack format

- `Obj`: the values of the format, floats as their bits.
- `encode`: the size-minimal encoding.
- `decode`: the first value of a byte string; what follows it is ignored. It fails on an empty, truncated or
  malformed input.
-/

namespace MessagePack

abbrev Bytes := List UInt8

/-- A MessagePack value. -/
inductive Obj where
  | nil
  | bool (b : Bool)
  | int (z : Int)
  | float32 (bits : Nat)
  | float64 (bits : Nat)
  | str (s : Bytes)
  | bin (s : Bytes)
  | array (xs : List Obj)
  | map (kvs : List (Obj × Obj))
  | ext (type : UInt8) (s : Bytes)

/-- The `k` bytes of a number, most significant first. -/
def bigEndian : Nat → Nat → Bytes
  | 0, _ => []
  | k + 1, n => (n / 256 ^ k).toUInt8 :: bigEndian k n

/-- The number of a byte string, most significant byte first. -/
def ofBigEndian (bs : Bytes) : Nat := bs.foldl (fun acc b => 256 * acc + b.toNat) 0

/-! ## Encoding -/

/-- The smallest of the formats that hold an integer of 64 bits. -/
def encodeInt (z : Int) : Bytes :=
  if 0 ≤ z then
    let n := z.toNat
    if n < 2 ^ 7 then [n.toUInt8]
    else if n < 2 ^ 8 then 0xcc :: bigEndian 1 n
    else if n < 2 ^ 16 then 0xcd :: bigEndian 2 n
    else if n < 2 ^ 32 then 0xce :: bigEndian 4 n
    else 0xcf :: bigEndian 8 n
  else if -2 ^ 5 ≤ z then [(z + 2 ^ 8).toNat.toUInt8]
  else if -2 ^ 7 ≤ z then 0xd0 :: bigEndian 1 (z + 2 ^ 8).toNat
  else if -2 ^ 15 ≤ z then 0xd1 :: bigEndian 2 (z + 2 ^ 16).toNat
  else if -2 ^ 31 ≤ z then 0xd2 :: bigEndian 4 (z + 2 ^ 32).toNat
  else 0xd3 :: bigEndian 8 (z + 2 ^ 64).toNat

def strHeader (n : Nat) : Bytes :=
  if n < 2 ^ 5 then [(0xa0 + n).toUInt8]
  else if n < 2 ^ 8 then 0xd9 :: bigEndian 1 n
  else if n < 2 ^ 16 then 0xda :: bigEndian 2 n
  else 0xdb :: bigEndian 4 n

def binHeader (n : Nat) : Bytes :=
  if n < 2 ^ 8 then 0xc4 :: bigEndian 1 n
  else if n < 2 ^ 16 then 0xc5 :: bigEndian 2 n
  else 0xc6 :: bigEndian 4 n

def arrayHeader (n : Nat) : Bytes :=
  if n < 2 ^ 4 then [(0x90 + n).toUInt8]
  else if n < 2 ^ 16 then 0xdc :: bigEndian 2 n
  else 0xdd :: bigEndian 4 n

def mapHeader (n : Nat) : Bytes :=
  if n < 2 ^ 4 then [(0x80 + n).toUInt8]
  else if n < 2 ^ 16 then 0xde :: bigEndian 2 n
  else 0xdf :: bigEndian 4 n

def extHeader (n : Nat) : Bytes :=
  match n with
  | 1 => [0xd4]
  | 2 => [0xd5]
  | 4 => [0xd6]
  | 8 => [0xd7]
  | 16 => [0xd8]
  | _ =>
    if n < 2 ^ 8 then 0xc7 :: bigEndian 1 n
    else if n < 2 ^ 16 then 0xc8 :: bigEndian 2 n
    else 0xc9 :: bigEndian 4 n

mutual
/-- The size-minimal encoding of a value. -/
def encode : Obj → Bytes
  | .nil => [0xc0]
  | .bool false => [0xc2]
  | .bool true => [0xc3]
  | .int z => encodeInt z
  | .float32 bits => 0xca :: bigEndian 4 bits
  | .float64 bits => 0xcb :: bigEndian 8 bits
  | .str s => strHeader s.length ++ s
  | .bin s => binHeader s.length ++ s
  | .array xs => arrayHeader xs.length ++ encodeList xs
  | .map kvs => mapHeader kvs.length ++ encodePairs kvs
  | .ext type s => extHeader s.length ++ type :: s

def encodeList : List Obj → Bytes
  | [] => []
  | x :: xs => encode x ++ encodeList xs

def encodePairs : List (Obj × Obj) → Bytes
  | [] => []
  | (k, v) :: kvs => encode k ++ encode v ++ encodePairs kvs
end

/-! ## Decoding -/

/-- The first `n` bytes, and the rest; `none` if there are fewer. -/
def takeBytes (n : Nat) (bs : Bytes) : Option (Bytes × Bytes) :=
  if n ≤ bs.length then some (bs.take n, bs.drop n) else none

/-- A number of `n` bytes. -/
def takeNat (n : Nat) (bs : Bytes) : Option (Nat × Bytes) :=
  (takeBytes n bs).map fun r => (ofBigEndian r.1, r.2)

/-- A number of `n` bytes in two's complement. -/
def takeInt (n : Nat) (bs : Bytes) : Option (Int × Bytes) :=
  (takeNat n bs).map fun r => (if r.1 < 256 ^ n / 2 then (r.1 : Int) else r.1 - 256 ^ n, r.2)

/-- What the first byte of a value says about the rest. -/
inductive Head where
  | value (o : Obj) (rest : Bytes)
  /-- `n` values follow, the elements of an array. -/
  | array (n : Nat) (rest : Bytes)
  /-- `2 * n` values follow, the keys and values of a map. -/
  | map (n : Nat) (rest : Bytes)

/-- A string of `n` bytes, `n` given in `k` bytes. -/
def takeSized (k : Nat) (f : Bytes → Obj) (bs : Bytes) : Option Head := do
  let (n, bs) ← takeNat k bs
  let (s, bs) ← takeBytes n bs
  return .value (f s) bs

/-- An extension of `n` bytes. -/
def takeExt (n : Nat) (bs : Bytes) : Option Head := do
  let (type, bs) ← takeNat 1 bs
  let (s, bs) ← takeBytes n bs
  return .value (.ext type.toUInt8 s) bs

/-- The first byte of a value, and what belongs to it. -/
def head : Bytes → Option Head
  | [] => none
  | b :: bs =>
    let c := b.toNat
    if c < 0x80 then some (.value (.int c) bs)
    else if c < 0x90 then some (.map (c - 0x80) bs)
    else if c < 0xa0 then some (.array (c - 0x90) bs)
    else if c < 0xc0 then (takeBytes (c - 0xa0) bs).map fun r => .value (.str r.1) r.2
    else if 0xe0 ≤ c then some (.value (.int (c - 0x100)) bs)
    else match c with
      | 0xc0 => some (.value .nil bs)
      | 0xc2 => some (.value (.bool false) bs)
      | 0xc3 => some (.value (.bool true) bs)
      | 0xc4 => takeSized 1 .bin bs
      | 0xc5 => takeSized 2 .bin bs
      | 0xc6 => takeSized 4 .bin bs
      | 0xc7 => (takeNat 1 bs).bind fun r => takeExt r.1 r.2
      | 0xc8 => (takeNat 2 bs).bind fun r => takeExt r.1 r.2
      | 0xc9 => (takeNat 4 bs).bind fun r => takeExt r.1 r.2
      | 0xca => (takeNat 4 bs).map fun r => .value (.float32 r.1) r.2
      | 0xcb => (takeNat 8 bs).map fun r => .value (.float64 r.1) r.2
      | 0xcc => (takeNat 1 bs).map fun r => .value (.int r.1) r.2
      | 0xcd => (takeNat 2 bs).map fun r => .value (.int r.1) r.2
      | 0xce => (takeNat 4 bs).map fun r => .value (.int r.1) r.2
      | 0xcf => (takeNat 8 bs).map fun r => .value (.int r.1) r.2
      | 0xd0 => (takeInt 1 bs).map fun r => .value (.int r.1) r.2
      | 0xd1 => (takeInt 2 bs).map fun r => .value (.int r.1) r.2
      | 0xd2 => (takeInt 4 bs).map fun r => .value (.int r.1) r.2
      | 0xd3 => (takeInt 8 bs).map fun r => .value (.int r.1) r.2
      | 0xd4 => takeExt 1 bs
      | 0xd5 => takeExt 2 bs
      | 0xd6 => takeExt 4 bs
      | 0xd7 => takeExt 8 bs
      | 0xd8 => takeExt 16 bs
      | 0xd9 => takeSized 1 .str bs
      | 0xda => takeSized 2 .str bs
      | 0xdb => takeSized 4 .str bs
      | 0xdc => (takeNat 2 bs).map fun r => .array r.1 r.2
      | 0xdd => (takeNat 4 bs).map fun r => .array r.1 r.2
      | 0xde => (takeNat 2 bs).map fun r => .map r.1 r.2
      | 0xdf => (takeNat 4 bs).map fun r => .map r.1 r.2
      | _ => none

/-- The values of a list, in pairs. -/
def pairs : List Obj → List (Obj × Obj)
  | k :: v :: xs => (k, v) :: pairs xs
  | _ => []

/-- The first `n` values of a byte string, and the rest. Every value takes one unit of the first argument. -/
def decodeMany : Nat → Nat → Bytes → Option (List Obj × Bytes)
  | _, 0, bs => some ([], bs)
  | 0, _ + 1, _ => none
  | fuel + 1, n + 1, bs => do
    let (o, bs) ← match ← head bs with
      | .value o bs => some (o, bs)
      | .array m bs => (decodeMany fuel m bs).map fun r => (.array r.1, r.2)
      | .map m bs => (decodeMany fuel (2 * m) bs).map fun r => (.map (pairs r.1), r.2)
    let (os, bs) ← decodeMany fuel n bs
    return (o :: os, bs)

/-- The first value of a byte string. -/
def decode (bs : Bytes) : Option Obj := (decodeMany bs.length 1 bs).bind fun r => r.1.head?

theorem decode_nil : decode [] = none := rfl

end MessagePack
