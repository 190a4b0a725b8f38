import Celegraph.Lib.MessagePack.RoundTrip

/-!
# What is decoded is valid, and its encoding is no longer

A value can be written in several ways, of which `encode` takes the shortest.

- `decode_sound`: a value that is decoded is valid, and its encoding has at most as many bytes as it was decoded from.

This is proved for the first byte of a value (`head_within`) and then for a whole byte string (`decodeMany_within`).
-/

namespace MessagePack

/-! ## Numbers -/

theorem foldl_lt (bs : Bytes) (acc : Nat) :
    bs.foldl (fun acc b => 256 * acc + b.toNat) acc < (acc + 1) * 256 ^ bs.length := by
  induction bs generalizing acc with
  | nil => simp
  | cons b bs ih =>
    have hb : b.toNat < 256 := b.toNat_lt
    have hle : (256 * acc + b.toNat + 1) * 256 ^ bs.length ≤ (256 * (acc + 1)) * 256 ^ bs.length :=
      Nat.mul_le_mul_right _ (by omega)
    calc bs.foldl (fun acc b => 256 * acc + b.toNat) (256 * acc + b.toNat)
        < (256 * acc + b.toNat + 1) * 256 ^ bs.length := ih _
      _ ≤ (256 * (acc + 1)) * 256 ^ bs.length := hle
      _ = (acc + 1) * 256 ^ (bs.length + 1) := by ring

theorem ofBigEndian_lt (bs : Bytes) : ofBigEndian bs < 256 ^ bs.length := by
  simpa [ofBigEndian] using foldl_lt bs 0

section Take

variable {n : Nat} {bs : Bytes}

theorem length_takeBytes {r : Bytes × Bytes} (h : takeBytes n bs = some r) :
    r.1.length = n ∧ n + r.2.length = bs.length := by
  unfold takeBytes at h
  split at h
  · rename_i hn
    cases h
    simp only [List.length_take, List.length_drop]
    omega
  · cases h

theorem takeNat_bounds {r : Nat × Bytes} (h : takeNat n bs = some r) : r.1 < 256 ^ n ∧ n + r.2.length = bs.length := by
  obtain ⟨r', hr, rfl⟩ := Option.map_eq_some_iff.mp h
  obtain ⟨hlen, hrest⟩ := length_takeBytes hr
  exact ⟨hlen ▸ ofBigEndian_lt r'.1, hrest⟩

theorem takeInt_bounds (hn : n ≠ 0) {r : Int × Bytes} (h : takeInt n bs = some r) :
    (-(256 ^ n / 2 : Nat) ≤ r.1 ∧ r.1 < (256 ^ n / 2 : Nat)) ∧ n + r.2.length = bs.length := by
  obtain ⟨r', hr, rfl⟩ := Option.map_eq_some_iff.mp h
  obtain ⟨hlt, hrest⟩ := takeNat_bounds hr
  refine ⟨?_, hrest⟩
  obtain ⟨m, rfl⟩ := Nat.exists_eq_succ_of_ne_zero hn
  have hpow : ((256 ^ (m + 1) : Nat) : Int) = 256 ^ (m + 1) := by push_cast; rfl
  have heven : 256 ^ (m + 1) = 2 * (128 * 256 ^ m) := by ring
  dsimp only
  split <;> omega

end Take

/-! ## The lengths of the pieces -/

/-- A number that was read from `k` bytes is written in `k` bytes at most, behind its first byte. -/
theorem length_encodeInt_le_nat {n k : Nat} (hk : k = 1 ∨ k = 2 ∨ k = 4 ∨ k = 8) (h : n < 256 ^ k) :
    (encodeInt n).length ≤ 1 + k := by
  rw [encodeInt, if_pos (Int.natCast_nonneg n)]
  simp only [Int.toNat_natCast]
  rcases hk with rfl | rfl | rfl | rfl <;> split_ifs <;> simp <;> omega

/-- A number that was read from `k` bytes in two's complement is written in `k` bytes at most, behind its first byte. -/
theorem length_encodeInt_le_int {z : Int} {k : Nat} (hk : k = 1 ∨ k = 2 ∨ k = 4 ∨ k = 8)
    (hlo : -(256 ^ k / 2 : Nat) ≤ z) (hhi : z < (256 ^ k / 2 : Nat)) : (encodeInt z).length ≤ 1 + k := by
  by_cases hz : 0 ≤ z
  · obtain ⟨n, rfl⟩ := Int.eq_ofNat_of_zero_le hz
    exact length_encodeInt_le_nat hk (by omega)
  · rw [encodeInt, if_neg hz]
    rcases hk with rfl | rfl | rfl | rfl <;> split_ifs <;> simp <;> omega

/-- A length that was read from `k` bytes is written in `k` bytes at most, behind the first byte of its value. -/
theorem length_headers_le {n k : Nat} (hk : k = 1 ∨ k = 2 ∨ k = 4) (h : n < 256 ^ k) :
    (strHeader n).length ≤ 1 + k ∧ (binHeader n).length ≤ 1 + k ∧ (extHeader n).length ≤ 1 + k := by
  refine ⟨?_, ?_, ?_⟩
  · unfold strHeader
    rcases hk with rfl | rfl | rfl <;> split_ifs <;> simp <;> omega
  · unfold binHeader
    rcases hk with rfl | rfl | rfl <;> split_ifs <;> simp <;> omega
  · unfold extHeader
    rcases hk with rfl | rfl | rfl <;> split <;> (try split_ifs) <;> simp <;> omega

theorem length_collectionHeaders_le {n k : Nat} (hk : k = 2 ∨ k = 4) (h : n < 256 ^ k) :
    (arrayHeader n).length ≤ 1 + k ∧ (mapHeader n).length ≤ 1 + k := by
  refine ⟨?_, ?_⟩
  · unfold arrayHeader
    rcases hk with rfl | rfl <;> split_ifs <;> simp only [List.length_cons, List.length_nil, length_bigEndian] <;> omega
  · unfold mapHeader
    rcases hk with rfl | rfl <;> split_ifs <;> simp only [List.length_cons, List.length_nil, length_bigEndian] <;> omega

/-! ## The first byte -/

/-- What is read at the start of `size` bytes is valid, and takes no more when it is encoded. -/
def Head.Within (size : Nat) : Head → Prop
  | .value o rest => o.Valid ∧ (encode o).length + rest.length ≤ size
  | .array n rest => n < 2 ^ 32 ∧ (arrayHeader n).length + rest.length ≤ size
  | .map n rest => n < 2 ^ 32 ∧ (mapHeader n).length + rest.length ≤ size

section Head

variable {k n : Nat} {bs : Bytes} {hd : Head}

/-- A string behind its first byte and `k` bytes for its length. -/
theorem within_takeSized {f : Bytes → Obj} (hk : k = 1 ∨ k = 2 ∨ k = 4)
    (hf : (∀ s, f s = .str s) ∨ ∀ s, f s = .bin s) (h : takeSized k f bs = some hd) : hd.Within (bs.length + 1) := by
  obtain ⟨r, hr, h⟩ := Option.bind_eq_some_iff.mp h
  obtain ⟨r', hr', h⟩ := Option.bind_eq_some_iff.mp h
  cases h
  obtain ⟨hlt, hlen⟩ := takeNat_bounds hr
  obtain ⟨hs, hrest⟩ := length_takeBytes hr'
  have hheaders := length_headers_le hk hlt
  have hvalid : r'.1.length < 2 ^ 32 := by rcases hk with rfl | rfl | rfl <;> omega
  rcases hf with hf | hf <;> refine ⟨by rw [hf]; exact hvalid, ?_⟩ <;>
    rw [hf, encode, List.length_append, hs] <;> omega

/-- An extension, behind its header of `size` bytes. -/
theorem within_takeExt {size : Nat} (hn : n < 2 ^ 32) (hsize : (extHeader n).length ≤ size)
    (h : takeExt n bs = some hd) : hd.Within (bs.length + size) := by
  obtain ⟨r, hr, h⟩ := Option.bind_eq_some_iff.mp h
  obtain ⟨r', hr', h⟩ := Option.bind_eq_some_iff.mp h
  cases h
  obtain ⟨_, hlen⟩ := takeNat_bounds hr
  obtain ⟨hs, hrest⟩ := length_takeBytes hr'
  refine ⟨show r'.1.length < 2 ^ 32 by rwa [hs], ?_⟩
  rw [encode, List.length_append, List.length_cons, hs]
  omega

/-- An extension whose length is in the `k` bytes behind the first. -/
theorem within_sizedExt (hk : k = 1 ∨ k = 2 ∨ k = 4)
    (h : ((takeNat k bs).bind fun r => takeExt r.1 r.2) = some hd) : hd.Within (bs.length + 1) := by
  obtain ⟨r, hr, h⟩ := Option.bind_eq_some_iff.mp h
  obtain ⟨hlt, hrest⟩ := takeNat_bounds hr
  have hn : r.1 < 2 ^ 32 := by rcases hk with rfl | rfl | rfl <;> omega
  rw [show bs.length + 1 = r.2.length + (1 + k) by omega]
  exact within_takeExt hn (length_headers_le hk hlt).2.2 h

/-- An integer of `k` bytes behind the first. -/
theorem within_nat (hk : k = 1 ∨ k = 2 ∨ k = 4 ∨ k = 8)
    (h : ((takeNat k bs).map fun r => Head.value (.int r.1) r.2) = some hd) : hd.Within (bs.length + 1) := by
  obtain ⟨r, hr, rfl⟩ := Option.map_eq_some_iff.mp h
  obtain ⟨hlt, hrest⟩ := takeNat_bounds hr
  have hlen := length_encodeInt_le_nat hk hlt
  refine ⟨?_, by rw [encode]; omega⟩
  rcases hk with rfl | rfl | rfl | rfl <;> exact ⟨by omega, by omega⟩

theorem within_int (hk : k = 1 ∨ k = 2 ∨ k = 4 ∨ k = 8)
    (h : ((takeInt k bs).map fun r => Head.value (.int r.1) r.2) = some hd) : hd.Within (bs.length + 1) := by
  obtain ⟨r, hr, rfl⟩ := Option.map_eq_some_iff.mp h
  obtain ⟨⟨hlo, hhi⟩, hrest⟩ := takeInt_bounds (by omega) hr
  have hlen := length_encodeInt_le_int hk hlo hhi
  refine ⟨?_, by rw [encode]; omega⟩
  rcases hk with rfl | rfl | rfl | rfl <;> exact ⟨by omega, by omega⟩

/-- An array or a map whose length is in the `k` bytes behind the first. -/
theorem within_collection (hk : k = 2 ∨ k = 4) {f : Nat → Bytes → Head} (hf : f = .array ∨ f = .map)
    (h : ((takeNat k bs).map fun r => f r.1 r.2) = some hd) : hd.Within (bs.length + 1) := by
  obtain ⟨r, hr, rfl⟩ := Option.map_eq_some_iff.mp h
  obtain ⟨hlt, hrest⟩ := takeNat_bounds hr
  obtain ⟨harray, hmap⟩ := length_collectionHeaders_le hk hlt
  have hn : r.1 < 2 ^ 32 := by rcases hk with rfl | rfl <;> omega
  rcases hf with rfl | rfl
  · exact ⟨hn, by omega⟩
  · exact ⟨hn, by omega⟩

/-- **The first byte of a value, and what belongs to it.** -/
theorem head_within (h : head bs = some hd) : hd.Within bs.length := by
  cases bs with
  | nil => cases h
  | cons b bs =>
    rw [List.length_cons]
    simp only [head] at h
    have hb : b.toNat < 256 := b.toNat_lt
    generalize b.toNat = c at h hb
    split at h
    · rename_i hc
      cases h
      have hone : (encode (.int c)).length = 1 := by simp [encode, encodeInt, hc]
      exact ⟨⟨by omega, by omega⟩, by omega⟩
    split at h
    · rename_i hc
      cases h
      have hone : (mapHeader (c - 0x80)).length = 1 := by rw [mapHeader, if_pos (by omega)]; rfl
      exact ⟨by omega, by omega⟩
    split at h
    · rename_i hc
      cases h
      have hone : (arrayHeader (c - 0x90)).length = 1 := by rw [arrayHeader, if_pos (by omega)]; rfl
      exact ⟨by omega, by omega⟩
    split at h
    · rename_i hc
      obtain ⟨r, hr, rfl⟩ := Option.map_eq_some_iff.mp h
      obtain ⟨hs, hrest⟩ := length_takeBytes hr
      have hone : (strHeader r.1.length).length = 1 := by rw [strHeader, if_pos (by omega)]; rfl
      refine ⟨show r.1.length < 2 ^ 32 by omega, ?_⟩
      rw [encode, List.length_append, hone]
      omega
    split at h
    · rename_i hc
      cases h
      have hone : (encode (.int (c - 0x100))).length = 1 := by
        rw [encode, encodeInt, if_neg (by omega), if_pos (by omega)]
        rfl
      exact ⟨⟨by omega, by omega⟩, by omega⟩
    split at h
    case h_1 | h_2 | h_3 => cases h; exact ⟨trivial, by simp [encode]; omega⟩
    case h_4 | h_5 | h_6 => exact within_takeSized (by simp) (.inr fun _ => rfl) h
    case h_7 | h_8 | h_9 => exact within_sizedExt (by simp) h
    case h_10 | h_11 =>
      obtain ⟨r, hr, rfl⟩ := Option.map_eq_some_iff.mp h
      obtain ⟨hlt, hrest⟩ := takeNat_bounds hr
      exact ⟨hlt, by simp [encode]; omega⟩
    case h_12 | h_13 | h_14 | h_15 => exact within_nat (by simp) h
    case h_16 | h_17 | h_18 | h_19 => exact within_int (by simp) h
    case h_20 | h_21 | h_22 | h_23 | h_24 => exact within_takeExt (by decide) (by decide) h
    case h_25 | h_26 | h_27 => exact within_takeSized (by simp) (.inl fun _ => rfl) h
    case h_28 | h_29 => exact within_collection (by simp) (.inl rfl) h
    case h_30 | h_31 => exact within_collection (by simp) (.inr rfl) h
    case h_32 => cases h

end Head

/-! ## A byte string -/

theorem length_pairs {m : Nat} {os : List Obj} (h : os.length = 2 * m) : (pairs os).length = m := by
  induction m generalizing os with
  | zero => rw [List.length_eq_zero_iff.mp h]; rfl
  | succ m ih =>
    match os, h with
    | k :: v :: os, h => simpa [pairs] using ih (by simpa [Nat.mul_succ] using h)

/-- The pairs of a list of even length hold all of it. -/
theorem unpairs_pairs {m : Nat} {os : List Obj} (h : os.length = 2 * m) : unpairs (pairs os) = os := by
  induction m generalizing os with
  | zero => rw [List.length_eq_zero_iff.mp h]; rfl
  | succ m ih =>
    match os, h with
    | k :: v :: os, h => simpa [pairs, unpairs] using ih (by simpa [Nat.mul_succ] using h)

theorem pairsValid_of_unpairs {kvs : List (Obj × Obj)} (h : AllValid (unpairs kvs)) : PairsValid kvs := by
  induction kvs with
  | nil => trivial
  | cons kv kvs ih => exact ⟨⟨h.1, h.2.1⟩, ih h.2.2⟩

/-- **Values that are decoded one after another** are valid, and take no more when they are encoded. -/
theorem decodeMany_within {fuel n : Nat} {bs : Bytes} {r : List Obj × Bytes} (h : decodeMany fuel n bs = some r) :
    r.1.length = n ∧ AllValid r.1 ∧ (encodeList r.1).length + r.2.length ≤ bs.length := by
  induction fuel generalizing n bs r with
  | zero =>
    cases n with
    | zero => cases h; exact ⟨rfl, trivial, by simp [encodeList]⟩
    | succ n => cases h
  | succ fuel ih =>
    cases n with
    | zero => cases h; exact ⟨rfl, trivial, by simp [encodeList]⟩
    | succ n =>
      rw [decodeMany] at h
      obtain ⟨hd, hhead, h⟩ := Option.bind_eq_some_iff.mp h
      have hwithin := head_within hhead
      -- behind the first value
      have hnext {o : Obj} {rest : Bytes} (ho : o.Valid) (hle : (encode o).length + rest.length ≤ bs.length)
          {r₂ : List Obj × Bytes} (hr₂ : decodeMany fuel n rest = some r₂) : (o :: r₂.1).length = n + 1 ∧
            AllValid (o :: r₂.1) ∧ (encodeList (o :: r₂.1)).length + r₂.2.length ≤ bs.length := by
        obtain ⟨hlen, hvalid, hbytes⟩ := ih hr₂
        refine ⟨by rw [List.length_cons, hlen], ⟨ho, hvalid⟩, ?_⟩
        rw [encodeList, List.length_append]
        omega
      cases hd with
      | value o rest =>
        obtain ⟨_, ho, h⟩ := Option.bind_eq_some_iff.mp h
        cases ho
        obtain ⟨r₂, htail, h⟩ := Option.bind_eq_some_iff.mp h
        cases h
        exact hnext hwithin.1 hwithin.2 htail
      | array m rest =>
        obtain ⟨_, ho, h⟩ := Option.bind_eq_some_iff.mp h
        obtain ⟨r₁, hr₁, rfl⟩ := Option.map_eq_some_iff.mp ho
        obtain ⟨r₂, htail, h⟩ := Option.bind_eq_some_iff.mp h
        cases h
        obtain ⟨rfl, hall, hle⟩ := ih hr₁
        obtain ⟨hlt, hrest⟩ := hwithin
        refine hnext (o := .array r₁.1) ⟨hlt, hall⟩ ?_ htail
        rw [encode, List.length_append]
        omega
      | map m rest =>
        obtain ⟨_, ho, h⟩ := Option.bind_eq_some_iff.mp h
        obtain ⟨r₁, hr₁, rfl⟩ := Option.map_eq_some_iff.mp ho
        obtain ⟨r₂, htail, h⟩ := Option.bind_eq_some_iff.mp h
        cases h
        obtain ⟨hm, hall, hle⟩ := ih hr₁
        obtain ⟨hlt, hrest⟩ := hwithin
        have hpairs := length_pairs hm
        rw [← unpairs_pairs hm] at hall hle
        rw [encodeList_unpairs] at hle
        refine hnext (o := .map (pairs r₁.1)) ⟨by omega, pairsValid_of_unpairs hall⟩ ?_ htail
        rw [encode, List.length_append, hpairs]
        omega

/-- **What is decoded is valid**, and its encoding has at most as many bytes as it was decoded from. -/
theorem decode_sound {bs : Bytes} {o : Obj} (h : decode bs = some o) : o.Valid ∧ (encode o).length ≤ bs.length := by
  obtain ⟨r, hr, hhead⟩ := Option.bind_eq_some_iff.mp h
  obtain ⟨hlen, hall, hbytes⟩ := decodeMany_within hr
  match hos : r.1, hlen with
  | [x], _ =>
    rw [hos] at hhead hall hbytes
    obtain rfl : x = o := Option.some.inj hhead
    refine ⟨hall.1, ?_⟩
    simp only [encodeList, List.append_nil] at hbytes
    omega

end MessagePack
