import Celegraph.Frame

/-!
# The packet frame, there and back

- What `PrependPacketHeader` writes is what the three functions read, for every payload that fits and whatever follows
  it in the buffer (`decoded_prependPacketHeader`).
- What they read from a buffer is what `PrependPacketHeader` makes the start of the buffer from
  (`prependPacketHeader_decoded`).
- `Checked`: the same three functions, with reads that fail outside of the buffer. None does (`checked_decoded`).
-/

namespace Celegraph.Utils

open CxxString Packets

/-! ## Reads that are checked -/

namespace Checked

/-- `packet_buffer[i]`; `none` outside of the buffer. -/
def read (packetBuffer : PacketBuffer) (i : Nat) : Option UInt8 :=
  if h : i < PACKET_MAX_SIZE then some (packetBuffer ⟨i, h⟩) else none

variable (packetBuffer : PacketBuffer)

def getPacketTypeFromPacket : Option UInt8 := read packetBuffer 0

def getMsgpckSizeFromPacket : Option Nat := do
  let lo ← read packetBuffer 1
  let hi ← read packetBuffer 2
  return lo.toNat + 256 * hi.toNat

/-- The `n` bytes of the buffer from `start` on. -/
def readMany (start : Nat) : Nat → Option Bytes
  | 0 => some []
  | n + 1 => do return (← read packetBuffer start) :: (← readMany (start + 1) n)

def getMsgpckDataFromPacket : Option Bytes := do
  let msgpckSize ← getMsgpckSizeFromPacket packetBuffer
  if MSGPCK_MAX_PAYLOAD_SIZE < msgpckSize then return []
  else readMany packetBuffer PACKET_HEADER_SIZE msgpckSize

/-- The three results. -/
def decoded : Option (UInt8 × Nat × Bytes) := do
  let packetType ← getPacketTypeFromPacket packetBuffer
  let msgpckSize ← getMsgpckSizeFromPacket packetBuffer
  let data ← getMsgpckDataFromPacket packetBuffer
  return (packetType, msgpckSize, data)

end Checked

/-- The bytes of a buffer, from its start. -/
def contents {n : Nat} (b : Fin n → UInt8) : Bytes := List.ofFn b

section Contents

variable {n i : Nat}

@[simp] theorem length_contents (b : Fin n → UInt8) : (contents b).length = n := List.length_ofFn

theorem getElem?_contents (b : Fin n → UInt8) (h : i < n) : (contents b)[i]? = some (b ⟨i, h⟩) := by
  simp [contents, h]

theorem drop_contents (b : Fin n → UInt8) (h : i < n) :
    (contents b).drop i = b ⟨i, h⟩ :: (contents b).drop (i + 1) := by
  rw [List.drop_eq_getElem_cons (by simpa using h)]
  simp [contents]

end Contents

theorem checked_read {b : PacketBuffer} {i : Nat} (h : i < PACKET_MAX_SIZE) : Checked.read b i = some (b ⟨i, h⟩) :=
  dif_pos h

/-- Bytes that lie in the buffer are read. -/
theorem checked_readMany {b : PacketBuffer} {start n : Nat} (h : start + n ≤ PACKET_MAX_SIZE) :
    Checked.readMany b start n = some (((contents b).drop start).take n) := by
  induction n generalizing start with
  | zero => simp [Checked.readMany]
  | succ n ih =>
    have hlt : start < PACKET_MAX_SIZE := by omega
    have hrest : start + 1 + n ≤ PACKET_MAX_SIZE := by omega
    simp [Checked.readMany, checked_read hlt, ih hrest, drop_contents b hlt]

theorem checked_getMsgpckSizeFromPacket (b : PacketBuffer) :
    Checked.getMsgpckSizeFromPacket b = some (getMsgpckSizeFromPacket b) := by
  simp only [Checked.getMsgpckSizeFromPacket, checked_read (b := b) (show 1 < PACKET_MAX_SIZE by decide),
    checked_read (b := b) (show 2 < PACKET_MAX_SIZE by decide)]
  rfl

/-- The payload lies behind the header. -/
theorem getMsgpckDataFromPacket_eq {b : PacketBuffer} (h : getMsgpckSizeFromPacket b ≤ MSGPCK_MAX_PAYLOAD_SIZE) :
    getMsgpckDataFromPacket b = ((contents b).drop PACKET_HEADER_SIZE).take (getMsgpckSizeFromPacket b) := by
  have := packet_sizes
  refine List.ext_getElem? fun i => ?_
  by_cases hi : i < getMsgpckSizeFromPacket b
  · have hlt : PACKET_HEADER_SIZE + i < PACKET_MAX_SIZE := by omega
    rw [getElem?_getMsgpckDataFromPacket hi hlt h, List.getElem?_take_of_lt hi, List.getElem?_drop]
    exact (getElem?_contents b hlt).symm
  · have hlen := length_getMsgpckDataFromPacket h
    rw [List.getElem?_eq_none (by omega), List.getElem?_eq_none (by simp; omega)]

/-- **No read leaves the buffer**, whatever it holds. -/
theorem checked_decoded (b : PacketBuffer) : Checked.decoded b = some (decoded b) := by
  have htype : Checked.getPacketTypeFromPacket b = some (getPacketTypeFromPacket b) := checked_read (by decide)
  have hsize := checked_getMsgpckSizeFromPacket b
  have hdata : Checked.getMsgpckDataFromPacket b = some (getMsgpckDataFromPacket b) := by
    by_cases hbig : MSGPCK_MAX_PAYLOAD_SIZE < getMsgpckSizeFromPacket b
    · simp [Checked.getMsgpckDataFromPacket, hsize, hbig, getMsgpckDataFromPacket_of_lt hbig]
    · have hle := Nat.not_lt.mp hbig
      have := packet_sizes
      rw [getMsgpckDataFromPacket_eq hle]
      simp only [Checked.getMsgpckDataFromPacket, hsize, if_neg hbig, bind, Option.bind]
      exact checked_readMany (by omega)
  simp [Checked.decoded, htype, hsize, hdata, decoded]

/-! ## There and back -/

/-- What is written is read, whatever the buffer held. -/
theorem decoded_prependPacketHeader {p : Bytes} (h : p.length ≤ MSGPCK_MAX_PAYLOAD_SIZE) (t : UInt8)
    (b : PacketBuffer) : decoded (receivePacketFrom (prependPacketHeader p t) b) = (t, p.length, p) := by
  obtain ⟨hlen, _⟩ := ownPayload_prependPacketHeader h t
  have hfield := sizeField_prependPacketHeader h t
  have htype : getPacketTypeFromPacket (receivePacketFrom (prependPacketHeader p t) b) = t :=
    receivePacketFrom_of_lt (i := 0) (by simp [prependPacketHeader])
  have hsize : getMsgpckSizeFromPacket (receivePacketFrom (prependPacketHeader p t) b) = p.length :=
    (getMsgpckSizeFromPacket_receive hlen b).trans hfield
  have hdata : getMsgpckDataFromPacket (receivePacketFrom (prependPacketHeader p t) b) = p := by
    refine (getMsgpckDataFromPacket_receive hlen (by omega) ?_ b).trans ?_
    · rw [hfield, length_prependPacketHeader]
    · rw [hfield]; simp [prependPacketHeader]
  simp only [decoded, htype, hsize, hdata]

/-- The two bytes of a size are those that are stored for it. -/
theorem size_bytes (lo hi : UInt8) :
    (lo.toNat + 256 * hi.toNat).toUInt8 = lo ∧ ((lo.toNat + 256 * hi.toNat) / 256).toUInt8 = hi := by
  have hlo := lo.toNat_lt
  have hhi := hi.toNat_lt
  constructor
  · refine UInt8.toNat_inj.mp ?_
    simp
  · refine UInt8.toNat_inj.mp ?_
    simp
    omega

/-- What is read is what the start of the buffer is made from. -/
theorem prependPacketHeader_decoded {b : PacketBuffer} (h : getMsgpckSizeFromPacket b ≤ MSGPCK_MAX_PAYLOAD_SIZE) :
    prependPacketHeader (getMsgpckDataFromPacket b) (getPacketTypeFromPacket b) =
      (contents b).take (PACKET_HEADER_SIZE + getMsgpckSizeFromPacket b) := by
  have hlen := length_getMsgpckDataFromPacket h
  obtain ⟨hlo, hhi⟩ := size_bytes (b 1) (b 2)
  have hcons : contents b = b 0 :: b 1 :: b 2 :: (contents b).drop PACKET_HEADER_SIZE := by
    have h0 := drop_contents b (show 0 < PACKET_MAX_SIZE by decide)
    rw [List.drop_zero, drop_contents b (show 0 + 1 < PACKET_MAX_SIZE by decide),
      drop_contents b (show 0 + 1 + 1 < PACKET_MAX_SIZE by decide)] at h0
    exact h0
  have htake : (contents b).take (PACKET_HEADER_SIZE + getMsgpckSizeFromPacket b) =
      b 0 :: b 1 :: b 2 :: ((contents b).drop PACKET_HEADER_SIZE).take (getMsgpckSizeFromPacket b) := by
    conv_lhs => rw [hcons, Nat.add_comm]
    rfl
  rw [prependPacketHeader, hlen, htake, ← getMsgpckDataFromPacket_eq h]
  refine congrArg (b 0 :: ·) ?_
  rw [getMsgpckSizeFromPacket, hlo, hhi]

/-- **The frame round-trips.** What is written at the start of a buffer is read; what is read from a buffer rebuilds
its start; and no read leaves the buffer, of which an oversized size field makes the payload empty. -/
theorem frame_round_trip :
    (∀ (t : UInt8) (p : Bytes) (b : PacketBuffer), p.length ≤ MSGPCK_MAX_PAYLOAD_SIZE →
      getPacketTypeFromPacket (receivePacketFrom (prependPacketHeader p t) b) = t ∧
      getMsgpckSizeFromPacket (receivePacketFrom (prependPacketHeader p t) b) = p.length ∧
      getMsgpckDataFromPacket (receivePacketFrom (prependPacketHeader p t) b) = p) ∧
    (∀ b : PacketBuffer, getMsgpckSizeFromPacket b ≤ MSGPCK_MAX_PAYLOAD_SIZE →
      prependPacketHeader (getMsgpckDataFromPacket b) (getPacketTypeFromPacket b) =
        (contents b).take (PACKET_HEADER_SIZE + getMsgpckSizeFromPacket b)) ∧
    (∀ b : PacketBuffer, Checked.decoded b = some (decoded b)) ∧
    (∀ b : PacketBuffer, MSGPCK_MAX_PAYLOAD_SIZE < getMsgpckSizeFromPacket b → getMsgpckDataFromPacket b = []) := by
  refine ⟨fun t p b hp => ?_, fun b => prependPacketHeader_decoded, checked_decoded,
    fun b => getMsgpckDataFromPacket_of_lt⟩
  have h := decoded_prependPacketHeader hp t b
  simp only [decoded, Prod.mk.injEq] at h
  exact h

/-- A payload with bytes of value 0, in a buffer of ones. -/
theorem frame_round_trip_zeros :
    getMsgpckDataFromPacket (receivePacketFrom (prependPacketHeader [0x92, 0, 0] 4) fun _ => 1) = [0x92, 0, 0] :=
  (frame_round_trip.1 4 [0x92, 0, 0] (fun _ => 1) (by decide)).2.2

end Celegraph.Utils
