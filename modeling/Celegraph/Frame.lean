import Celegraph.Utils

/-!
# What is read from the packet buffer

`ReceivePacketFrom` overwrites the first bytes of the buffer and forgets how many there were. So the packet that is
read from the buffer depends on the datagram alone exactly if the datagram has a whole header, and holds the payload
that the header claims or claims more than a packet can hold (`OwnPayload`, `decodes_own_bytes_iff`). What `SendDataTo`
sends is of this kind (`ownPayload_prependPacketHeader`).
-/

namespace Celegraph.Utils

open CxxString Packets

/-- The three results of reading a packet buffer. -/
def decoded (packetBuffer : PacketBuffer) : UInt8 × Nat × Bytes :=
  (getPacketTypeFromPacket packetBuffer, getMsgpckSizeFromPacket packetBuffer, getMsgpckDataFromPacket packetBuffer)

/-- The size field of a datagram. -/
def sizeField (d : Bytes) : Nat := (d.getD 1 0).toNat + 256 * (d.getD 2 0).toNat

/-- The datagram has a whole header, and contains the payload that it claims, unless the claim is out of range. -/
def OwnPayload (d : Bytes) : Prop :=
  PACKET_HEADER_SIZE ≤ d.length ∧
    (MSGPCK_MAX_PAYLOAD_SIZE < sizeField d ∨ PACKET_HEADER_SIZE + sizeField d ≤ d.length)

instance (d : Bytes) : Decidable (OwnPayload d) := inferInstanceAs (Decidable (_ ∧ _))

theorem packet_sizes : PACKET_HEADER_SIZE = 3 ∧ PACKET_MAX_SIZE = 512 ∧ MSGPCK_MAX_PAYLOAD_SIZE = 509 :=
  ⟨rfl, rfl, rfl⟩

/-! ## The parts of a packet -/

theorem receivePacketFrom_of_lt {d : Bytes} {b : PacketBuffer} {i : Fin PACKET_MAX_SIZE} (h : i < d.length) :
    receivePacketFrom d b i = d[i] := dif_pos h

theorem receivePacketFrom_of_ge {d : Bytes} {b : PacketBuffer} {i : Fin PACKET_MAX_SIZE} (h : d.length ≤ i) :
    receivePacketFrom d b i = b i := dif_neg (Nat.not_lt.mpr h)

/-- A whole header is read from the datagram. -/
theorem getMsgpckSizeFromPacket_receive {d : Bytes} (h : PACKET_HEADER_SIZE ≤ d.length) (b : PacketBuffer) :
    getMsgpckSizeFromPacket (receivePacketFrom d b) = sizeField d := by
  have h1 : receivePacketFrom d b 1 = d.getD 1 0 := by
    have hlt : 1 < d.length := Nat.lt_of_lt_of_le (by decide) h
    rw [receivePacketFrom_of_lt (i := 1) hlt, List.getD_eq_getElem?_getD, List.getElem?_eq_getElem hlt]
    rfl
  have h2 : receivePacketFrom d b 2 = d.getD 2 0 := by
    have hlt : 2 < d.length := Nat.lt_of_lt_of_le (by decide) h
    rw [receivePacketFrom_of_lt (i := 2) hlt, List.getD_eq_getElem?_getD, List.getElem?_eq_getElem hlt]
    rfl
  rw [getMsgpckSizeFromPacket, h1, h2, sizeField]

theorem length_getMsgpckDataFromPacket {b : PacketBuffer} (h : getMsgpckSizeFromPacket b ≤ MSGPCK_MAX_PAYLOAD_SIZE) :
    (getMsgpckDataFromPacket b).length = getMsgpckSizeFromPacket b := by
  simp [getMsgpckDataFromPacket, h]

/-- Byte `i` of the payload is byte `3 + i` of the buffer. -/
theorem getElem?_getMsgpckDataFromPacket {b : PacketBuffer} {i : Nat} (hi : i < getMsgpckSizeFromPacket b)
    (hlt : PACKET_HEADER_SIZE + i < PACKET_MAX_SIZE) (h : getMsgpckSizeFromPacket b ≤ MSGPCK_MAX_PAYLOAD_SIZE) :
    (getMsgpckDataFromPacket b)[i]? = some (b ⟨PACKET_HEADER_SIZE + i, hlt⟩) := by
  simp [getMsgpckDataFromPacket, h, hi]

/-- A payload contained in the datagram is read from it. -/
theorem getMsgpckDataFromPacket_receive {d : Bytes} (h : PACKET_HEADER_SIZE ≤ d.length)
    (hsize : sizeField d ≤ MSGPCK_MAX_PAYLOAD_SIZE) (hd : PACKET_HEADER_SIZE + sizeField d ≤ d.length)
    (b : PacketBuffer) :
    getMsgpckDataFromPacket (receivePacketFrom d b) = (d.drop PACKET_HEADER_SIZE).take (sizeField d) := by
  have hsz := getMsgpckSizeFromPacket_receive h b
  have := packet_sizes
  refine List.ext_getElem? fun i => ?_
  by_cases hi : i < sizeField d
  · have hlt : PACKET_HEADER_SIZE + i < PACKET_MAX_SIZE := by omega
    have hin : PACKET_HEADER_SIZE + i < d.length := by omega
    rw [getElem?_getMsgpckDataFromPacket (by omega) hlt (by omega), List.getElem?_take_of_lt hi, List.getElem?_drop,
      receivePacketFrom_of_lt hin, List.getElem?_eq_getElem hin]
    rfl
  · have hlen := length_getMsgpckDataFromPacket (b := receivePacketFrom d b) (by omega)
    rw [List.getElem?_eq_none (by omega), List.getElem?_eq_none (by simp; omega)]

/-- A packet with an oversized claim has no payload. -/
theorem getMsgpckDataFromPacket_of_lt {b : PacketBuffer} (h : MSGPCK_MAX_PAYLOAD_SIZE < getMsgpckSizeFromPacket b) :
    getMsgpckDataFromPacket b = [] := dif_neg (Nat.not_le.mpr h)

/-- An oversized packet is unpacked from the empty string. -/
theorem getDataFromPacket_eq_some {mp : Msgpack} {b : PacketBuffer} {packetType : UInt8} {data : MessagePack.Obj} :
    getDataFromPacket mp b = some (packetType, data) ↔ getMsgpckSizeFromPacket b ≤ MSGPCK_MAX_PAYLOAD_SIZE ∧
      getPacketTypeFromPacket b = packetType ∧ mp.unpack (getMsgpckDataFromPacket b) = some data := by
  by_cases hsize : MSGPCK_MAX_PAYLOAD_SIZE < getMsgpckSizeFromPacket b
  · have hempty : getMsgpckDataFromPacket b = [] := dif_neg (Nat.not_le.mpr hsize)
    simp [getDataFromPacket, hempty, mp.unpack_nil]
  · simp only [getDataFromPacket, if_neg hsize, Nat.not_lt.mp hsize, true_and]
    cases mp.unpack (getMsgpckDataFromPacket b) <;> simp

/-! ## Two buffers, one datagram -/

theorem decoded_eq_of_ownPayload {d : Bytes} (h : OwnPayload d) (b₁ b₂ : PacketBuffer) :
    decoded (receivePacketFrom d b₁) = decoded (receivePacketFrom d b₂) := by
  obtain ⟨hlen, hsize⟩ := h
  have h0 : (0 : Fin PACKET_MAX_SIZE).val < d.length := Nat.lt_of_lt_of_le (by decide) hlen
  have htype : getPacketTypeFromPacket (receivePacketFrom d b₁) = getPacketTypeFromPacket (receivePacketFrom d b₂) :=
    (receivePacketFrom_of_lt h0).trans (receivePacketFrom_of_lt h0).symm
  have hdata : getMsgpckDataFromPacket (receivePacketFrom d b₁) = getMsgpckDataFromPacket (receivePacketFrom d b₂) := by
    by_cases hbig : MSGPCK_MAX_PAYLOAD_SIZE < sizeField d
    · have hbig' (b) : MSGPCK_MAX_PAYLOAD_SIZE < getMsgpckSizeFromPacket (receivePacketFrom d b) := by
        rwa [getMsgpckSizeFromPacket_receive hlen b]
      rw [getMsgpckDataFromPacket_of_lt (hbig' b₁), getMsgpckDataFromPacket_of_lt (hbig' b₂)]
    · have hd := hsize.resolve_left hbig
      have hle := Nat.not_lt.mp hbig
      rw [getMsgpckDataFromPacket_receive hlen hle hd, getMsgpckDataFromPacket_receive hlen hle hd]
  simp only [decoded, htype, hdata, getMsgpckSizeFromPacket_receive hlen]

/-- A byte of the buffer that is not overwritten tells the two buffers apart. -/
theorem receivePacketFrom_const_ne {d : Bytes} {i : Fin PACKET_MAX_SIZE} (h : d.length ≤ i) :
    receivePacketFrom d (fun _ => 0) i ≠ receivePacketFrom d (fun _ => 1) i := by
  rw [receivePacketFrom_of_ge h, receivePacketFrom_of_ge h]
  decide

/-- A header that is cut short is completed from the old buffer. -/
theorem decoded_ne_of_short {d : Bytes} (h : d.length < PACKET_HEADER_SIZE) :
    decoded (receivePacketFrom d fun _ => 0) ≠ decoded (receivePacketFrom d fun _ => 1) := by
  intro heq
  have hsize : getMsgpckSizeFromPacket (receivePacketFrom d fun _ => 0) =
      getMsgpckSizeFromPacket (receivePacketFrom d fun _ => 1) := congrArg (fun r => r.2.1) heq
  -- the high byte of the size lies past the end of the datagram
  have h2 : d.length ≤ (2 : Fin PACKET_MAX_SIZE) := Nat.le_of_lt_succ h
  rw [getMsgpckSizeFromPacket, getMsgpckSizeFromPacket, receivePacketFrom_of_ge h2, receivePacketFrom_of_ge h2] at hsize
  have hlo := (receivePacketFrom d (fun _ => 0) 1).toNat_lt
  have hlo' := (receivePacketFrom d (fun _ => 1) 1).toNat_lt
  simp at hsize
  omega

/-- A payload that is cut short is completed from the old buffer. -/
theorem decoded_ne_of_truncated {d : Bytes} (h : PACKET_HEADER_SIZE ≤ d.length)
    (hsize : sizeField d ≤ MSGPCK_MAX_PAYLOAD_SIZE) (hd : d.length < PACKET_HEADER_SIZE + sizeField d) :
    decoded (receivePacketFrom d fun _ => 0) ≠ decoded (receivePacketFrom d fun _ => 1) := by
  intro heq
  have hdata : getMsgpckDataFromPacket (receivePacketFrom d fun _ => 0) =
      getMsgpckDataFromPacket (receivePacketFrom d fun _ => 1) := congrArg (fun r => r.2.2) heq
  have hsz := getMsgpckSizeFromPacket_receive h
  have := packet_sizes
  -- the last byte of the payload lies past the end of the datagram
  have hlt : PACKET_HEADER_SIZE + (sizeField d - 1) < PACKET_MAX_SIZE := by omega
  have hlast := congrArg (fun data : Bytes => data[sizeField d - 1]?) hdata
  rw [getElem?_getMsgpckDataFromPacket (by rw [hsz]; omega) hlt (by rw [hsz]; omega),
    getElem?_getMsgpckDataFromPacket (by rw [hsz]; omega) hlt (by rw [hsz]; omega), Option.some.injEq] at hlast
  exact receivePacketFrom_const_ne (show d.length ≤ PACKET_HEADER_SIZE + (sizeField d - 1) by omega) hlast

/-- **A decoded packet depends on its own datagram only** exactly if the datagram contains what its header claims. -/
theorem decodes_own_bytes_iff (d : Bytes) :
    (∀ b₁ b₂ : PacketBuffer, decoded (receivePacketFrom d b₁) = decoded (receivePacketFrom d b₂)) ↔ OwnPayload d := by
  refine ⟨fun h => ?_, fun h => decoded_eq_of_ownPayload h⟩
  by_contra hnot
  by_cases hlen : PACKET_HEADER_SIZE ≤ d.length
  · have hsize : sizeField d ≤ MSGPCK_MAX_PAYLOAD_SIZE := by
      by_contra hbig
      exact hnot ⟨hlen, .inl (Nat.not_le.mp hbig)⟩
    have hd : d.length < PACKET_HEADER_SIZE + sizeField d := by
      by_contra hle
      exact hnot ⟨hlen, .inr (Nat.not_lt.mp hle)⟩
    exact decoded_ne_of_truncated hlen hsize hd (h _ _)
  · exact decoded_ne_of_short (Nat.not_le.mp hlen) (h _ _)

/-- A `DISCONNECT` that claims three bytes of payload and brings none: they are those of the packet before. -/
def headerOnly : Bytes := [4, 3, 0]

theorem not_decodes_own_bytes :
    ¬∀ d : Bytes, d.length ≤ PACKET_MAX_SIZE → ∀ b₁ b₂ : PacketBuffer,
      decoded (receivePacketFrom d b₁) = decoded (receivePacketFrom d b₂) := by
  intro hall
  exact decoded_ne_of_truncated (d := headerOnly) (by decide) (by decide) (by decide) (hall headerOnly (by decide) _ _)

/-! ## Packets as they are sent -/

theorem sizeField_prependPacketHeader {s : Bytes} (h : s.length ≤ MSGPCK_MAX_PAYLOAD_SIZE) (packetType : UInt8) :
    sizeField (prependPacketHeader s packetType) = s.length := by
  have := packet_sizes
  simp [sizeField, prependPacketHeader]
  omega

theorem length_prependPacketHeader (s : Bytes) (packetType : UInt8) :
    (prependPacketHeader s packetType).length = PACKET_HEADER_SIZE + s.length := by
  simp only [prependPacketHeader, List.length_cons, packet_sizes.1]
  omega

theorem ownPayload_prependPacketHeader {s : Bytes} (h : s.length ≤ MSGPCK_MAX_PAYLOAD_SIZE) (packetType : UInt8) :
    OwnPayload (prependPacketHeader s packetType) := by
  have hlen := length_prependPacketHeader s packetType
  exact ⟨by omega, .inr (by rw [sizeField_prependPacketHeader h, hlen])⟩

/-- **A packet that fits is read as it was sent**, whatever the buffer held, if `unpack` undoes `pack` on its body. -/
theorem getDataFromPacket_data {mp : Msgpack} {d : Datagram} (hfit : (mp.pack d.body).length ≤ MSGPCK_MAX_PAYLOAD_SIZE)
    (hunpack : mp.unpack (mp.pack d.body) = some d.body) (b : PacketBuffer) :
    getDataFromPacket mp (receivePacketFrom (d.data mp) b) = some (d.packetType.value, d.body) := by
  obtain ⟨hlen, _⟩ := ownPayload_prependPacketHeader hfit d.packetType.value
  have hfield := sizeField_prependPacketHeader hfit d.packetType.value
  have hsize : getMsgpckSizeFromPacket (receivePacketFrom (d.data mp) b) = (mp.pack d.body).length :=
    (getMsgpckSizeFromPacket_receive hlen b).trans hfield
  have hdata : getMsgpckDataFromPacket (receivePacketFrom (d.data mp) b) = mp.pack d.body := by
    refine (getMsgpckDataFromPacket_receive hlen (by omega) ?_ b).trans ?_
    · rw [hfield, length_prependPacketHeader]
    · rw [hfield]; simp [prependPacketHeader]
  have htype : getPacketTypeFromPacket (receivePacketFrom (d.data mp) b) = d.packetType.value :=
    receivePacketFrom_of_lt (i := 0) (by simp [Datagram.data, prependPacketHeader])
  simp [getDataFromPacket, hsize, Nat.not_lt.mpr hfit, hdata, htype, hunpack]

/-- The type of a packet that is read is the one under which it was sent. -/
theorem packetType_of_getDataFromPacket {mp : Msgpack} {d : Datagram} {b : PacketBuffer} {packetType : UInt8}
    {data : MessagePack.Obj} (h : getDataFromPacket mp (receivePacketFrom (d.data mp) b) = some (packetType, data)) :
    packetType = d.packetType.value := by
  obtain ⟨_, rfl, _⟩ := getDataFromPacket_eq_some.mp h
  exact receivePacketFrom_of_lt (i := 0) (by simp [Datagram.data, prependPacketHeader])

end Celegraph.Utils
