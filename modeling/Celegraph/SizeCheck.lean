import Celegraph.Frame

/-!
# The length check of the sender

`PrependPacketHeader` cuts the length of the payload to a `uint16_t` before it compares it with the largest payload, and
goes on whatever the comparison gives. So its check is sound (`SoundCheck`) exactly for the payloads below 65536 bytes,
and for those whose length is out of range modulo 65536 too (`soundCheck_iff`). Of the others the recipient would read a
proper prefix (`reads_prefix`).
-/

namespace Celegraph.Utils

open CxxString Packets

/-- The error that `PrependPacketHeader` prints. -/
def sizeError : Bytes :=
  text "ERROR: MessagePack data is larger than " ++ decimal MSGPCK_MAX_PAYLOAD_SIZE ++ text " bytes!!!!"

/-- `PrependPacketHeader`: what it prints, and the packet. -/
def prependPacketHeaderPrinting (s : Bytes) (packetType : UInt8) : List Bytes × Bytes :=
  let size : UInt16 := s.length.toUInt16
  let printed := if MSGPCK_MAX_PAYLOAD_SIZE < size.toNat then [sizeError] else []
  (printed, packetType :: size.toUInt8 :: (size >>> 8).toUInt8 :: s)

/-- The packet is the one that is sent. -/
theorem prependPacketHeaderPrinting_snd (s : Bytes) (packetType : UInt8) :
    (prependPacketHeaderPrinting s packetType).2 = prependPacketHeader s packetType := by
  have hlow : s.length.toUInt16.toUInt8 = s.length.toUInt8 := by
    apply UInt8.toNat_inj.mp
    simp
  have hhigh : (s.length.toUInt16 >>> 8).toUInt8 = (s.length / 256).toUInt8 := by
    apply UInt8.toNat_inj.mp
    simp [Nat.shiftRight_eq_div_pow]
    omega
  simp only [prependPacketHeaderPrinting, prependPacketHeader, hlow, hhigh]

/-- The error is reported. -/
def ReportsSize (s : Bytes) (packetType : UInt8) : Prop := sizeError ∈ (prependPacketHeaderPrinting s packetType).1

theorem reportsSize_iff (s : Bytes) (packetType : UInt8) :
    ReportsSize s packetType ↔ MSGPCK_MAX_PAYLOAD_SIZE < s.length % 65536 := by
  have hsize : s.length.toUInt16.toNat = s.length % 65536 := by simp
  simp only [ReportsSize, prependPacketHeaderPrinting, hsize]
  split
  · exact iff_of_true (List.mem_singleton_self _) ‹_›
  · exact iff_of_false List.not_mem_nil ‹_›

/-- The size field is the length modulo 65536. -/
theorem sizeField_prepend_mod (s : Bytes) (packetType : UInt8) :
    sizeField (prependPacketHeader s packetType) = s.length % 65536 := by
  simp [sizeField, prependPacketHeader]
  omega

/-- What the recipient reads of a payload that is not reported. -/
theorem reads_prefix {s : Bytes} {packetType : UInt8} (h : ¬ReportsSize s packetType) (b : PacketBuffer) :
    getMsgpckDataFromPacket (receivePacketFrom (prependPacketHeader s packetType) b) = s.take (s.length % 65536) := by
  have hsize : s.length % 65536 ≤ MSGPCK_MAX_PAYLOAD_SIZE := Nat.not_lt.mp ((reportsSize_iff s packetType).not.mp h)
  have hlen := length_prependPacketHeader s packetType
  have hfield := sizeField_prepend_mod s packetType
  have hle : s.length % 65536 ≤ s.length := Nat.mod_le _ _
  rw [getMsgpckDataFromPacket_receive (by omega) (by omega) (by omega), hfield]
  rfl

/-- The check of the sender does what it is for: a payload is reported, or its size field is its length; it is reported
exactly if it is too long; and one that is not reported is read whole. -/
structure SoundCheck (s : Bytes) (packetType : UInt8) : Prop where
  field : ReportsSize s packetType ∨ sizeField (prependPacketHeaderPrinting s packetType).2 = s.length
  report : ReportsSize s packetType ↔ MSGPCK_MAX_PAYLOAD_SIZE < s.length
  read : ¬ReportsSize s packetType → ∀ b : PacketBuffer,
    getMsgpckDataFromPacket (receivePacketFrom (prependPacketHeaderPrinting s packetType).2 b) = s

/-- **The length check is sound** exactly if the length fits into the size field, or what is left of it there is still
too long. -/
theorem soundCheck_iff (s : Bytes) (packetType : UInt8) :
    SoundCheck s packetType ↔ s.length < 65536 ∨ MSGPCK_MAX_PAYLOAD_SIZE < s.length % 65536 := by
  have hreport := reportsSize_iff s packetType
  have hfield := sizeField_prepend_mod s packetType
  have := packet_sizes
  constructor
  · intro h
    by_contra hnot
    have hlong : 65536 ≤ s.length ∧ s.length % 65536 ≤ MSGPCK_MAX_PAYLOAD_SIZE := by omega
    -- the payload is too long, and not reported
    have hsilent : ¬ReportsSize s packetType := hreport.not.mpr (by omega)
    exact hsilent (h.report.mpr (by omega))
  · intro h
    refine ⟨?_, ?_, fun hsilent b => ?_⟩
    · rw [prependPacketHeaderPrinting_snd, hfield, hreport]
      omega
    · rw [hreport]
      omega
    · have hlen : s.length % 65536 = s.length := by
        have := hreport.not.mp hsilent
        omega
      rw [prependPacketHeaderPrinting_snd, reads_prefix hsilent, hlen, List.take_length]

/-- A payload of 65538 bytes is framed as one of two. -/
theorem not_soundCheck : ¬∀ (s : Bytes) (packetType : UInt8), SoundCheck s packetType := by
  intro hall
  have hlen : (List.replicate 65538 (0 : UInt8)).length = 65538 := List.length_replicate
  have h := (soundCheck_iff _ PTYPE.SENDPLAYERCOMMAND.value).mp (hall (List.replicate 65538 0) _)
  have := packet_sizes
  rw [hlen] at h
  omega

end Celegraph.Utils
