import Celegraph.Frame
import Celegraph.Lib.MessagePack.Canonical

/-!
# Packets on the wire

- The packet classes in the MessagePack format: what is packed converts back.
- `Msgpack.Lawful`: what is relied on of the library. The format itself is lawful.
- `getDataFromPacket_fits`, `getDataFromPacket_of_not_fits`: with a lawful library, a packet whose payload fits arrives
  as it was sent, and no other packet is read.
-/

namespace Celegraph.Packets

open CxxString
open MessagePack (Obj)

/-! ## Converting back -/

@[simp] theorem convertInt32_packInt32 (n : Int32) : convertInt32 (packInt32 n) = some n := by
  rw [packInt32, convertInt32, if_pos (toInt_bounds n), Int32.ofInt_toInt]

/-- The members with which every class starts. -/
@[simp] theorem convertIds_pack (u : Uninit) (packetId sessionId : Int32) (xs : List Obj) :
    convertIds u (.array (packInt32 packetId :: packInt32 sessionId :: xs)) = some (⟨packetId, sessionId⟩, xs) := by
  simp [convertIds, elements, member]

@[simp] theorem convertStrings_pack (ss : List Bytes) : convertStrings (.array (ss.map .str)) = some ss := by
  rw [convertStrings, List.mapM_map]
  exact (List.mapM_pure (m := Option) (f := id)).trans (congrArg some (List.map_id ss))

/-- A packed packet converts to itself. -/
@[simp] theorem Connect.convert_pack (u : Uninit) (p : Connect) : Connect.convert u p.pack = some p := by
  simp [Connect.convert, Connect.pack]

@[simp] theorem Listusers.convert_pack (u : Uninit) (p : Listusers) : Listusers.convert u p.pack = some p := by
  simp [Listusers.convert, Listusers.pack, member]

@[simp] theorem Sendplayercommand.convert_pack (u : Uninit) (p : Sendplayercommand) :
    Sendplayercommand.convert u p.pack = some p := by
  simp [Sendplayercommand.convert, Sendplayercommand.pack, member, convertString]

@[simp] theorem Sendservercommand.convert_pack (u : Uninit) (p : Sendservercommand) :
    Sendservercommand.convert u p.pack = some p := by
  simp [Sendservercommand.convert, Sendservercommand.pack, member, convertString]

/-! ## Values of the format -/

theorem valid_packInt32 (n : Int32) : (packInt32 n).Valid := by
  obtain ⟨hlo, hhi⟩ := toInt_bounds n
  exact ⟨by omega, by omega⟩

theorem Createuser.valid_pack {p : Createuser} (hfirst : p.firstName.length < 2 ^ 32)
    (hlast : p.lastName.length < 2 ^ 32) (h : p.attributes = []) : p.pack.Valid := by
  unfold Createuser.pack
  rw [h]
  exact ⟨by simp, valid_packInt32 _, valid_packInt32 _, hfirst, hlast, ⟨by simp, trivial⟩, trivial⟩

theorem Connect.valid_pack (p : Connect) : p.pack.Valid :=
  ⟨by simp, valid_packInt32 _, valid_packInt32 _, trivial⟩

/-- The payload of the classes with two numbers and a text. -/
def textBody (packetId sessionId : Int32) (s : Bytes) : Obj := .array [packInt32 packetId, packInt32 sessionId, .str s]

theorem valid_textBody {packetId sessionId : Int32} {s : Bytes} (h : s.length < 2 ^ 32) :
    (textBody packetId sessionId s).Valid :=
  ⟨by simp, valid_packInt32 _, valid_packInt32 _, h, trivial⟩

theorem allValid_map_str {ss : List Bytes} (h : ∀ s ∈ ss, s.length < 2 ^ 32) : MessagePack.AllValid (ss.map .str) := by
  induction ss with
  | nil => trivial
  | cons s ss ih => exact ⟨h s List.mem_cons_self, ih fun t ht => h t (List.mem_cons_of_mem _ ht)⟩

theorem Listusers.valid_pack {p : Listusers} (hlen : p.users.length < 2 ^ 32)
    (h : ∀ s ∈ p.users, s.length < 2 ^ 32) : p.pack.Valid :=
  ⟨by simp, valid_packInt32 _, valid_packInt32 _, ⟨by simpa using hlen, allValid_map_str h⟩, trivial⟩

/-! ## Lengths -/

/-- The length of a packed number. -/
def intSize (n : Int32) : Nat := (MessagePack.encodeInt n.toInt).length

theorem intSize_bounds (n : Int32) : 1 ≤ intSize n ∧ intSize n ≤ 5 :=
  ⟨MessagePack.length_encodeInt_pos _, MessagePack.length_encodeInt_le (toInt_bounds n).1 (toInt_bounds n).2⟩

/-- The length of a packed class with few members, the first two of them numbers. -/
theorem length_encode_members (packetId sessionId : Int32) {xs : List Obj} (hxs : xs.length < 14) :
    (MessagePack.encode (.array (packInt32 packetId :: packInt32 sessionId :: xs))).length =
      1 + intSize packetId + intSize sessionId + (MessagePack.encodeList xs).length := by
  have hheader : (MessagePack.arrayHeader (xs.length + 1 + 1)).length = 1 := by
    rw [MessagePack.arrayHeader, if_pos (by omega)]
    rfl
  simp only [MessagePack.encode, MessagePack.encodeList, packInt32, intSize, List.length_append, List.length_cons,
    hheader]
  omega

theorem length_encode_textBody (packetId sessionId : Int32) (s : Bytes) :
    (MessagePack.encode (textBody packetId sessionId s)).length =
      1 + intSize packetId + intSize sessionId + (MessagePack.strHeader s.length).length + s.length := by
  rw [textBody, length_encode_members packetId sessionId (by simp : [Obj.str s].length < 14)]
  simp [MessagePack.encode, MessagePack.encodeList]
  omega

end Celegraph.Packets

namespace Celegraph.Utils

open CxxString Packets
open MessagePack (Obj)

/-- The library does as it is documented: what it packs, it unpacks, but not a part of it; what it packs takes the
shortest form; and what it unpacks is contained in the input. -/
class Msgpack.Lawful (mp : Msgpack) : Prop where
  unpack_pack {body : Obj} : body.Valid → mp.unpack (mp.pack body) = some body
  unpack_take {body : Obj} {n : Nat} : body.Valid → n < (mp.pack body).length → mp.unpack ((mp.pack body).take n) = none
  length_pack {body : Obj} : body.Valid → (mp.pack body).length = (MessagePack.encode body).length
  length_unpack {s : Bytes} {body : Obj} : mp.unpack s = some body → (MessagePack.encode body).length ≤ s.length

instance : Msgpack.reference.Lawful where
  unpack_pack h := by
    have := MessagePack.decode_encode h []
    rwa [List.append_nil] at this
  unpack_take h hlt := MessagePack.decode_take h hlt
  length_pack _ := rfl
  length_unpack h := (MessagePack.decode_sound h).2

/-- The payload has the size of one at most, in its shortest form. -/
def Fits (body : Obj) : Prop := (MessagePack.encode body).length ≤ MSGPCK_MAX_PAYLOAD_SIZE

instance (body : Obj) : Decidable (Fits body) := inferInstanceAs (Decidable (_ ≤ _))

theorem length_pack_le_iff (mp : Msgpack) [mp.Lawful] {body : Obj} (hvalid : body.Valid) :
    (mp.pack body).length ≤ MSGPCK_MAX_PAYLOAD_SIZE ↔ Fits body := by
  rw [Msgpack.Lawful.length_pack hvalid]
  rfl

/-- **A packet that fits is read as it was sent.** -/
theorem getDataFromPacket_fits (mp : Msgpack) [mp.Lawful] {d : Datagram} (hfit : Fits d.body) (hvalid : d.body.Valid)
    (b : PacketBuffer) :
    getDataFromPacket mp (receivePacketFrom (d.data mp) b) = some (d.packetType.value, d.body) :=
  getDataFromPacket_data ((length_pack_le_iff mp hvalid).mpr hfit) (Msgpack.Lawful.unpack_pack hvalid) b

/-- A text that fits, with the two numbers before it. -/
theorem fits_textBody_iff (packetId sessionId : Int32) (s : Bytes) :
    Fits (textBody packetId sessionId s) ↔ s.length + intSize packetId + intSize sessionId ≤ 505 := by
  have hlen := length_encode_textBody packetId sessionId s
  have hp := intSize_bounds packetId
  have hs := intSize_bounds sessionId
  have hmax : MSGPCK_MAX_PAYLOAD_SIZE = 509 := rfl
  rw [MessagePack.length_strHeader] at hlen
  unfold Fits
  rw [hlen, hmax]
  split_ifs <;> omega

/-- Two numbers, and few members behind them. -/
theorem fits_members (packetId sessionId : Int32) {xs : List Obj} (hxs : xs.length < 14)
    (h : (MessagePack.encodeList xs).length ≤ 498) :
    Fits (.array (packInt32 packetId :: packInt32 sessionId :: xs)) := by
  have hp := intSize_bounds packetId
  have hs := intSize_bounds sessionId
  unfold Fits
  rw [length_encode_members packetId sessionId hxs, packet_sizes.2.2]
  omega

theorem fits_connect (p : Connect) : Fits p.pack := fits_members p.packetId p.sessionId (by decide) (by decide)

/-- A payload that fits has a text that the format can hold. -/
theorem valid_of_fits {packetId sessionId : Int32} {s : Bytes} (h : Fits (textBody packetId sessionId s)) :
    (textBody packetId sessionId s).Valid := by
  have := (fits_textBody_iff packetId sessionId s).mp h
  exact valid_textBody (by omega)

/-- **A packet that does not fit is not read.** The size in its header is cut to a `uint16_t`: a large one is rejected,
and a small one cuts the payload off, so that it does not unpack. -/
theorem getDataFromPacket_of_not_fits (mp : Msgpack) [mp.Lawful] {d : Datagram} (hfit : ¬Fits d.body)
    (hvalid : d.body.Valid) (b : PacketBuffer) :
    getDataFromPacket mp (receivePacketFrom (d.data mp) b) = none := by
  have hlong : MSGPCK_MAX_PAYLOAD_SIZE < (mp.pack d.body).length :=
    Nat.not_le.mp fun hle => hfit ((length_pack_le_iff mp hvalid).mp hle)
  have hmax := packet_sizes
  have hlen := length_prependPacketHeader (mp.pack d.body) d.packetType.value
  have hhead : PACKET_HEADER_SIZE ≤ (d.data mp).length := by
    rw [Datagram.data]
    omega
  have hunpack : mp.unpack (getMsgpckDataFromPacket (receivePacketFrom (d.data mp) b)) = none := by
    have hsize := getMsgpckSizeFromPacket_receive hhead b
    by_cases hbig : MSGPCK_MAX_PAYLOAD_SIZE < sizeField (d.data mp)
    · rw [getMsgpckDataFromPacket_of_lt (by rwa [hsize])]
      exact mp.unpack_nil
    · rw [getMsgpckDataFromPacket_receive hhead (Nat.not_lt.mp hbig) (by rw [Datagram.data] at *; omega) b]
      exact Msgpack.Lawful.unpack_take hvalid (by omega)
  simp [getDataFromPacket, hunpack]

end Celegraph.Utils
