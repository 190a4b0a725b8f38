import Celegraph.Codec

/-!
# From one program to the other

- `AnyPacket`: a packet of any of the classes that the programs pack; `received`: the packet that a program has once it
  has read a buffer and converted the object to the class of the type.
- `received_datagram`: a packet that is sent is received as it was, or not at all, whatever the buffer held before; it
  is received exactly if it fits.
- `read_again`: whatever a program has read from a buffer fits, and is read again when it is packed and sent. This is
  about the format itself, which has longer forms of most values than the one in which they are packed.
-/

namespace Celegraph.Packets

open CxxString Utils
open MessagePack (Obj)

/-! ## Packets of all classes -/

def Error.convert (u : Uninit) (o : Obj) : Option Error := do
  let (ids, xs) ← convertIds u o
  let (errorMsg, _) ← member convertString [] xs
  return ⟨ids.packetId, ids.sessionId, errorMsg⟩

@[simp] theorem Error.convert_pack (u : Uninit) (p : Error) : Error.convert u p.pack = some p := by
  simp [Error.convert, Error.pack, member, convertString]

@[simp] theorem convertUInt32_toNat (n : UInt32) : convertUInt32 (.int n.toNat) = some n := by
  have hn : n.toNat < 2 ^ 32 := n.toNat_lt
  rw [convertUInt32, if_pos (by omega), Int.toNat_natCast, UInt32.ofNat_toNat]

@[simp] theorem convertAttributes_pack (kvs : List (Bytes × UInt32)) :
    convertAttributes (.map (kvs.map fun kv => (.str kv.1, .int kv.2.toNat))) = some kvs := by
  rw [convertAttributes, List.mapM_map]
  have hpair : ∀ kv : Bytes × UInt32, (do return (← convertString (.str kv.1), ← convertUInt32 (.int kv.2.toNat))) =
      (pure kv : Option (Bytes × UInt32)) := fun kv => by simp [convertString]
  exact (congrArg (List.mapM · kvs) (funext hpair)).trans ((List.mapM_pure (m := Option) (f := id)).trans
    (congrArg some (List.map_id kvs)))

@[simp] theorem Createuser.convert_pack (u : Uninit) (p : Createuser) : Createuser.convert u p.pack = some p := by
  simp [Createuser.convert, Createuser.pack, member, convertString]

/-- A packet of a class that the programs pack. -/
inductive AnyPacket where
  | connect (packet : Connect)
  | error (packet : Error)
  | listusers (packet : Listusers)
  | createuser (packet : Createuser)
  | sendplayercommand (packet : Sendplayercommand)
  | sendservercommand (packet : Sendservercommand)

namespace AnyPacket

def packetType : AnyPacket → PTYPE
  | .connect _ => .CONNECT
  | .error _ => .ERROR
  | .listusers _ => .LISTUSERS
  | .createuser _ => .CREATEUSER
  | .sendplayercommand _ => .SENDPLAYERCOMMAND
  | .sendservercommand _ => .SENDSERVERCOMMAND

def pack : AnyPacket → Obj
  | .connect packet => packet.pack
  | .error packet => packet.pack
  | .listusers packet => packet.pack
  | .createuser packet => packet.pack
  | .sendplayercommand packet => packet.pack
  | .sendservercommand packet => packet.pack

/-- The packet, on its way to `dest`. -/
def datagram (p : AnyPacket) (dest : SockAddr) : Datagram := ⟨p.packetType, p.pack, dest⟩

/-- The conversion to the class of a packet type. -/
def convert (u : Uninit) (o : Obj) : PTYPE → Option AnyPacket
  | .CONNECT => (Connect.convert u o).map .connect
  | .ERROR => (Error.convert u o).map .error
  | .LISTUSERS => (Listusers.convert u o).map .listusers
  | .CREATEUSER => (Createuser.convert u o).map .createuser
  | .SENDPLAYERCOMMAND => (Sendplayercommand.convert u o).map .sendplayercommand
  | .SENDSERVERCOMMAND => (Sendservercommand.convert u o).map .sendservercommand
  | _ => none

@[simp] theorem convert_pack (u : Uninit) (p : AnyPacket) : convert u p.pack p.packetType = some p := by
  cases p <;> simp [convert, pack, packetType]

end AnyPacket

/-- The packet in a buffer. -/
def received (mp : Msgpack) (u : Uninit) (packetBuffer : PacketBuffer) : Option AnyPacket := do
  let (packetType, data) ← getDataFromPacket mp packetBuffer
  AnyPacket.convert u data (← PTYPE.ofValue packetType)

/-- **A packet is received as it was sent, or not at all**, whatever the buffer held before. -/
theorem received_datagram {mp : Msgpack} [mp.Lawful] {p : AnyPacket} (hp : p.pack.Valid) (dest : SockAddr) (u : Uninit)
    (b : PacketBuffer) :
    received mp u (receivePacketFrom ((p.datagram dest).data mp) b) = if Fits p.pack then some p else none := by
  unfold received
  split
  · rename_i hfit
    rw [getDataFromPacket_fits mp (d := p.datagram dest) hfit hp b]
    simp [AnyPacket.datagram]
  · rename_i hfit
    rw [getDataFromPacket_of_not_fits mp (d := p.datagram dest) hfit hp b]
    rfl

/-! ## What has been read -/

/-- What is read was in the buffer. -/
theorem length_getDataFromPacket {mp : Msgpack} [mp.Lawful] {b : PacketBuffer} {packetType : UInt8} {o : Obj}
    (h : getDataFromPacket mp b = some (packetType, o)) :
    (MessagePack.encode o).length ≤ getMsgpckSizeFromPacket b ∧
      getMsgpckSizeFromPacket b ≤ MSGPCK_MAX_PAYLOAD_SIZE := by
  obtain ⟨hsize, _, hunpack⟩ := getDataFromPacket_eq_some.mp h
  have hlen := Msgpack.Lawful.length_unpack hunpack
  rw [length_getMsgpckDataFromPacket hsize] at hlen
  exact ⟨hlen, hsize⟩

/-- The ids are taken from the front of an array. -/
theorem convertIds_suffix {u ids : Uninit} {o : Obj} {rest : List Obj} (h : convertIds u o = some (ids, rest)) :
    ∃ xs, o = .array xs ∧ rest <:+ xs := by
  have hmember {γ : Type} {convert : Obj → Option γ} {keep value : γ} {xs rest : List Obj}
      (h : member convert keep xs = some (value, rest)) : rest <:+ xs := by
    cases xs with
    | nil =>
      cases h
      exact List.suffix_rfl
    | cons x xs =>
      obtain ⟨_, _, hx⟩ := Option.map_eq_some_iff.mp h
      cases hx
      exact List.suffix_cons x rest
  obtain ⟨xs, hxs, h⟩ := Option.bind_eq_some_iff.mp h
  obtain ⟨r, hr, h⟩ := Option.bind_eq_some_iff.mp h
  obtain ⟨r', hr', h⟩ := Option.bind_eq_some_iff.mp h
  cases h
  cases o with
  | array ys =>
    obtain rfl : ys = xs := Option.some.inj hxs
    exact ⟨ys, rfl, (hmember hr').trans (hmember hr)⟩
  | _ => cases hxs

theorem length_encodeList_of_suffix {rest xs : List Obj} (h : rest <:+ xs) :
    (MessagePack.encodeList rest).length ≤ (MessagePack.encodeList xs).length := by
  obtain ⟨front, rfl⟩ := h
  induction front with
  | nil => exact le_rfl
  | cons x front ih =>
    rw [List.cons_append, MessagePack.encodeList, List.length_append]
    omega

/-- A text is contained in the encoding of the array that it is a member of. -/
theorem length_command_le {u : Uninit} {o : Obj} {packet : Sendplayercommand}
    (h : Sendplayercommand.convert u o = some packet) : packet.command.length ≤ (MessagePack.encode o).length := by
  obtain ⟨⟨ids, rest⟩, hids, h⟩ := Option.bind_eq_some_iff.mp h
  obtain ⟨⟨command, rest'⟩, hcommand, h⟩ := Option.bind_eq_some_iff.mp h
  cases h
  obtain ⟨xs, rfl, hsuffix⟩ := convertIds_suffix hids
  have hlen := length_encodeList_of_suffix hsuffix
  rw [MessagePack.encode, List.length_append]
  cases rest with
  | nil =>
    cases hcommand
    exact Nat.zero_le _
  | cons x rest =>
    obtain ⟨s, hs, heq⟩ := Option.map_eq_some_iff.mp hcommand
    cases heq
    rw [MessagePack.encodeList, List.length_append] at hlen
    cases x with
    | str s' | bin s' =>
      obtain rfl : s' = command := Option.some.inj hs
      simp only [MessagePack.encode, List.length_append] at hlen ⊢
      omega
    | _ => cases hs

/-- **What has been read can be sent again**: whatever is read from a buffer fits, takes no more bytes than it was read
from, and is read again, whatever the next buffer held before. -/
theorem read_again {b : PacketBuffer} {t : PTYPE} {o : Obj}
    (h : getDataFromPacket .reference b = some (t.value, o)) (dest : SockAddr) (b' : PacketBuffer) :
    ((⟨t, o, dest⟩ : Datagram).data .reference).length ≤ PACKET_HEADER_SIZE + getMsgpckSizeFromPacket b ∧
      getDataFromPacket .reference (receivePacketFrom ((⟨t, o, dest⟩ : Datagram).data .reference) b') =
        some (t.value, o) := by
  obtain ⟨_, _, hunpack⟩ := getDataFromPacket_eq_some.mp h
  have hvalid := (MessagePack.decode_sound hunpack).1
  obtain ⟨hlen, hsize⟩ := length_getDataFromPacket h
  have hfit : Fits o := hlen.trans hsize
  refine ⟨?_, getDataFromPacket_fits .reference (d := ⟨t, o, dest⟩) hfit hvalid b'⟩
  rw [Datagram.data, length_prependPacketHeader]
  exact Nat.add_le_add_left hlen _

/-- A `CONNECT` whose numbers take nine and five bytes, though one is enough for each. -/
def longConnect : PacketBuffer :=
  receivePacketFrom [3, 15, 0, 0x92, 0xcf, 0, 0, 0, 0, 0, 0, 0, 1, 0xd2, 0, 0, 0, 0] fun _ => 0

theorem read_again_longConnect :
    ((⟨.CONNECT, Connect.pack ⟨1, 0⟩, ⟨0, 0⟩⟩ : Datagram).data .reference).length ≤
        PACKET_HEADER_SIZE + getMsgpckSizeFromPacket longConnect ∧
      getDataFromPacket .reference (receivePacketFrom
          ((⟨.CONNECT, Connect.pack ⟨1, 0⟩, ⟨0, 0⟩⟩ : Datagram).data .reference) fun _ => 0) =
        some (PTYPE.CONNECT.value, Connect.pack ⟨1, 0⟩) :=
  read_again (show getDataFromPacket .reference longConnect = some (3, Connect.pack ⟨1, 0⟩) from rfl) _ _

end Celegraph.Packets
