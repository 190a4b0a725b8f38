import Celegraph.Lib.CxxString
import Celegraph.Lib.MessagePack

/-!
# Packets

`Packets.h`: the packet types, the sizes of a packet, and the packet classes with their MessagePack conversions.

`MSGPACK_DEFINE` packs the members of a class as an array and converts back from one: an object that is not an array
does not convert, a shorter array assigns only the first members, what follows the last member is ignored. `int32_t`
members have no initial value, so a conversion starts from whatever the memory of the packet holds (`Uninit`).
-/

namespace Celegraph.Packets

open CxxString
open MessagePack (Obj)

/-- The packet types. -/
inductive PTYPE where
  | GENERIC
  | ACK
  | CONNECT
  | DISCONNECT
  | ERROR
  | LISTUSERS
  | SELECTUSER
  | DELETEUSER
  | CREATEUSER
  | INITIALIZEGAME
  | UPDATEPC
  | UPDATENPC
  | SENDPLAYERCOMMAND
  | SENDSERVERCOMMAND
  | SENDPLAYERACTION
  | SENDSERVERACTION
  | UNITY
  deriving DecidableEq

/-- The number of a packet type. -/
def PTYPE.value : PTYPE → UInt8
  | .GENERIC => 1
  | .ACK => 2
  | .CONNECT => 3
  | .DISCONNECT => 4
  | .ERROR => 5
  | .LISTUSERS => 8
  | .SELECTUSER => 9
  | .DELETEUSER => 10
  | .CREATEUSER => 11
  | .INITIALIZEGAME => 12
  | .UPDATEPC => 13
  | .UPDATENPC => 14
  | .SENDPLAYERCOMMAND => 15
  | .SENDSERVERCOMMAND => 16
  | .SENDPLAYERACTION => 17
  | .SENDSERVERACTION => 18
  | .UNITY => 19

/-- The packet type of a number. -/
def PTYPE.ofValue (n : UInt8) : Option PTYPE :=
  [GENERIC, ACK, CONNECT, DISCONNECT, ERROR, LISTUSERS, SELECTUSER, DELETEUSER, CREATEUSER, INITIALIZEGAME, UPDATEPC,
    UPDATENPC, SENDPLAYERCOMMAND, SENDSERVERCOMMAND, SENDPLAYERACTION, SENDSERVERACTION, UNITY].find? (·.value = n)

@[simp] theorem PTYPE.ofValue_value (t : PTYPE) : PTYPE.ofValue t.value = some t := by
  cases t <;> rfl

theorem PTYPE.value_of_ofValue {n : UInt8} {t : PTYPE} (h : PTYPE.ofValue n = some t) : t.value = n := by
  simpa using List.find?_some h

@[simp] theorem PTYPE.value_ne_zero (t : PTYPE) : t.value ≠ 0 := by
  cases t <;> decide

theorem PTYPE.ne_zero_of_ofValue {n : UInt8} {t : PTYPE} (h : PTYPE.ofValue n = some t) : n ≠ 0 :=
  value_of_ofValue h ▸ t.value_ne_zero

abbrev PACKET_MAX_SIZE : Nat := 512
abbrev PACKET_HEADER_SIZE : Nat := 3
abbrev MSGPCK_MAX_PAYLOAD_SIZE : Nat := PACKET_MAX_SIZE - PACKET_HEADER_SIZE

/-- An address: `sockaddr_in`. -/
structure SockAddr where
  sin_addr : UInt32
  sin_port : UInt16
  deriving DecidableEq

/-- The bytes of a packet buffer. -/
abbrev PacketBuffer := Fin PACKET_MAX_SIZE → UInt8

/-- A packet and its sender: `packet_t`. -/
structure Packet where
  data : PacketBuffer
  source : SockAddr

/-- A datagram on its way, with the source that it claims. -/
structure InFlight where
  source : SockAddr
  data : Bytes

/-! ## Numbers -/

theorem toInt_bounds (n : Int32) : -2 ^ 31 ≤ n.toInt ∧ n.toInt < 2 ^ 31 :=
  ⟨by simpa using n.le_toInt, by simpa using n.toInt_lt⟩

/-- An increment that does not overflow. -/
theorem toInt_succ {n : Int32} (h : n ≠ Int32.maxValue) : (n + 1).toInt = n.toInt + 1 := by
  have hne : n.toInt ≠ 2 ^ 31 - 1 := fun hn => h (Int32.toInt_inj.mp hn)
  have hbounds := toInt_bounds n
  rw [Int32.toInt_add, show (1 : Int32).toInt = 1 from rfl, Int.bmod_eq_of_le] <;> omega

/-! ## Conversions -/

/-- What the memory of a packet's `int32_t` members holds before the conversion. -/
structure Uninit where
  packetId : Int32
  sessionId : Int32
  deriving DecidableEq

/-- To `int32_t`; `none` is a type error. -/
def convertInt32 : Obj → Option Int32
  | .int z => if -2 ^ 31 ≤ z ∧ z < 2 ^ 31 then some (Int32.ofInt z) else none
  | _ => none

/-- To `uint32_t`. -/
def convertUInt32 : Obj → Option UInt32
  | .int z => if 0 ≤ z ∧ z < 2 ^ 32 then some (UInt32.ofNat z.toNat) else none
  | _ => none

/-- To `std::string`. -/
def convertString : Obj → Option Bytes
  | .str s | .bin s => some s
  | _ => none

/-- To `std::vector<std::string>`. -/
def convertStrings : Obj → Option (List Bytes)
  | .array xs => xs.mapM convertString
  | _ => none

/-- To `std::map<std::string, uint32_t>`. -/
def convertAttributes : Obj → Option (List (Bytes × UInt32))
  | .map kvs => kvs.mapM fun kv => do return (← convertString kv.1, ← convertUInt32 kv.2)
  | _ => none

/-- The next member of a class from the rest of an array: it keeps its value if the array has ended. -/
def member {γ : Type} (convert : Obj → Option γ) (keep : γ) : List Obj → Option (γ × List Obj)
  | [] => some (keep, [])
  | x :: xs => (convert x).map (·, xs)

/-- The elements of an array. -/
def elements : Obj → Option (List Obj)
  | .array xs => some xs
  | _ => none

/-- The members `packetId` and `sessionId`, with which every class starts, and the rest of the array. -/
def convertIds (u : Uninit) (o : Obj) : Option (Uninit × List Obj) := do
  let (packetId, xs) ← member convertInt32 u.packetId (← elements o)
  let (sessionId, xs) ← member convertInt32 u.sessionId xs
  return (⟨packetId, sessionId⟩, xs)

def packInt32 (n : Int32) : Obj := .int n.toInt

/-! ## Packet classes -/

structure Generic where
  packetId : Int32
  sessionId : Int32
  message : Bytes

def Generic.convert (u : Uninit) (o : Obj) : Option Generic := do
  let (ids, xs) ← convertIds u o
  let (message, _) ← member convertString [] xs
  return ⟨ids.packetId, ids.sessionId, message⟩

structure Ack where
  packetId : Int32
  sessionId : Int32

def Ack.convert (u : Uninit) (o : Obj) : Option Ack := do
  let (ids, _) ← convertIds u o
  return ⟨ids.packetId, ids.sessionId⟩

structure Connect where
  packetId : Int32
  sessionId : Int32

def Connect.convert (u : Uninit) (o : Obj) : Option Connect := do
  let (ids, _) ← convertIds u o
  return ⟨ids.packetId, ids.sessionId⟩

def Connect.pack (p : Connect) : Obj := .array [packInt32 p.packetId, packInt32 p.sessionId]

structure Disconnect where
  packetId : Int32
  sessionId : Int32

def Disconnect.convert (u : Uninit) (o : Obj) : Option Disconnect := do
  let (ids, _) ← convertIds u o
  return ⟨ids.packetId, ids.sessionId⟩

structure Error where
  packetId : Int32
  sessionId : Int32
  errorMsg : Bytes

def Error.pack (p : Error) : Obj := .array [packInt32 p.packetId, packInt32 p.sessionId, .str p.errorMsg]

structure Listusers where
  packetId : Int32
  sessionId : Int32
  users : List Bytes

def Listusers.convert (u : Uninit) (o : Obj) : Option Listusers := do
  let (ids, xs) ← convertIds u o
  let (users, _) ← member convertStrings [] xs
  return ⟨ids.packetId, ids.sessionId, users⟩

def Listusers.pack (p : Listusers) : Obj :=
  .array [packInt32 p.packetId, packInt32 p.sessionId, .array (p.users.map .str)]

structure Selectuser where
  packetId : Int32
  sessionId : Int32
  user : Bytes

def Selectuser.convert (u : Uninit) (o : Obj) : Option Selectuser := do
  let (ids, xs) ← convertIds u o
  let (user, _) ← member convertString [] xs
  return ⟨ids.packetId, ids.sessionId, user⟩

structure Createuser where
  packetId : Int32
  sessionId : Int32
  firstName : Bytes
  lastName : Bytes
  attributes : List (Bytes × UInt32)

def Createuser.convert (u : Uninit) (o : Obj) : Option Createuser := do
  let (ids, xs) ← convertIds u o
  let (firstName, xs) ← member convertString [] xs
  let (lastName, xs) ← member convertString [] xs
  let (attributes, _) ← member convertAttributes [] xs
  return ⟨ids.packetId, ids.sessionId, firstName, lastName, attributes⟩

def Createuser.pack (p : Createuser) : Obj :=
  .array [packInt32 p.packetId, packInt32 p.sessionId, .str p.firstName, .str p.lastName,
    .map (p.attributes.map fun kv => (.str kv.1, .int kv.2.toNat))]

structure Sendplayercommand where
  packetId : Int32
  sessionId : Int32
  command : Bytes

def Sendplayercommand.convert (u : Uninit) (o : Obj) : Option Sendplayercommand := do
  let (ids, xs) ← convertIds u o
  let (command, _) ← member convertString [] xs
  return ⟨ids.packetId, ids.sessionId, command⟩

def Sendplayercommand.pack (p : Sendplayercommand) : Obj :=
  .array [packInt32 p.packetId, packInt32 p.sessionId, .str p.command]

structure Sendservercommand where
  packetId : Int32
  sessionId : Int32
  command : Bytes

def Sendservercommand.convert (u : Uninit) (o : Obj) : Option Sendservercommand := do
  let (ids, xs) ← convertIds u o
  let (command, _) ← member convertString [] xs
  return ⟨ids.packetId, ids.sessionId, command⟩

def Sendservercommand.pack (p : Sendservercommand) : Obj :=
  .array [packInt32 p.packetId, packInt32 p.sessionId, .str p.command]

end Celegraph.Packets
