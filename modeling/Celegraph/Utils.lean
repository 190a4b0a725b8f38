import Celegraph.Lib.Prog
import Celegraph.Packets

/-!
# Utilities

`Utils.cpp`, as far as the server uses it.

- `tokenfy`: the loop over the delimiters; it is the splitting at the delimiter (`tokenfy_eq`).
- `Msgpack`: the MessagePack library, a parameter. `none` is an exception of `unpack`. `Msgpack.reference` is the
  format of `MessagePack.lean`.
- The packet header: one byte for the type, two for the size of the payload, low byte first. `getDataFromPacket`
  reads a packet from a buffer, `Datagram.data` is what `sendDataTo` hands to the socket.
-/

namespace Celegraph.Utils

open CxxString Packets
open MessagePack (Obj)

/-! ## Tokens -/

/-- The loop of `Tokenfy`, at `start`, with the position of the next delimiter. Each round takes one unit of fuel. -/
def tokenfyLoop (s : Bytes) (delim : UInt8) : Nat → Nat → Option Nat → Option (List Bytes)
  | 0, _, _ => none
  | fuel + 1, start, stop => do
    let token ← substr s start (stop.map (· - start))
    match stop with
    | none => return [token]
    | some stop => return token :: (← tokenfyLoop s delim fuel (stop + 1) (findFirstOf s delim (stop + 1)))

/-- The tokens of `s`; `none` if `substr` throws. The loop visits each position at most once. -/
def tokenfy (s : Bytes) (delim : UInt8) : Option (List Bytes) :=
  tokenfyLoop s delim (s.length + 1) 0 (findFirstOf s delim 0)

theorem tokenfyLoop_eq (s : Bytes) (delim : UInt8) (fuel start : Nat) (hs : start ≤ s.length)
    (hf : s.length < fuel + start) :
    tokenfyLoop s delim fuel start (findFirstOf s delim start) = some ((s.drop start).splitOn delim) := by
  induction fuel generalizing start with
  | zero => omega
  | succ fuel ih =>
    cases hfind : (s.drop start).idxOf? delim with
    | none =>
      have hnot : delim ∉ s.drop start := List.idxOf?_eq_none_iff.mp hfind
      simp [tokenfyLoop, findFirstOf, hfind, substr, hs, List.splitOn_eq_singleton hnot]
    | some k =>
      obtain ⟨hk, hkd, hbefore⟩ := List.idxOf?_eq_some_iff.mp hfind
      have hk' : start + k < s.length := by simpa using Nat.add_lt_of_lt_sub' (by simpa using hk)
      have hnot : delim ∉ (s.drop start).take k := by
        intro hmem
        obtain ⟨j, hj, hjd⟩ := List.mem_take_iff_getElem.mp hmem
        exact hbefore j (by omega) hjd
      -- the token, the delimiter, and what the next round starts from
      have hsplit : s.drop start = (s.drop start).take k ++ delim :: s.drop (start + k + 1) := by
        conv_lhs => rw [← List.take_append_drop k (s.drop start), ← List.getElem_cons_drop hk, hkd, List.drop_drop]
        rfl
      have hstart : findFirstOf s delim start = some (start + k) := by simp [findFirstOf, hfind]
      have hrest := ih (start + k + 1) (by omega) (by omega)
      rw [hstart, hsplit, List.splitOn_append_cons_self_of_not_mem hnot]
      simp [tokenfyLoop, substr, hs, hrest]

/-- **`Tokenfy` is the splitting at the delimiter.** -/
theorem tokenfy_eq (s : Bytes) (delim : UInt8) : tokenfy s delim = some (s.splitOn delim) :=
  tokenfyLoop_eq s delim (s.length + 1) 0 (Nat.zero_le _) (by omega)

example : tokenfy (text " abc.def.ghi ") 46 = some [text " abc", text "def", text "ghi "] := by decide

/-! ## MessagePack -/

/-- The MessagePack library. Unpacking throws on the empty input. -/
structure Msgpack where
  pack : Obj → Bytes
  unpack : Bytes → Option Obj
  unpack_nil : unpack [] = none

/-- The library that follows the format. -/
def Msgpack.reference : Msgpack := ⟨MessagePack.encode, MessagePack.decode, MessagePack.decode_nil⟩

/-! ## The packet header -/

/-- The buffer after `recvfrom` has written the datagram `d` into it, cut at the end of the buffer. -/
def receivePacketFrom (d : Bytes) (packetBuffer : PacketBuffer) : PacketBuffer := fun i =>
  if h : i < d.length then d[i] else packetBuffer i

def getPacketTypeFromPacket (packetBuffer : PacketBuffer) : UInt8 := packetBuffer 0

/-- The `uint16_t` at index 1, little-endian. -/
def getMsgpckSizeFromPacket (packetBuffer : PacketBuffer) : Nat :=
  (packetBuffer 1).toNat + 256 * (packetBuffer 2).toNat

/-- The payload. -/
def getMsgpckDataFromPacket (packetBuffer : PacketBuffer) : Bytes :=
  if h : getMsgpckSizeFromPacket packetBuffer ≤ MSGPCK_MAX_PAYLOAD_SIZE then
    List.ofFn fun i : Fin (getMsgpckSizeFromPacket packetBuffer) =>
      packetBuffer ⟨PACKET_HEADER_SIZE + i, by
        have := i.isLt
        simp only [MSGPCK_MAX_PAYLOAD_SIZE, PACKET_MAX_SIZE, PACKET_HEADER_SIZE] at h ⊢
        omega⟩
  else []

/-- The type and the payload of a packet; `none` if `unpack` throws. -/
def getDataFromPacket (mp : Msgpack) (packetBuffer : PacketBuffer) : Option (UInt8 × Obj) := do
  let packetType :=
    if MSGPCK_MAX_PAYLOAD_SIZE < getMsgpckSizeFromPacket packetBuffer then 0
    else getPacketTypeFromPacket packetBuffer
  let o ← mp.unpack (getMsgpckDataFromPacket packetBuffer)
  return (packetType, o)

/-- The header in front of a payload; the size is cut to a `uint16_t`. -/
def prependPacketHeader (s : Bytes) (packetType : UInt8) : Bytes :=
  packetType :: s.length.toUInt8 :: (s.length / 256).toUInt8 :: s

/-! ## Sending -/

/-- A packet sent. -/
structure Datagram where
  packetType : PTYPE
  body : Obj
  dest : SockAddr

/-- The bytes handed to `sendto`. -/
def Datagram.data (mp : Msgpack) (d : Datagram) : Bytes := prependPacketHeader (mp.pack d.body) d.packetType.value

section Sending

variable {Op : Type → Type} {μ : Type}

def sendDataTo (body : Obj) (packetType : PTYPE) (dest : SockAddr) : Prog Op μ Datagram Unit :=
  .output ⟨packetType, body, dest⟩

/-- The packet that `SendErrorTo` sends. -/
def errorTo (errorMsg : Bytes) (dest : SockAddr) : Datagram :=
  ⟨.ERROR, Error.pack { packetId := 0, sessionId := 0, errorMsg }, dest⟩

def sendErrorTo (errorMsg : Bytes) (dest : SockAddr) : Prog Op μ Datagram Unit :=
  sendDataTo (errorTo errorMsg dest).body .ERROR dest

end Sending

end Celegraph.Utils
