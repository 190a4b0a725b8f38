import Celegraph.Client
import Celegraph.Frame

/-!
# The client between its two threads

`Endpoint`: the main loop, and the queue that `PacketListener` fills for it. `hear` and `take` are the two ends of the
queue: `PacketListener` receives a packet, and `WaitOnPacketQueue` returns one.
-/

namespace Celegraph.Client

open CxxString Packets Utils

/-- A packet that was sent, received into a packet buffer. -/
def received (mp : Msgpack) (d : Datagram) (buffer : PacketBuffer) (source : SockAddr) : Packet :=
  ⟨receivePacketFrom (d.data mp) buffer, source⟩

/-- The client, where neither thread is in the middle of an operation on the queue. -/
structure Endpoint where
  client : Client
  /-- The packet buffer of `PacketListener`. -/
  buffer : PacketBuffer
  packetQueue : List Packet

namespace Endpoint

variable (mp : Msgpack) (server : SockAddr) (e : Endpoint) (u : Uninit)

/-- `PacketListener` has received a packet. -/
def hear (p : Packet) : Endpoint :=
  match packetListener mp u p with
  | .queued => { e with buffer := p.data, packetQueue := e.packetQueue ++ [p] }
  | .printed => { e with buffer := p.data }
  | .terminated => { e with client := { e.client with loc := .terminated } }

/-- `WaitOnPacketQueue` returns the first packet of the queue, and the main loop goes on with it. -/
def take : Option Endpoint :=
  match e.packetQueue with
  | [] => none
  | p :: rest => (e.client.step mp server (.packet u p)).map fun r => { e with client := r.1, packetQueue := rest }

variable {mp server e u}

theorem take_eq_some {e' : Endpoint} (h : e.take mp server u = some e') : ∃ p rest c' out,
    e.packetQueue = p :: rest ∧ e.client.step mp server (.packet u p) = some (c', out) ∧
      e' = { e with client := c', packetQueue := rest } := by
  unfold take at h
  split at h
  · cases h
  · rename_i p rest hqueue
    obtain ⟨⟨c', out⟩, hst, rfl⟩ := Option.map_eq_some_iff.mp h
    exact ⟨p, rest, c', out, hqueue, hst, rfl⟩

/-- **What the listener does with a packet**: an exception ends the client, or a message of another client is printed,
or the packet is queued. -/
theorem hear_cases (e : Endpoint) (u : Uninit) (d : Datagram) (buffer : PacketBuffer) (source : SockAddr) :
    e.hear mp u (received mp d buffer source) = { e with client := { e.client with loc := .terminated } } ∨
    (d.packetType = .SENDSERVERCOMMAND ∧
      e.hear mp u (received mp d buffer source) = { e with buffer := (received mp d buffer source).data }) ∨
    (d.packetType ≠ .SENDSERVERCOMMAND ∧ e.hear mp u (received mp d buffer source) = { e with
      buffer := (received mp d buffer source).data
      packetQueue := e.packetQueue ++ [received mp d buffer source] }) := by
  unfold hear packetListener
  cases hget : getDataFromPacket mp (received mp d buffer source).data with
  | none => exact .inl rfl
  | some r =>
    obtain ⟨packetType, data⟩ := r
    obtain rfl := packetType_of_getDataFromPacket hget
    by_cases htype : d.packetType = .SENDSERVERCOMMAND
    · cases hconv : Sendservercommand.convert u data with
      | none => exact .inl (by simp [htype, hconv])
      | some message => exact .inr (.inl ⟨htype, by simp [htype, hconv]⟩)
    · have hvalue : d.packetType.value ≠ PTYPE.SENDSERVERCOMMAND.value := by
        intro h
        have hof := congrArg PTYPE.ofValue h
        rw [PTYPE.ofValue_value, PTYPE.ofValue_value] at hof
        exact htype (Option.some.inj hof)
      exact .inr (.inr ⟨htype, by simp [hvalue]⟩)

end Endpoint

end Celegraph.Client
