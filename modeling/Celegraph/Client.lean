import Celegraph.Utils

/-!
# The client

`Client.cpp`: the main loop as a transition function (`Client.step`), and what `PacketListener` does with a packet.

- `Loc`: where the main loop is, before it reads a line, waits for a packet, or goes on by itself.
- `Message`: a packet that the main loop builds; `Sending`: this, and the packet that it sends.
- `Step`: the transitions, one constructor for each operation (`step_sound`).

What the loop prints is left out. An exception that is not caught ends the client (`Loc.terminated`).
-/

namespace Celegraph

open CxxString Packets Utils
open MessagePack (Obj)

namespace Client

/-- Where the main loop is: before the operation named. -/
inductive Loc where
  /-- State 0, before `getline`. -/
  | connect
  /-- State 0, before `WaitOnPacketQueue`. -/
  | connectReply
  /-- State 1. -/
  | connected
  /-- State 2, before the next request. -/
  | listUsers
  /-- State 2, before `WaitOnPacketQueue`, with what `buffer` holds. -/
  | listReply (buffer : Obj)
  | firstName (buffer : Obj)
  | lastName (buffer : Obj) (firstName : Bytes)
  /-- State 3, before `getline`. -/
  | command
  /-- State 3, before `WaitOnPacketQueue`. -/
  | commandReply
  /-- `running` is false. -/
  | stopped
  /-- An exception has escaped. -/
  | terminated

/-- A packet that the main loop builds. -/
inductive Message where
  | connect (packet : Connect)
  | listUsers (p : Listusers)
  | createUser (newUser : Createuser)
  | sendPlayerCommand (playerCommand : Sendplayercommand)

namespace Message

def packetType : Message → PTYPE
  | .connect _ => .CONNECT
  | .listUsers _ => .LISTUSERS
  | .createUser _ => .CREATEUSER
  | .sendPlayerCommand _ => .SENDPLAYERCOMMAND

def pack : Message → Obj
  | .connect packet => packet.pack
  | .listUsers p => p.pack
  | .createUser newUser => newUser.pack
  | .sendPlayerCommand playerCommand => playerCommand.pack

def packetId : Message → Int32
  | .connect packet => packet.packetId
  | .listUsers p => p.packetId
  | .createUser newUser => newUser.packetId
  | .sendPlayerCommand playerCommand => playerCommand.packetId

end Message

/-- A packet sent, with the message built for it. -/
structure Sending where
  built : Message
  datagram : Datagram

/-- What the main loop reads. -/
inductive Input where
  | run
  /-- A line of `std::cin`. -/
  | line (s : Bytes)
  /-- A packet of the queue. `u` is what the packet that it is converted to holds before. -/
  | packet (u : Uninit) (retPacket : Packet)

end Client

/-- The variables of `main`. -/
structure Client where
  session : Int32
  packetNumber : Int32
  loc : Client.Loc

namespace Client

def init : Client := ⟨0, 1, .connect⟩

section Steps

variable (mp : Msgpack) (server : SockAddr) (c : Client)

/-- `packetNumber++`, after `built` has taken the number, and the contents of a buffer sent under the type of `built`. -/
def send (built : Message) (buffer : Obj) (loc : Loc) : Option (Client × Option Sending) :=
  -- `packetNumber++` overflows
  if c.packetNumber = Int32.maxValue then none
  else some ({ c with packetNumber := c.packetNumber + 1, loc }, some ⟨built, built.packetType, buffer, server⟩)

/-- `msgpack::pack` throws on a string of `2 ^ 32` bytes. -/
def Packable (s : Bytes) : Prop := s.length < 2 ^ 32

instance (s : Bytes) : Decidable (Packable s) := inferInstanceAs (Decidable (_ < _))

/-! ## State 0 -/

/-- The answers that connect. -/
def Accepts (response : Bytes) : Prop := response = text "y" ∨ response = text "Y" ∨ response = []

instance (response : Bytes) : Decidable (Accepts response) := inferInstanceAs (Decidable (_ ∨ _))

def connectRequest : Message := .connect { packetId := c.packetNumber, sessionId := c.session }

def connectLine (response : Bytes) : Option (Client × Option Sending) :=
  if Accepts response then c.send server c.connectRequest c.connectRequest.pack .connectReply
  else some ({ c with loc := .stopped }, none)

def connectPacket (u : Uninit) (retPacket : Packet) : Client :=
  match getDataFromPacket mp retPacket.data with
  | none => { c with loc := .terminated }
  | some (packetType, returnData) =>
    if packetType ≠ PTYPE.CONNECT.value then { c with loc := .connect }
    else match Connect.convert u returnData with
      | none => { c with loc := .terminated }
      | some returnConnectPacket => { c with session := returnConnectPacket.sessionId, loc := .connected }

/-! ## State 2 -/

def listUsersRequest : Message := .listUsers { packetId := c.packetNumber, sessionId := c.session, users := [] }

def listUsersRun : Option (Client × Option Sending) :=
  c.send server c.listUsersRequest c.listUsersRequest.pack (.listReply c.listUsersRequest.pack)

/-- The type of the packet is not looked at. -/
def listUsersPacket (buffer : Obj) (u : Uninit) (retPacket : Packet) : Client :=
  match getDataFromPacket mp retPacket.data with
  | none => { c with loc := .terminated }
  | some (_, deserialized) =>
    match Listusers.convert u deserialized with
    | none => { c with loc := .terminated }
    | some userList =>
      if userList.users.length = 0 then { c with loc := .firstName buffer } else { c with loc := .command }

def newUser (firstName lastName : Bytes) : Message :=
  .createUser { packetId := c.packetNumber, sessionId := c.session, firstName, lastName, attributes := [] }

/-- The new user is packed into `buffer2`, and `buffer` is sent. -/
def lastNameLine (buffer : Obj) (firstName lastName : Bytes) : Option (Client × Option Sending) :=
  if Packable firstName ∧ Packable lastName then c.send server (c.newUser firstName lastName) buffer .listUsers
  else some ({ c with loc := .terminated }, none)

/-! ## State 3 -/

def playerCommand (command : Bytes) : Message :=
  .sendPlayerCommand { packetId := c.packetNumber, sessionId := c.session, command }

def commandLine (command : Bytes) : Option (Client × Option Sending) :=
  if command = [] then some (c, none)
  else if Packable command then c.send server (c.playerCommand command) (c.playerCommand command).pack .commandReply
  else some ({ c with loc := .terminated }, none)

/-- Neither the type nor the number of the packet is looked at. -/
def commandPacket (u : Uninit) (retPacket : Packet) : Client :=
  match getDataFromPacket mp retPacket.data with
  | none => { c with loc := .terminated }
  | some (_, deserialized) =>
    match Sendplayercommand.convert u deserialized with
    | none => { c with loc := .terminated }
    | some _ => { c with loc := .command }

/-! ## The main loop -/

/-- What the main loop does up to the next input, and the packet that it sends. `none`: the input is not the one that
it waits for, or `packetNumber` overflows. -/
def step : Input → Option (Client × Option Sending)
  | .run =>
    match c.loc with
    | .connected => some ({ c with loc := .listUsers }, none)
    | .listUsers => c.listUsersRun server
    | _ => none
  | .line s =>
    match c.loc with
    | .connect => c.connectLine server s
    | .firstName buffer => some ({ c with loc := .lastName buffer s }, none)
    | .lastName buffer firstName => c.lastNameLine server buffer firstName s
    | .command => c.commandLine server s
    | _ => none
  | .packet u retPacket =>
    match c.loc with
    | .connectReply => some (c.connectPacket mp u retPacket, none)
    | .listReply buffer => some (c.listUsersPacket mp buffer u retPacket, none)
    | .commandReply => some (c.commandPacket mp u retPacket, none)
    | _ => none

end Steps

/-! ## What a step does -/

section Sound

variable {mp : Msgpack} {server : SockAddr} {c c' : Client} {a : Input} {out : Option Sending}

/-- The client after a message, and the message sent with the contents of a buffer. -/
inductive Sends (server : SockAddr) (c : Client) (built : Message) (buffer : Obj) (loc : Loc) :
    Client → Option Sending → Prop
  | mk : c.packetNumber ≠ Int32.maxValue → Sends server c built buffer loc
      { c with packetNumber := c.packetNumber + 1, loc } (some ⟨built, built.packetType, buffer, server⟩)

theorem send_sound {built : Message} {buffer : Obj} {loc : Loc} (h : c.send server built buffer loc = some (c', out)) :
    Sends server c built buffer loc c' out := by
  unfold send at h
  split at h
  · cases h
  · rename_i hmax
    cases h
    exact .mk hmax

/-- The steps, one constructor for each operation. -/
inductive Step (mp : Msgpack) (server : SockAddr) (c : Client) : Input → Client → Option Sending → Prop
  | connect {c' : Client} {out : Option Sending} (response : Bytes) : c.loc = .connect → Accepts response →
      Sends server c c.connectRequest c.connectRequest.pack .connectReply c' out →
      Step mp server c (.line response) c' out
  | stop (response : Bytes) : c.loc = .connect → Step mp server c (.line response) { c with loc := .stopped } none
  | connectPacket (u : Uninit) (p : Packet) : c.loc = .connectReply →
      Step mp server c (.packet u p) (c.connectPacket mp u p) none
  | connected : c.loc = .connected → Step mp server c .run { c with loc := .listUsers } none
  | listUsers {c' : Client} {out : Option Sending} : c.loc = .listUsers →
      Sends server c c.listUsersRequest c.listUsersRequest.pack (.listReply c.listUsersRequest.pack) c' out →
      Step mp server c .run c' out
  | listUsersPacket (buffer : Obj) (u : Uninit) (p : Packet) : c.loc = .listReply buffer →
      Step mp server c (.packet u p) (c.listUsersPacket mp buffer u p) none
  | firstName (buffer : Obj) (firstName : Bytes) : c.loc = .firstName buffer →
      Step mp server c (.line firstName) { c with loc := .lastName buffer firstName } none
  | lastName {c' : Client} {out : Option Sending} (buffer : Obj) (firstName lastName : Bytes) :
      c.loc = .lastName buffer firstName → Packable firstName → Packable lastName →
      Sends server c (c.newUser firstName lastName) buffer .listUsers c' out →
      Step mp server c (.line lastName) c' out
  | command {c' : Client} {out : Option Sending} (command : Bytes) :
      c.loc = .command → command ≠ [] → Packable command →
      Sends server c (c.playerCommand command) (c.playerCommand command).pack .commandReply c' out →
      Step mp server c (.line command) c' out
  | empty : c.loc = .command → Step mp server c (.line []) c none
  | commandPacket (u : Uninit) (p : Packet) : c.loc = .commandReply →
      Step mp server c (.packet u p) (c.commandPacket mp u p) none
  | longName (buffer : Obj) (firstName lastName : Bytes) : c.loc = .lastName buffer firstName →
      ¬(Packable firstName ∧ Packable lastName) →
      Step mp server c (.line lastName) { c with loc := .terminated } none
  | longCommand (command : Bytes) : c.loc = .command → ¬Packable command →
      Step mp server c (.line command) { c with loc := .terminated } none

theorem connectLine_sound {s : Bytes} (hloc : c.loc = .connect) (h : c.connectLine server s = some (c', out)) :
    Step mp server c (.line s) c' out := by
  unfold connectLine at h
  split at h
  · rename_i hs
    exact .connect s hloc hs (send_sound h)
  · cases h
    exact .stop s hloc

theorem lastNameLine_sound {buffer : Obj} {firstName s : Bytes} (hloc : c.loc = .lastName buffer firstName)
    (h : c.lastNameLine server buffer firstName s = some (c', out)) : Step mp server c (.line s) c' out := by
  unfold lastNameLine at h
  split at h
  · rename_i hs
    exact .lastName buffer firstName s hloc hs.1 hs.2 (send_sound h)
  · rename_i hs
    cases h
    exact .longName buffer firstName s hloc hs

theorem commandLine_sound {s : Bytes} (hloc : c.loc = .command) (h : c.commandLine server s = some (c', out)) :
    Step mp server c (.line s) c' out := by
  unfold commandLine at h
  split at h
  · rename_i hs
    cases h
    exact hs ▸ .empty hloc
  · rename_i hs
    split at h
    · rename_i hpack
      exact .command s hloc hs hpack (send_sound h)
    · rename_i hpack
      cases h
      exact .longCommand s hloc hpack

/-- Everything a step can do. -/
theorem step_sound (h : c.step mp server a = some (c', out)) : Step mp server c a c' out := by
  cases a with
  | run =>
    simp only [step] at h
    split at h
    · rename_i hloc; cases h; exact .connected hloc
    · rename_i hloc; exact .listUsers hloc (send_sound h)
    · cases h
  | line s =>
    simp only [step] at h
    split at h
    · rename_i hloc; exact connectLine_sound hloc h
    · rename_i buffer hloc; cases h; exact .firstName buffer s hloc
    · rename_i hloc; exact lastNameLine_sound hloc h
    · rename_i hloc; exact commandLine_sound hloc h
    · cases h
  | packet u p =>
    simp only [step] at h
    split at h
    · rename_i hloc; cases h; exact .connectPacket u p hloc
    · rename_i buffer hloc; cases h; exact .listUsersPacket buffer u p hloc
    · rename_i hloc; cases h; exact .commandPacket u p hloc
    · cases h

theorem step_connectReply (hloc : c.loc = .connectReply) (u : Uninit) (p : Packet) :
    c.step mp server (.packet u p) = some (c.connectPacket mp u p, none) := by
  simp only [step, hloc]

theorem step_listReply {buffer : Obj} (hloc : c.loc = .listReply buffer) (u : Uninit) (p : Packet) :
    c.step mp server (.packet u p) = some (c.listUsersPacket mp buffer u p, none) := by
  simp only [step, hloc]

theorem step_commandReply (hloc : c.loc = .commandReply) (u : Uninit) (p : Packet) :
    c.step mp server (.packet u p) = some (c.commandPacket mp u p, none) := by
  simp only [step, hloc]

/-- A packet that is taken changes neither the number of the next packet nor, but for a `CONNECT`, the session. -/
theorem listUsersPacket_cases (mp : Msgpack) (c : Client) (buffer : Obj) (u : Uninit) (p : Packet) :
    c.listUsersPacket mp buffer u p = { c with loc := .terminated } ∨
    c.listUsersPacket mp buffer u p = { c with loc := .firstName buffer } ∨
    c.listUsersPacket mp buffer u p = { c with loc := .command } := by
  unfold listUsersPacket
  split
  · exact .inl rfl
  · split
    · exact .inl rfl
    · split
      · exact .inr (.inl rfl)
      · exact .inr (.inr rfl)

theorem commandPacket_cases (mp : Msgpack) (c : Client) (u : Uninit) (p : Packet) :
    c.commandPacket mp u p = { c with loc := .terminated } ∨ c.commandPacket mp u p = { c with loc := .command } := by
  unfold commandPacket
  split
  · exact .inl rfl
  · split
    · exact .inl rfl
    · exact .inr rfl

theorem connectPacket_cases (mp : Msgpack) (c : Client) (u : Uninit) (p : Packet) :
    c.connectPacket mp u p = { c with loc := .terminated } ∨ c.connectPacket mp u p = { c with loc := .connect } ∨
    ∃ session, c.connectPacket mp u p = { c with session, loc := .connected } := by
  unfold connectPacket
  split
  · exact .inl rfl
  · split
    · exact .inr (.inl rfl)
    · split
      · exact .inl rfl
      · exact .inr (.inr ⟨_, rfl⟩)

end Sound

/-! ## The listener -/

/-- What `PacketListener` does with a packet: it queues the packet, prints the message of another client, or lets an
exception escape. -/
inductive Heard where
  | queued
  | printed
  | terminated
  deriving DecidableEq

def packetListener (mp : Msgpack) (u : Uninit) (p : Packet) : Heard :=
  match getDataFromPacket mp p.data with
  | none => .terminated
  | some (packetType, deserialized) =>
    if packetType = PTYPE.SENDSERVERCOMMAND.value then
      if (Sendservercommand.convert u deserialized).isSome then .printed else .terminated
    else .queued

end Client

end Celegraph
