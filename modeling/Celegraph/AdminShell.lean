import Celegraph.Server

/-!
# The admin shell

One round of the loop of `AdminShell::Run`: what it does on the server for the line that was read. What it prints, and
what it does on the database, is left out.
-/

namespace Celegraph.AdminShell

open CxxString Utils Server

/-- What a line of the admin makes the shell do. -/
inductive Action where
  | shutdown
  | getPacketQueueSize
  | broadcastToConnections (msg : Bytes)
  | sendMessageToConnection (msg toUser : Bytes)
  /-- It prints, or acts on the database. -/
  | other
  /-- An exception escapes. -/
  | throw
  /-- A read out of bounds. -/
  | undefined

/-- The shell's action for the line `adminCommand`. -/
def action (adminCommand : Bytes) : Action :=
  match tokenfy adminCommand 32 with
  | none => .throw
  | some [] => .undefined
  | some (token₀ :: tokens) =>
    if token₀ = text "/shutdown" then .shutdown
    else if token₀ = text "/list" then
      match tokens with
      | [token₁] => if token₁ = text "packetqueue" ∨ token₁ = text "pq" then .getPacketQueueSize else .other
      | _ => .other
    else if token₀ = text "/db" then .other
    else if token₀ = text "/h" then
      match cString adminCommand 3 with
      | none => .undefined
      | some msg => .broadcastToConnections msg
    else if token₀ = text "/s" then
      match tokens with
      -- `adminTokens[1]` is out of bounds
      | [] => .undefined
      | token₁ :: _ =>
        match cString adminCommand (token₀.length + 1 + token₁.length + 1) with
        | none => .undefined
        | some msg => .sendMessageToConnection msg token₁
    else .other

/-- The code that the shell runs for an action, in the name of the admin. `Server::GetPacketQueueSize` is part of the
machine in `Queue.Machine`. -/
def Action.code : Action → ServerProg Unit
  | .broadcastToConnections msg => Server.broadcastToConnections msg (text "admin")
  | .sendMessageToConnection msg toUser => Server.sendMessageToConnection msg (text "admin") toUser
  | .throw => .throw
  | .undefined => .undefined
  | .shutdown | .getPacketQueueSize | .other => return

end Celegraph.AdminShell
