import Celegraph.Server.Relays

/-!
# Handlers run alone

What the programs of `Server.lean` do when no other thread takes a step: one lemma for each part of a handler, with the
state it leaves, the mutexes it holds and the packets it sends.
-/

namespace Celegraph.Server

open CxxString Packets Utils Prog
open MessagePack (Obj)

variable {s : Server} {P : Type} {convert : Obj → Option P} {sessionId : P → Int32} {refuse : ServerProg Unit}
  {act : P → ServerProg Unit} {data : Obj} {client : SockAddr}

/-- A packet that does not convert is answered with an error. -/
theorem run_sessionHandler_none (h : convert data = none) :
    (sessionHandler convert sessionId refuse act data client).run s held =
      .ok () s held [errorTo (text "Failed to convert/cast msgpack object") client] := by
  simp [sessionHandler, h]

/-- For a session that is not live the handler refuses. -/
theorem run_sessionHandler_refuse {packet : P} {out : List Datagram} (h : convert data = some packet)
    (hlive : sessionId packet ∉ s.serverState.sessions)
    (hrefuse : refuse.run s [.serverState] = .ok () s [.serverState] out) :
    (sessionHandler convert sessionId refuse act data client).run s [] = .ok () s [] out := by
  simp only [sessionHandler, h]
  refine run_withLock_of_ok (by simp) ?_
  simpa [run, ServerState.verifySession, hlive] using hrefuse

/-- For a live session it acts. -/
theorem run_sessionHandler_act {packet : P} (h : convert data = some packet)
    (hlive : sessionId packet ∈ s.serverState.sessions) :
    (sessionHandler convert sessionId refuse act data client).run s [] =
      ((act packet).run s [.serverState]).andThen fun a s' held' =>
        if Mutex.serverState ∈ held' then .ok a s' (held'.erase .serverState) [] else .undefined := by
  simp only [sessionHandler, h]
  rw [run_withLock (by simp)]
  simp [run, ServerState.verifySession, hlive]

/-- A handler that neither refuses nor acts. -/
theorem run_sessionHandler_silent {packet : P} (h : convert data = some packet) :
    (sessionHandler convert sessionId (return) (fun _ => return) data client).run s [] = .ok () s [] [] := by
  by_cases hlive : sessionId packet ∈ s.serverState.sessions
  · simp [run_sessionHandler_act h hlive]
  · exact run_sessionHandler_refuse h hlive rfl

/-- A `CONNECT` makes a session live, records the connection, and is answered with the session. -/
theorem run_connectHandler {u : Uninit} {packet : Connect} (h : Connect.convert u data = some packet) :
    (connectHandler u data client).run s [] =
      match s.serverState.generateSession packet.sessionId with
      | (none, _) => .undefined
      | (some newSession, serverState) =>
        .ok () ⟨serverState, s.activeConnections.insert newSession client⟩ [] [connectReply newSession client] := by
  obtain ⟨⟨newSession, serverState⟩, hg⟩ : ∃ r, s.serverState.generateSession packet.sessionId = r := ⟨_, rfl⟩
  simp only [connectHandler, h, acquire_bind, perform_bind, run, ServerOp.apply_generateSession, hg]
  cases newSession with
  | none => rfl
  | some newSession => rfl

end Celegraph.Server
