import Celegraph.Lib.Prog
import Celegraph.Packets
import Mathlib.Data.Finset.Basic
import Std.Data.TreeMap.Lemmas

/-!
# The tables of the server

- `ServerState`: the session tables of `ServerState.cpp` and the functions on them. A function that returns a value
  returns it with the new state.
- `Server`: these, and the connections of `Server.h`. `ServerOp` lists the calls that the handlers make on them, each
  one step of the thread that makes it (`Effect ServerOp Server`).
-/

namespace Celegraph

open CxxString Packets

/-- The session tables. -/
structure ServerState where
  sessions : Finset Int32
  activeSessions : Finset Int32
  sessionAccounts : Std.TreeMap Int32 Bytes
  curSession : Int32

namespace ServerState

def init : ServerState where
  sessions := ∅
  activeSessions := ∅
  sessionAccounts := ∅
  curSession := 1

variable (s : ServerState) (sessionId : Int32)

def verifySession : Bool := sessionId ∈ s.sessions

def verifyActiveSession : Bool := sessionId ∈ s.activeSessions

def disconnectSession : ServerState :=
  { s with activeSessions := s.activeSessions.erase sessionId, sessions := s.sessions.erase sessionId }

def selectPlayer : ServerState :=
  if sessionId ∈ s.sessions then { s with activeSessions := insert sessionId s.activeSessions } else s

/-- `none`: `curSession++` overflows, and what follows is undefined. -/
def generateSession : Option Int32 × ServerState :=
  if sessionId ∈ s.sessions then (some sessionId, s)
  else if s.curSession = Int32.maxValue then (none, s)
  else
    let s := { s with sessions := insert s.curSession s.sessions }
    let s := { s with curSession := s.curSession + 1 }
    (some (s.curSession - 1), s)

/-- `sessionAccounts[sessionId]` inserts the empty string if there is no entry. -/
def getSessionAccountName : Bytes × ServerState :=
  match s.sessionAccounts[sessionId]? with
  | some accountName => (accountName, s)
  | none => ([], { s with sessionAccounts := s.sessionAccounts.insert sessionId [] })

end ServerState

/-- The mutexes of the server. -/
inductive Mutex where
  | serverState
  | packetQueue
  | activeConnections
  deriving DecidableEq

/-- What the handlers share. -/
structure Server where
  serverState : ServerState
  activeConnections : Std.TreeMap Int32 SockAddr

def Server.init : Server := ⟨.init, ∅⟩

/-- The calls of the handlers on the tables. -/
inductive ServerOp : Type → Type where
  | verifySession (sessionId : Int32) : ServerOp Bool
  | generateSession (sessionId : Int32) : ServerOp (Option Int32)
  | disconnectSession (sessionId : Int32) : ServerOp Unit
  | selectPlayer (sessionId : Int32) : ServerOp Unit
  | getSessionAccountName (sessionId : Int32) : ServerOp Bytes
  /-- `activeConnections[sessionId] = client`. -/
  | setConnection (sessionId : Int32) (client : SockAddr) : ServerOp Unit
  /-- `activeConnections.find(sessionId)`. -/
  | findConnection (sessionId : Int32) : ServerOp (Option SockAddr)
  /-- The entries of `activeConnections`, in the order of the iteration. -/
  | connections : ServerOp (List (Int32 × SockAddr))

namespace ServerOp

instance : Effect ServerOp Server where
  apply
    | .verifySession sessionId, s => (s.serverState.verifySession sessionId, s)
    | .generateSession sessionId, s =>
      ((s.serverState.generateSession sessionId).1,
        { s with serverState := (s.serverState.generateSession sessionId).2 })
    | .disconnectSession sessionId, s => ((), { s with serverState := s.serverState.disconnectSession sessionId })
    | .selectPlayer sessionId, s => ((), { s with serverState := s.serverState.selectPlayer sessionId })
    | .getSessionAccountName sessionId, s =>
      ((s.serverState.getSessionAccountName sessionId).1,
        { s with serverState := (s.serverState.getSessionAccountName sessionId).2 })
    | .setConnection sessionId client, s =>
      ((), { s with activeConnections := s.activeConnections.insert sessionId client })
    | .findConnection sessionId, s => (s.activeConnections[sessionId]?, s)
    | .connections, s => (s.activeConnections.toList, s)

variable (s : Server) (sessionId : Int32) (client : SockAddr)

open Effect (apply)

@[simp] theorem apply_verifySession :
    apply (ServerOp.verifySession sessionId) s = (s.serverState.verifySession sessionId, s) := rfl

@[simp] theorem apply_generateSession :
    apply (ServerOp.generateSession sessionId) s = ((s.serverState.generateSession sessionId).1,
      { s with serverState := (s.serverState.generateSession sessionId).2 }) := rfl

@[simp] theorem apply_disconnectSession : apply (ServerOp.disconnectSession sessionId) s =
    ((), { s with serverState := s.serverState.disconnectSession sessionId }) := rfl

@[simp] theorem apply_selectPlayer : apply (ServerOp.selectPlayer sessionId) s =
    ((), { s with serverState := s.serverState.selectPlayer sessionId }) := rfl

@[simp] theorem apply_getSessionAccountName :
    apply (ServerOp.getSessionAccountName sessionId) s = ((s.serverState.getSessionAccountName sessionId).1,
      { s with serverState := (s.serverState.getSessionAccountName sessionId).2 }) := rfl

@[simp] theorem apply_setConnection : apply (ServerOp.setConnection sessionId client) s =
    ((), { s with activeConnections := s.activeConnections.insert sessionId client }) := rfl

@[simp] theorem apply_findConnection :
    apply (ServerOp.findConnection sessionId) s = (s.activeConnections[sessionId]?, s) := rfl

@[simp] theorem apply_connections : apply ServerOp.connections s = (s.activeConnections.toList, s) := rfl

end ServerOp

/-! ## What the functions do -/

namespace ServerState

variable {s : ServerState} {sessionId : Int32}

@[simp] theorem verifySession_eq_true : s.verifySession sessionId = true ↔ sessionId ∈ s.sessions := by
  simp [verifySession]

/-- A live session is returned, nothing changes; otherwise the next number is, and becomes live. -/
theorem generateSession_cases (s : ServerState) (sessionId : Int32) :
    (sessionId ∈ s.sessions ∧ s.generateSession sessionId = (some sessionId, s)) ∨
    (sessionId ∉ s.sessions ∧ s.curSession = Int32.maxValue ∧ s.generateSession sessionId = (none, s)) ∨
    (sessionId ∉ s.sessions ∧ s.curSession ≠ Int32.maxValue ∧ s.generateSession sessionId =
      (some s.curSession, { s with sessions := insert s.curSession s.sessions, curSession := s.curSession + 1 })) := by
  by_cases hlive : sessionId ∈ s.sessions
  · exact .inl ⟨hlive, by simp [generateSession, hlive]⟩
  · by_cases hmax : s.curSession = Int32.maxValue
    · exact .inr (.inl ⟨hlive, hmax, by simp [generateSession, hlive, hmax]⟩)
    · exact .inr (.inr ⟨hlive, hmax, by simp [generateSession, hlive, hmax]⟩)

/-- Looking an account up gives its session an entry. -/
theorem mem_getSessionAccountName {k : Int32} :
    k ∈ (s.getSessionAccountName sessionId).2.sessionAccounts ↔ k = sessionId ∨ k ∈ s.sessionAccounts := by
  unfold getSessionAccountName
  split
  · rename_i h
    have hmem : sessionId ∈ s.sessionAccounts := by
      rw [Std.TreeMap.mem_iff_isSome_getElem?, h]
      rfl
    exact ⟨.inr, fun hk => hk.elim (fun hk => hk ▸ hmem) fun hk => hk⟩
  · simp [Std.TreeMap.mem_insert, Std.LawfulEqCmp.compare_eq_iff_eq, @eq_comm _ k]

@[simp] theorem getSessionAccountName_sessions :
    (s.getSessionAccountName sessionId).2.sessions = s.sessions := by
  unfold getSessionAccountName
  split <;> rfl

@[simp] theorem getSessionAccountName_activeSessions :
    (s.getSessionAccountName sessionId).2.activeSessions = s.activeSessions := by
  unfold getSessionAccountName
  split <;> rfl

@[simp] theorem getSessionAccountName_curSession :
    (s.getSessionAccountName sessionId).2.curSession = s.curSession := by
  unfold getSessionAccountName
  split <;> rfl

@[simp] theorem selectPlayer_sessions : (s.selectPlayer sessionId).sessions = s.sessions := by
  unfold selectPlayer
  split <;> rfl

@[simp] theorem selectPlayer_sessionAccounts : (s.selectPlayer sessionId).sessionAccounts = s.sessionAccounts := by
  unfold selectPlayer
  split <;> rfl

@[simp] theorem selectPlayer_curSession : (s.selectPlayer sessionId).curSession = s.curSession := by
  unfold selectPlayer
  split <;> rfl

theorem selectPlayer_activeSessions_subset (h : s.activeSessions ⊆ s.sessions) :
    (s.selectPlayer sessionId).activeSessions ⊆ s.sessions := by
  unfold selectPlayer
  split
  · exact Finset.insert_subset ‹_› h
  · exact h

end ServerState

end Celegraph
