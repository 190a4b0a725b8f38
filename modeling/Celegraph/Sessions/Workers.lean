import Celegraph.Sessions.Ledger

/-!
# The handlers keep the ledger

Every handler keeps the specification of `Ledger.lean` (`keeps_dispatch`), if the client of a `CONNECT` for a live
session is a tenant of it. The lemmas follow the programs of `Server.lean`, part by part.

- `Workers N`: the pool of `N` workers; `step` lets one of them start with a packet, or take its next action.
- `Workers.exec_handle`: a packet handled with no step of another worker in between, as its handler run alone.
-/

namespace Celegraph.Sessions

open CxxString Packets Utils Server Prog
open MessagePack (Obj)

variable {T : Tenure} {w : Ledger} {s : Server}

/-! ## Programs -/

/-- A program that keeps the specification and returns. -/
abbrev Keeps (T : Tenure) (p : ServerProg Unit) (w : Ledger) : Prop := p.Safe (spec T) (fun _ _ => True) w

theorem emits_of_type {d : Datagram} (hr : d.packetType ≠ .CONNECT) (hm : d.packetType ≠ .SENDSERVERCOMMAND) :
    Emits T w d := ⟨fun h => absurd h hr, fun h => absurd h hm⟩

theorem emits_connectReply {id : Int32} {client : SockAddr} (hholds : T.holds w id client) (hbound : id ∈ w.bound) :
    Emits T w (connectReply id client) :=
  ⟨fun _ => ⟨id, rfl, hholds, hbound⟩, fun h => PTYPE.noConfusion h⟩

theorem emits_serverCommand {id : Int32} {client : SockAddr} (hholds : T.holds w id client) (command : Bytes) :
    Emits T w (serverCommand id command client) :=
  ⟨fun h => PTYPE.noConfusion h, fun _ => ⟨id, command, rfl, hholds⟩⟩

theorem keeps_return : Keeps T (return) w := trivial

theorem keeps_sendDataTo {packetType : PTYPE} (body : Obj) (dest : SockAddr) (hr : packetType ≠ .CONNECT)
    (hm : packetType ≠ .SENDSERVERCOMMAND) : Keeps T (sendDataTo body packetType dest) w :=
  ⟨emits_of_type hr hm, trivial⟩

theorem keeps_sendErrorTo (errorMsg : Bytes) (dest : SockAddr) : Keeps T (sendErrorTo errorMsg dest) w :=
  keeps_sendDataTo _ dest (by decide) (by decide)

/-- Messages go to connections, which are tenants. -/
theorem keeps_broadcastLoop (isAdmin : Bool) (broadcast user : Bytes) {conns : List (Int32 × SockAddr)}
    (h : ∀ c ∈ conns, T.holds w c.1 c.2) : Keeps T (broadcastLoop isAdmin broadcast user conns) w := by
  induction conns with
  | nil => exact keeps_return
  | cons c conns ih =>
    have hrest := ih fun c hc => h c (List.mem_cons_of_mem _ hc)
    have hsend : Keeps T (do sendServerCommand c.1 broadcast c.2; broadcastLoop isAdmin broadcast user conns) w :=
      ⟨emits_serverCommand (h c List.mem_cons_self) broadcast, hrest⟩
    unfold broadcastLoop
    split
    · exact hsend
    · split
      · trivial
      · split
        · exact hrest
        · exact hsend

theorem keeps_broadcastToConnections (msg user : Bytes) : Keeps T (broadcastToConnections msg user) w := by
  refine Safe.withLock (Safe.call_of fun w' _ s hs => ⟨hs, keeps_broadcastLoop _ _ _ fun c hc => ?_⟩)
  exact hs.tenant c.1 c.2 (Std.TreeMap.mem_toList_iff_getElem?_eq_some.mp hc)

theorem keeps_sendMessageToConnection (msg fromUser toUser : Bytes) :
    Keeps T (sendMessageToConnection msg fromUser toUser) w := by
  by_cases hadmin : toUser = text "admin"
  · simp only [sendMessageToConnection, if_pos hadmin]
    exact keeps_return
  · simp only [sendMessageToConnection, if_neg hadmin]
    cases stoi toUser with
    | none => exact keeps_return
    | some sessionId =>
      refine Safe.withLock (Safe.call_of fun w' _ s hs => ⟨hs, ?_⟩)
      cases hconn : s.activeConnections[sessionId]? with
      | none =>
        simp only [ServerOp.apply_findConnection, hconn]
        exact keeps_return
      | some dest =>
        simp only [ServerOp.apply_findConnection, hconn]
        exact ⟨emits_serverCommand (hs.tenant _ _ hconn) _, trivial⟩

theorem keeps_playerCommand (pCommand : Bytes) (sessionId : Int32) : Keeps T (playerCommand pCommand sessionId) w := by
  unfold playerCommand
  split
  · trivial
  · trivial
  · split
    · split
      · trivial
      · split
        · trivial
        · exact keeps_sendMessageToConnection _ _ _
    · split
      · split
        · split
          · trivial
          · exact keeps_broadcastToConnections _ _
        · exact keeps_return
      · exact keeps_return

/-- A handler acts for an issued session. -/
theorem keeps_sessionHandler {P : Type} {convert : Obj → Option P} {sessionId : P → Int32} {refuse : ServerProg Unit}
    {act : P → ServerProg Unit} {data : Obj} {client : SockAddr} (hrefuse : ∀ w', w ≤ w' → Keeps T refuse w')
    (hact : ∀ packet w', w ≤ w' → (w'.creator (sessionId packet)).isSome → Keeps T (act packet) w') :
    Keeps T (sessionHandler convert sessionId refuse act data client) w := by
  unfold sessionHandler
  split
  · exact keeps_sendErrorTo _ _
  · rename_i packet _
    refine Safe.withLock (Safe.call_of fun w' hw s hs => ⟨hs, ?_⟩)
    change Keeps T (if s.serverState.verifySession (sessionId packet) then act packet else refuse) w'
    split
    · rename_i hlive
      exact hact packet w' hw (hs.live _ (ServerState.verifySession_eq_true.mp hlive))
    · exact hrefuse w' hw

theorem keeps_disconnectSession (id : Int32) : Keeps T (perform (.disconnectSession id)) w :=
  Safe.call_of fun _ _ _ hs => ⟨hs.disconnectSession id, trivial⟩

theorem keeps_selectPlayer (id : Int32) : Keeps T (perform (.selectPlayer id)) w :=
  Safe.call_of fun _ _ _ hs => ⟨hs.selectPlayer id, trivial⟩

/-- The connection of a tenant is saved, and the reply sent. -/
theorem keeps_saveConnection {id : Int32} {client : SockAddr} (hholds : T.holds w id client) :
    Keeps T (saveConnection client id) w := by
  intro w' hw s hs
  have hbind := hs.bind (T.mono hw hholds)
  refine ⟨w'.bind id, Ledger.le_bind, hbind, ⟨emits_connectReply ?_ (Set.mem_insert _ _), trivial⟩, fun _ => .inl⟩
  exact T.mono (hw.trans Ledger.le_bind) hholds

/-- A `CONNECT` issues a session to its client, or confirms one of which the client is a tenant. -/
theorem keeps_connectHandler {u : Uninit} {data : Obj} {client : SockAddr}
    (hadm : ∀ packet, Connect.convert u data = some packet → ∀ w' s, w ≤ w' → Inv T w' s →
      packet.sessionId ∈ s.serverState.sessions → T.holds w' packet.sessionId client) :
    Keeps T (connectHandler u data client) w := by
  unfold connectHandler
  split
  · exact keeps_sendErrorTo _ _
  · rename_i packet hp
    intro w' hw s hs
    rcases s.serverState.generateSession_cases packet.sessionId with ⟨hlive, hg⟩ | ⟨_, _, hg⟩ | ⟨_, hmax, hg⟩
    · refine ⟨w', le_rfl, ?_⟩
      simp only [ServerOp.apply_generateSession, hg]
      exact ⟨hs, keeps_saveConnection (hadm packet hp w' s hw hs hlive), fun _ => .inl⟩
    · refine ⟨w', le_rfl, ?_⟩
      simp only [ServerOp.apply_generateSession, hg]
      exact ⟨hs, trivial, fun _ => .inl⟩
    · have hle : w' ≤ w'.issue s.serverState.curSession client := Ledger.le_issue hs.creator_curSession
      refine ⟨w'.issue s.serverState.curSession client, hle, ?_⟩
      simp only [ServerOp.apply_generateSession, hg]
      refine ⟨hs.issue hmax client, keeps_saveConnection (T.of_creator (by simp [Ledger.issue])), ?_⟩
      rintro d ⟨id, a, hid, rfl⟩
      by_cases hcur : id = s.serverState.curSession
      · subst hcur
        have ha : client = a := by simpa [Ledger.issue] using hid
        subst ha
        exact .inr fun _ => .inl rfl
      · exact .inl ⟨id, a, by simpa [Ledger.issue, hcur] using hid, rfl⟩

/-- **Every handler keeps the specification**, if the client of a `CONNECT` for a live session is a tenant of it. -/
theorem keeps_dispatch {u : Uninit} {data : Obj} {client : SockAddr} {packetType : UInt8}
    (hadm : PTYPE.ofValue packetType = some .CONNECT → ∀ packet, Connect.convert u data = some packet →
      ∀ w' s, w ≤ w' → Inv T w' s → packet.sessionId ∈ s.serverState.sessions → T.holds w' packet.sessionId client) :
    Keeps T (dispatch u data client packetType) w := by
  have hinvalid : ∀ w', w ≤ w' → Keeps T (invalidSession client) w' := fun _ _ => keeps_sendErrorTo _ _
  unfold dispatch
  split
  · exact keeps_sendErrorTo _ _
  · cases ht : PTYPE.ofValue packetType with
    | none => exact keeps_sendErrorTo _ _
    | some t =>
      cases t with
      | CONNECT => exact keeps_connectHandler (hadm ht)
      | GENERIC | ACK => exact keeps_sessionHandler (fun _ _ => keeps_return) fun _ _ _ _ => keeps_return
      | DISCONNECT =>
        exact keeps_sessionHandler (fun _ _ => keeps_return) fun _ _ _ _ => keeps_disconnectSession _
      | SELECTUSER => exact keeps_sessionHandler hinvalid fun _ _ _ _ => keeps_selectPlayer _
      | CREATEUSER => exact keeps_sessionHandler hinvalid fun _ _ _ _ => keeps_return
      | LISTUSERS =>
        refine keeps_sessionHandler hinvalid fun packet w' _ hid => Safe.call_of fun w'' hw s hs => ?_
        exact ⟨hs.getSessionAccountName (Ledger.isSome_creator_mono hw hid),
          keeps_sendDataTo _ _ (by decide) (by decide)⟩
      | SENDPLAYERCOMMAND =>
        exact keeps_sessionHandler hinvalid fun _ _ _ _ => (keeps_playerCommand _ _).bind fun _ _ _ =>
          keeps_sendDataTo _ _ (by decide) (by decide)
      | ERROR | SENDSERVERCOMMAND => exact keeps_sendErrorTo _ _
      | DELETEUSER | INITIALIZEGAME | UPDATEPC | UPDATENPC | SENDPLAYERACTION | SENDSERVERACTION | UNITY =>
        exact keeps_return

/-! ## Workers -/

/-- The workers of the server, each running the handler of a packet or idle. -/
abbrev Workers (N : Nat) := Pool (Fin N) ServerOp Server Mutex Datagram

/-- The steps of the workers: worker `i` starts to handle a packet, with whatever the memory of its local packet holds,
or takes its next action. -/
inductive Act (N : Nat) where
  | start (i : Fin N) (u : Uninit) (data : Obj) (client : SockAddr) (packetType : UInt8)
  | work (i : Fin N)

namespace Workers

variable {N : Nat}

/-- The server before the first packet. -/
def init (N : Nat) : Workers N := ⟨.init, fun _ => none, fun _ => .pure (), []⟩

def step (p : Workers N) : Act N → Option (Workers N)
  | .start i u data client packetType => p.start i (dispatch u data client packetType)
  | .work i => Pool.step p i

/-- No handler is running. -/
def Quiescent (p : Workers N) : Prop := ∀ i, p.idle i = true

theorem ok_init (N : Nat) : (init N).Ok (spec T) .empty where
  inv := inv_init
  safe _ := trivial
  sent _ h := by cases h
  paid := by
    rintro d ⟨id, a, h, _⟩
    cases h

/-! ## One packet at a time -/

/-- No handler is running, and the mutexes are free. -/
def Resting (p : Workers N) : Prop := (∀ i, p.code i = .pure ()) ∧ ∀ m, p.owner m = none

theorem resting_init (N : Nat) : Resting (init N) := ⟨fun _ => rfl, fun _ => rfl⟩

theorem Resting.quiescent {p : Workers N} (h : Resting p) : Quiescent p := fun i => Pool.idle_iff.mpr (h.1 i)

/-- A packet handled by worker `i` alone. -/
theorem exec_handle {p : Workers N} (h : Resting p) (i : Fin N) {u : Uninit} {data : Obj} {client : SockAddr}
    {packetType : UInt8} {s' : Server} {out : List Datagram}
    (hrun : (dispatch u data client packetType).run p.shared [] = .ok () s' [] out) :
    ∃ n p', Runs.exec step p (.start i u data client packetType :: List.replicate n (.work i)) = some p' ∧
      Resting p' ∧ p'.shared = s' ∧ p'.out = p.out ++ out := by
  let p₁ : Workers N := { p with code := Function.update p.code i (dispatch u data client packetType) }
  have hheld : p₁.Holds i [] := ⟨List.nodup_nil, fun m => by simpa using h.2 m⟩
  obtain ⟨n, p', hex, hs, hout, hcode, hheld'⟩ := Pool.ends_of_run (by simp [p₁]) hheld hrun
  refine ⟨n, p', ?_, ⟨fun j => ?_, fun m => by simpa using hheld'.2 m⟩, hs, hout⟩
  · have hwork : Runs.exec step p₁ (List.replicate n (.work i)) = Runs.exec Pool.step p₁ (List.replicate n i) := by
      rw [← List.map_replicate]
      exact Runs.exec_map (fun _ _ => rfl) _ _
    have hidle : p.idle i = true := Pool.idle_iff.mpr (h.1 i)
    simpa [Runs.exec, step, Pool.start, hidle] using hwork.trans hex
  · rw [hcode]
    by_cases hj : j = i
    · subst hj; simp
    · simp [p₁, hj, h.1 j]

end Workers

end Celegraph.Sessions
