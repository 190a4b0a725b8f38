import Celegraph.Sessions.Clients

/-!
# The order of a client's packets

Whatever packets a client gets and whatever lines its user types, it sends `CONNECT` without a session until it is given
one, then asks for the users of its account, with one new user between two such requests, and then sends player
commands, all under the session that it was given (`traffic_of_run`).

- `Lists sessionId last xs`: the packets of state 2; `last` says that the last one is a request for the users.
- `Traffic c sent`: what the client has sent, by the place where its main loop is.
-/

namespace Celegraph.Sessions

open CxxString Packets Utils Client Runs
open MessagePack (Obj)

/-- The packet has the type and names the session. -/
def Names (packetType : PTYPE) (sessionId : Int32) (x : Sending) : Prop :=
  x.datagram.packetType = packetType ∧ suppliedSession x.datagram.body = some sessionId

/-- The packets of state 0. -/
def Connects (xs : List Sending) : Prop := ∀ x ∈ xs, Names .CONNECT 0 x

/-- The packets of state 2: a request for the users, and then a new user and another request, any number of times. -/
inductive Lists (sessionId : Int32) : Bool → List Sending → Prop
  | nil : Lists sessionId false []
  | list {xs : List Sending} {x : Sending} :
      Lists sessionId false xs → Names .LISTUSERS sessionId x → Lists sessionId true (xs ++ [x])
  | create {xs : List Sending} {x : Sending} :
      Lists sessionId true xs → Names .CREATEUSER sessionId x → Lists sessionId false (xs ++ [x])

/-- The packets of state 3. -/
def Commands (sessionId : Int32) (xs : List Sending) : Prop :=
  ∀ x ∈ xs, Names .SENDPLAYERCOMMAND sessionId x ∧
    ∃ playerCommand : Sendplayercommand, x.datagram.body = playerCommand.pack ∧ playerCommand.command ≠ []

/-- The packets of the three states, one after the other. -/
structure Phases (sessionId : Int32) (last : Bool) (sent commands : List Sending) : Prop where
  inGame : Commands sessionId commands
  /-- The last new user has been asked for before the first player command. -/
  order : commands ≠ [] → last = true
  split : ∃ connects lists, sent = connects ++ lists ++ commands ∧ Connects connects ∧ Lists sessionId last lists

/-- What the client has sent before it goes on at its place. -/
def Traffic (c : Client) (sent : List Sending) : Prop :=
  match c.loc with
  | .connect | .connectReply => c.session = 0 ∧ Connects sent
  | .connected | .stopped => Connects sent
  | .listUsers => Phases c.session false sent []
  | .listReply buffer | .firstName buffer | .lastName buffer _ =>
    suppliedSession buffer = some c.session ∧ Phases c.session true sent []
  | .command | .commandReply => ∃ commands, Phases c.session true sent commands
  | .terminated => ∃ last commands, Phases c.session last sent commands

variable {mp : Msgpack} {server : SockAddr} {c c' : Client} {a : Input} {out : Option Sending} {sent : List Sending}
  {sessionId : Int32} {last : Bool} {x : Sending}

theorem Connects.phases (h : Connects sent) (sessionId : Int32) : Phases sessionId false sent [] :=
  ⟨by simp [Commands], by simp, sent, [], by simp, h, .nil⟩

theorem Connects.append (h : Connects sent) (hx : Names .CONNECT 0 x) : Connects (sent ++ [x]) := by
  intro y hy
  rcases List.mem_append.mp hy with hy | hy
  · exact h y hy
  · exact List.mem_singleton.mp hy ▸ hx

/-- A packet of state 2. -/
theorem Phases.appendList {last' : Bool} (h : Phases sessionId last sent [])
    (hx : ∀ lists, Lists sessionId last lists → Lists sessionId last' (lists ++ [x])) :
    Phases sessionId last' (sent ++ [x]) [] := by
  obtain ⟨connects, lists, rfl, hconnects, hlists⟩ := h.split
  exact ⟨h.inGame, by simp, connects, lists ++ [x], by simp, hconnects, hx lists hlists⟩

/-- A packet of state 3. -/
theorem Phases.appendCommand {commands : List Sending} (h : Phases sessionId true sent commands)
    (hx : Commands sessionId [x]) : Phases sessionId true (sent ++ [x]) (commands ++ [x]) := by
  obtain ⟨connects, lists, rfl, hconnects, hlists⟩ := h.split
  refine ⟨fun y hy => ?_, fun _ => rfl, connects, lists, by simp, hconnects, hlists⟩
  rcases List.mem_append.mp hy with hy | hy
  · exact h.inGame y hy
  · exact hx y hy

/-- The packets of a client, wherever it is. -/
theorem Traffic.phases (h : Traffic c sent) : ∃ last commands, Phases c.session last sent commands := by
  unfold Traffic at h
  cases hloc : c.loc <;> rw [hloc] at h
  case connect | connectReply => exact ⟨false, [], h.2.phases _⟩
  case connected | stopped => exact ⟨false, [], Connects.phases h _⟩
  case listUsers => exact ⟨false, [], h⟩
  case listReply | firstName | lastName => exact ⟨true, [], h.2⟩
  case command | commandReply => exact ⟨true, h⟩
  case terminated => exact h

/-- **A step keeps the order of the packets.** -/
theorem Traffic.step (h : Traffic c sent) (hst : Step mp server c a c' out) :
    Traffic c' (sent ++ out.toList) := by
  have hphases := h.phases
  cases hst with
  | connect response hloc _ hs =>
    obtain ⟨_⟩ := hs
    simp only [Traffic, hloc] at h
    refine ⟨h.1, h.2.append ⟨rfl, ?_⟩⟩
    rw [← h.1]
    exact suppliedSession_members _ _ _
  | listUsers hloc hs =>
    obtain ⟨_⟩ := hs
    simp only [Traffic, hloc] at h
    refine ⟨suppliedSession_members _ _ _, h.appendList fun lists hlists => hlists.list ⟨rfl, ?_⟩⟩
    exact suppliedSession_members _ _ _
  | lastName buffer firstName lastName hloc _ _ hs =>
    obtain ⟨_⟩ := hs
    simp only [Traffic, hloc] at h
    exact h.2.appendList fun lists hlists => hlists.create ⟨rfl, h.1⟩
  | command command hloc hne _ hs =>
    obtain ⟨_⟩ := hs
    simp only [Traffic, hloc] at h
    obtain ⟨commands, hphases⟩ := h
    refine ⟨_, hphases.appendCommand fun y hy => ?_⟩
    rw [List.mem_singleton] at hy
    subst hy
    exact ⟨⟨rfl, suppliedSession_members _ _ _⟩, _, rfl, hne⟩
  | stop _ hloc =>
    simp only [Traffic, hloc] at h
    simpa [Traffic] using h.2
  | longName | longCommand => simpa [Traffic] using hphases
  | connected hloc =>
    simp only [Traffic, hloc] at h
    simpa [Traffic] using h.phases c.session
  | firstName buffer _ hloc =>
    simp only [Traffic, hloc] at h
    simpa [Traffic] using h
  | empty => simpa using h
  | connectPacket u p hloc =>
    simp only [Traffic, hloc] at h
    rcases connectPacket_cases mp c u p with h' | h' | ⟨_, h'⟩ <;> rw [h']
    · simpa [Traffic] using hphases
    · simpa [Traffic] using h
    · simpa [Traffic] using h.2
  | listUsersPacket buffer u p hloc =>
    simp only [Traffic, hloc] at h
    rcases listUsersPacket_cases mp c buffer u p with h' | h' | h' <;> rw [h']
    · simpa [Traffic] using hphases
    · simpa [Traffic] using h
    · simpa [Traffic] using ⟨[], h.2⟩
  | commandPacket u p hloc =>
    simp only [Traffic, hloc] at h
    rcases commandPacket_cases mp c u p with h' | h' <;> rw [h']
    · simpa [Traffic] using hphases
    · simpa [Traffic] using h

/-- **The order of a client's packets**, over every run: `CONNECT` without a session, requests for the users with a new
user between any two, and player commands if a request came last, under the session of the client. -/
theorem traffic_of_run {tr : List (Log × Input)} {l : Log} (h : Run (Log.step mp server) Log.init tr l) :
    ∃ connects lists commands last, l.sent = connects ++ lists ++ commands ∧ Connects connects ∧
      Lists l.client.session last lists ∧ Commands l.client.session commands ∧ (commands ≠ [] → last = true) := by
  have hinit : Traffic Log.init.client Log.init.sent := by simp [Traffic, Log.init, Client.init, Connects]
  have htraffic : Traffic l.client l.sent := by
    refine h.invariant (I := fun l => Traffic l.client l.sent) hinit fun l a l' hl hst => ?_
    obtain ⟨out, hstep, hsent⟩ := Log.step_eq_some hst
    rw [hsent]
    exact hl.step hstep
  obtain ⟨last, commands, hphases⟩ := htraffic.phases
  obtain ⟨connects, lists, hsent, hconnects, hlists⟩ := hphases.split
  exact ⟨connects, lists, commands, last, hsent, hconnects, hlists, hphases.inGame, hphases.order⟩

/-- The server reports no users, then the one that the client has created, and the client sends a command. -/
def afterCreation : List Input :=
  noUsers ++ [.run, fromServer .LISTUSERS (Listusers.pack ⟨4, 1, [text "Harry Potter"]⟩), .line (text "hello")]

theorem traffic_afterCreation : ∃ tr l, Run (Log.step .reference localServer) Log.init tr l ∧
    tr.map Prod.snd = afterCreation ∧
    l.sent.map (·.datagram.packetType) = [.CONNECT, .LISTUSERS, .CREATEUSER, .LISTUSERS, .SENDPLAYERCOMMAND] ∧
    ∃ connects lists commands last, l.sent = connects ++ lists ++ commands ∧ Connects connects ∧
      Lists l.client.session last lists ∧ Commands l.client.session commands ∧ (commands ≠ [] → last = true) := by
  obtain ⟨l, hl, htypes⟩ : ∃ l, exec (Log.step .reference localServer) Log.init afterCreation = some l ∧
      l.sent.map (·.datagram.packetType) = [.CONNECT, .LISTUSERS, .CREATEUSER, .LISTUSERS, .SENDPLAYERCOMMAND] :=
    ⟨_, rfl, rfl⟩
  obtain ⟨tr, hr, hacts⟩ := Run.of_exec hl
  exact ⟨tr, l, hr, hacts, htypes, traffic_of_run hr⟩

end Celegraph.Sessions
