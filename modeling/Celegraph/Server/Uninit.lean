import Celegraph.Server.Gate

/-!
# Uninitialised packets

A handler converts into a packet whose `packetId` and `sessionId` have no initial value. An array that ends before the
session (`endsBeforeSession`) leaves the session as it was in memory. So a packet is handled without a look at that
memory exactly if it is no such array of a type that is converted (`ignores_uninit_iff`); the state and the packets
sent depend on it exactly for the types that do something for a session (`effect_ignores_uninit_iff`).
-/

namespace Celegraph.Server

open CxxString Packets Utils Prog
open MessagePack (Obj)

/-- An array with at most one element, which converts: `sessionId` is not assigned. -/
def endsBeforeSession : Obj → Bool
  | .array [] => true
  | .array [x] => (convertInt32 x).isSome
  | _ => false

/-- The new state and the packets sent do not depend on the memory of the handler's packet. -/
def EffectIgnoresUninit (data : Obj) (client : SockAddr) (packetType : UInt8) : Prop :=
  ∀ (s : Server) (u u' : Uninit),
    (dispatch u data client packetType).run s [] = (dispatch u' data client packetType).run s []

/-- On every path, the handler locks, calls and sends the same: in particular for the same sessions. -/
def CallsIgnoreUninit (data : Obj) (client : SockAddr) (packetType : UInt8) : Prop :=
  ∀ u u' : Uninit, dispatch u data client packetType = dispatch u' data client packetType

variable {data : Obj} {client : SockAddr} {packetType : UInt8}

/-! ## Conversions -/

/-- A conversion that assigns both ids, or fails, does not depend on their values before. -/
theorem convertIds_eq (h : endsBeforeSession data = false) (u u' : Uninit) :
    convertIds u data = convertIds u' data := by
  unfold convertIds
  match data with
  | .array [] => simp [endsBeforeSession] at h
  | .array [x] =>
    have hx : convertInt32 x = none := by simpa [endsBeforeSession] using h
    simp [elements, member, hx]
  | .array (x :: y :: xs) => cases hx : convertInt32 x <;> simp [elements, member, hx]
  | .nil | .bool _ | .int _ | .float32 _ | .float64 _ | .str _ | .bin _ | .map _ | .ext _ _ => rfl

/-- An array that ends early keeps the session. -/
theorem convertIds_of_endsBeforeSession (h : endsBeforeSession data = true) (u : Uninit) :
    ∃ packetId, ∀ sessionId, convertIds ⟨u.packetId, sessionId⟩ data = some (⟨packetId, sessionId⟩, []) := by
  match data with
  | .array [] => exact ⟨u.packetId, fun _ => rfl⟩
  | .array [x] =>
    obtain ⟨n, hn⟩ := Option.isSome_iff_exists.mp h
    exact ⟨n, fun _ => by simp [convertIds, elements, member, hn]⟩
  | .array (_ :: _ :: _) => simp [endsBeforeSession] at h

theorem convertSession_of_endsBeforeSession (h : endsBeforeSession data = true) {t : PTYPE} (ht : converts t = true)
    (u : Uninit) : convertSession u data t = some u.sessionId := by
  obtain ⟨packetId, hids⟩ := convertIds_of_endsBeforeSession h u
  have hu := hids u.sessionId
  cases t <;> simp [converts] at ht <;>
    simp [convertSession, Generic.convert, Ack.convert, Connect.convert, Disconnect.convert, Listusers.convert,
      Selectuser.convert, Createuser.convert, Sendplayercommand.convert, hu, member]

/-! ## Calls -/

/-- The session for which a handler makes its first call. -/
def firstSession : ServerProg Unit → Option Int32
  | .lock _ (.call (.verifySession sessionId) _) => some sessionId
  | .lock _ (.call (.generateSession sessionId) _) => some sessionId
  | _ => none

theorem firstSession_sessionHandler {P : Type} {convert : Obj → Option P} {sessionId : P → Int32}
    {refuse : ServerProg Unit} {act : P → ServerProg Unit} :
    firstSession (sessionHandler convert sessionId refuse act data client) = (convert data).map sessionId := by
  unfold sessionHandler
  cases convert data <;> rfl

theorem firstSession_connectHandler {u : Uninit} :
    firstSession (connectHandler u data client) = (Connect.convert u data).map Connect.sessionId := by
  unfold connectHandler
  cases Connect.convert u data <;> rfl

/-- A handler first looks at the session of its packet. -/
theorem firstSession_dispatch {t : PTYPE} (ht : PTYPE.ofValue packetType = some t) (u : Uninit) :
    firstSession (dispatch u data client packetType) = convertSession u data t := by
  have h0 := PTYPE.ne_zero_of_ofValue ht
  simp only [dispatch, if_neg h0, ht]
  cases t with
  | CONNECT => exact firstSession_connectHandler
  | GENERIC | ACK | DISCONNECT | LISTUSERS | SELECTUSER | CREATEUSER | SENDPLAYERCOMMAND =>
    exact firstSession_sessionHandler
  | ERROR | DELETEUSER | INITIALIZEGAME | UPDATEPC | UPDATENPC | SENDSERVERCOMMAND | SENDPLAYERACTION
  | SENDSERVERACTION | UNITY => rfl

theorem dispatch_eq (h : endsBeforeSession data = false) (u u' : Uninit) :
    dispatch u data client packetType = dispatch u' data client packetType := by
  simp only [dispatch, genericHandler, ackHandler, connectHandler, disconnectHandler, listUsersHandler,
    selectUserHandler, createUserHandler, sendPlayerCommandHandler, sessionHandler, Generic.convert, Ack.convert,
    Connect.convert, Disconnect.convert, Listusers.convert, Selectuser.convert, Createuser.convert,
    Sendplayercommand.convert, convertIds_eq h u u']

theorem dispatch_eq_of_not_converts (h : ∀ t, PTYPE.ofValue packetType = some t → converts t = false) (u u' : Uninit) :
    dispatch u data client packetType = dispatch u' data client packetType := by
  unfold dispatch
  cases ht : PTYPE.ofValue packetType with
  | none => rfl
  | some t =>
    have := h t ht
    cases t <;> first | rfl | simp [converts] at this

/-- **A packet is handled without a look at uninitialised memory**, in what the handler does and for whom, exactly if it
is not converted, or its payload does not end before the session. -/
theorem ignores_uninit_iff (data : Obj) (client : SockAddr) (packetType : UInt8) :
    EffectIgnoresUninit data client packetType ∧ CallsIgnoreUninit data client packetType ↔
      ¬((∃ t, PTYPE.ofValue packetType = some t ∧ converts t = true) ∧ endsBeforeSession data = true) := by
  constructor
  · rintro ⟨_, hcalls⟩ ⟨⟨t, ht, hconv⟩, hends⟩
    have hsession (u : Uninit) : firstSession (dispatch u data client packetType) = some u.sessionId :=
      (firstSession_dispatch ht u).trans (convertSession_of_endsBeforeSession hends hconv u)
    have heq := congrArg firstSession (hcalls ⟨0, 0⟩ ⟨0, 1⟩)
    rw [hsession, hsession] at heq
    simp at heq
  · intro h
    have hcalls : CallsIgnoreUninit data client packetType := by
      by_cases hends : endsBeforeSession data = true
      · refine dispatch_eq_of_not_converts fun t ht => ?_
        by_contra hconv
        exact h ⟨⟨t, ht, by simpa using hconv⟩, hends⟩
      · exact dispatch_eq (by simpa using hends)
    exact ⟨fun s u u' => by rw [hcalls u u'], hcalls⟩

/-- A server with the one live session 1. -/
def oneSession : Server := ⟨{ sessions := {1}, activeSessions := ∅, sessionAccounts := ∅, curSession := 2 }, ∅⟩

/-- `DISCONNECT` with an empty array ends the session that the memory of the packet names. -/
theorem not_ignores_uninit :
    ¬∀ (data : Obj) (client : SockAddr) (packetType : UInt8), EffectIgnoresUninit data client packetType := by
  intro hall
  have h := hall (.array []) ⟨0x7f000001, 7331⟩ 4 oneSession ⟨0, 0⟩ ⟨0, 1⟩
  obtain ⟨s', hended, hsessions⟩ : ∃ s', (dispatch ⟨0, 1⟩ (.array []) ⟨0x7f000001, 7331⟩ 4).run oneSession [] =
      .ok () s' [] [] ∧ 1 ∉ s'.serverState.sessions := ⟨_, rfl, by decide⟩
  have hrefused : (dispatch ⟨0, 0⟩ (.array []) ⟨0x7f000001, 7331⟩ 4).run oneSession [] = .ok () oneSession [] [] := rfl
  rw [hrefused, hended] at h
  obtain rfl : oneSession = s' := by injection h
  exact hsessions (by decide)

/-! ## Effects -/

/-- The types that do something for a session. -/
def affects : PTYPE → Bool
  | .GENERIC | .ACK => false
  | t => converts t

/-- A handler that acts for session 1 and refuses for session 0, when the packet takes its session from memory. -/
theorem sessionHandler_depends {P : Type} {convert : Uninit → Obj → Option P} {sessionId : P → Int32}
    {refuse : ServerProg Unit} {act : P → ServerProg Unit} {s' : Server} {out out' : List Datagram} (packet : Int32 → P)
    (hconv : ∀ id, convert ⟨0, id⟩ data = some (packet id)) (hid : ∀ id, sessionId (packet id) = id)
    (hrefuse : refuse.run oneSession [.serverState] = .ok () oneSession [.serverState] out)
    (hact : (act (packet 1)).run oneSession [.serverState] = .ok () s' [.serverState] out')
    (hne : s'.serverState.sessions ≠ {1} ∨ out.map (·.packetType) ≠ out'.map (·.packetType)) :
    (sessionHandler (convert ⟨0, 0⟩) sessionId refuse act data client).run oneSession [] ≠
      (sessionHandler (convert ⟨0, 1⟩) sessionId refuse act data client).run oneSession [] := by
  have hdead : sessionId (packet 0) ∉ oneSession.serverState.sessions := by rw [hid]; decide
  have hlive : sessionId (packet 1) ∈ oneSession.serverState.sessions := by rw [hid]; decide
  rw [run_sessionHandler_refuse (hconv 0) hdead hrefuse, run_sessionHandler_act (hconv 1) hlive, hact]
  intro heq
  simp only [Outcome.andThen, List.mem_singleton, if_true, List.append_nil, Outcome.ok.injEq] at heq
  obtain ⟨_, rfl, _, rfl⟩ := heq
  exact hne.elim (fun h => h rfl) fun h => h rfl

theorem connectHandler_depends (packetId : Int32)
    (hconv : ∀ id, Connect.convert ⟨0, id⟩ data = some ⟨packetId, id⟩) :
    (connectHandler ⟨0, 0⟩ data client).run oneSession [] ≠ (connectHandler ⟨0, 1⟩ data client).run oneSession [] := by
  rw [run_connectHandler (hconv 0), run_connectHandler (hconv 1)]
  have hmax : (2 : Int32) ≠ Int32.maxValue := by decide
  simp [oneSession, ServerState.generateSession, hmax]

/-- A type that does something for a session does it for the session in memory. -/
theorem not_effectIgnoresUninit {t : PTYPE} (ht : PTYPE.ofValue packetType = some t) (haff : affects t = true)
    (hends : endsBeforeSession data = true) : ¬EffectIgnoresUninit data client packetType := by
  intro hall
  have heff := hall oneSession ⟨0, 0⟩ ⟨0, 1⟩
  have h0 := PTYPE.ne_zero_of_ofValue ht
  obtain ⟨packetId, hids⟩ := convertIds_of_endsBeforeSession hends ⟨0, 0⟩
  simp only [dispatch, if_neg h0, ht] at heff
  revert heff
  cases t with
  | CONNECT => exact connectHandler_depends packetId fun id => by simp [Connect.convert, hids]
  | DISCONNECT =>
    exact sessionHandler_depends (⟨packetId, ·⟩) (fun id => by simp [Disconnect.convert, hids])
      (fun _ => rfl) rfl rfl (.inl (by simp [oneSession, ServerState.disconnectSession]))
  | LISTUSERS =>
    exact sessionHandler_depends (⟨packetId, ·, []⟩) (fun id => by simp [Listusers.convert, member, hids])
      (fun _ => rfl) rfl rfl (.inr (by simp))
  | SELECTUSER =>
    exact sessionHandler_depends (⟨packetId, ·, []⟩) (fun id => by simp [Selectuser.convert, member, hids])
      (fun _ => rfl) rfl rfl (.inr (by simp))
  | CREATEUSER =>
    exact sessionHandler_depends (⟨packetId, ·, [], [], []⟩)
      (fun id => by simp [Createuser.convert, member, hids]) (fun _ => rfl) rfl rfl (.inr (by simp))
  | SENDPLAYERCOMMAND =>
    exact sessionHandler_depends (⟨packetId, ·, []⟩)
      (fun id => by simp [Sendplayercommand.convert, member, hids]) (fun _ => rfl) rfl rfl (.inr (by simp))
  | _ => simp [affects, converts] at haff

/-- **The effect of a packet depends on uninitialised memory** exactly for the arrays that end before the session, of a
type that does something for a session. -/
theorem effect_ignores_uninit_iff (data : Obj) (client : SockAddr) (packetType : UInt8) :
    EffectIgnoresUninit data client packetType ↔
      ¬((∃ t, PTYPE.ofValue packetType = some t ∧ affects t = true) ∧ endsBeforeSession data = true) := by
  refine ⟨fun h ⟨⟨t, ht, haff⟩, hends⟩ => not_effectIgnoresUninit ht haff hends h, fun h => ?_⟩
  by_cases hconv : (∃ t, PTYPE.ofValue packetType = some t ∧ converts t = true) ∧ endsBeforeSession data = true
  · obtain ⟨⟨t, ht, hconv⟩, hends⟩ := hconv
    have haff : affects t = false := by
      by_contra haff
      exact h ⟨⟨t, ht, by simpa using haff⟩, hends⟩
    -- a `GENERIC` or `ACK` packet: the session is verified, and nothing is done for it
    have hsilent (s : Server) (u : Uninit) : (dispatch u data client packetType).run s [] = .ok () s [] [] := by
      have h0 := PTYPE.ne_zero_of_ofValue ht
      simp only [dispatch, if_neg h0, ht]
      have hsession := convertSession_of_endsBeforeSession hends hconv u
      cases t <;> simp [affects, converts] at haff hconv
      all_goals
        obtain ⟨packet, hp, _⟩ := Option.map_eq_some_iff.mp hsession
        exact run_sessionHandler_silent hp
    intro s u u'
    rw [hsilent, hsilent]
  · exact ((ignores_uninit_iff data client packetType).mpr hconv).1

end Celegraph.Server
