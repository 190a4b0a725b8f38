import Celegraph.Lib.Runs
import Celegraph.ServerState

/-!
# Session numbers are issued once

Any sequence of calls on the session tables, with any numbers, run together with the list of the numbers that
`GenerateSession` has issued (`History`). As long as fewer than `2^31 - 1` are issued (`newIds`), live sessions are below
`curSession`, active ones are live, and the issued numbers grow, so no number is issued twice (`issued_once`).
-/

namespace Celegraph.Sessions

open Runs ServerState Packets

/-- The calls on the session tables. -/
inductive SessionCall where
  | generateSession (sessionId : Int32)
  | disconnectSession (sessionId : Int32)
  | selectPlayer (sessionId : Int32)
  | verifySession (sessionId : Int32)
  | verifyActiveSession (sessionId : Int32)
  | getSessionAccountName (sessionId : Int32)

/-- The tables, and the numbers issued so far. -/
structure History where
  tables : ServerState
  issued : List Int32

namespace History

def init : History := ⟨.init, []⟩

/-- The call creates a session. -/
def Creates (h : History) : SessionCall → Prop
  | .generateSession sessionId => sessionId ∉ h.tables.sessions
  | _ => False

instance (h : History) : DecidablePred h.Creates
  | .generateSession sessionId => inferInstanceAs (Decidable (sessionId ∉ h.tables.sessions))
  | .disconnectSession _ | .selectPlayer _ | .verifySession _ | .verifyActiveSession _ | .getSessionAccountName _ =>
    inferInstanceAs (Decidable False)

/-- One call; `none` if `curSession` overflows. -/
def call (h : History) : SessionCall → Option History
  | .generateSession sessionId =>
    match h.tables.generateSession sessionId with
    | (none, _) => none
    | (some newSession, tables) =>
      some ⟨tables, if h.Creates (.generateSession sessionId) then h.issued ++ [newSession] else h.issued⟩
  | .disconnectSession sessionId => some { h with tables := h.tables.disconnectSession sessionId }
  | .selectPlayer sessionId => some { h with tables := h.tables.selectPlayer sessionId }
  | .verifySession _ | .verifyActiveSession _ => some h
  | .getSessionAccountName sessionId => some { h with tables := (h.tables.getSessionAccountName sessionId).2 }

/-- How many numbers a sequence of calls issues, or tries to. -/
def newIds : History → List SessionCall → Nat
  | _, [] => 0
  | h, c :: calls => (if h.Creates c then 1 else 0) + ((h.call c).elim 0 fun h' => h'.newIds calls)

/-- The numbers issued are those below `curSession`, in order. -/
structure Inv (h : History) : Prop where
  count : h.tables.curSession.toInt = h.issued.length + 1
  live : ∀ id ∈ h.tables.sessions, 1 ≤ id ∧ id < h.tables.curSession
  active : h.tables.activeSessions ⊆ h.tables.sessions
  below : ∀ id ∈ h.issued, id < h.tables.curSession
  increasing : h.issued.Pairwise (· < ·)

theorem inv_init : Inv init where
  count := rfl
  live _ hid := by simp [init, ServerState.init] at hid
  active := by simp [init, ServerState.init]
  below _ hid := by cases hid
  increasing := List.Pairwise.nil

variable {h h' : History}

/-- The next number is issued. -/
theorem Inv.issue (h : Inv h') (hmax : h'.tables.curSession ≠ Int32.maxValue) :
    Inv ⟨{ h'.tables with
        sessions := insert h'.tables.curSession h'.tables.sessions
        curSession := h'.tables.curSession + 1 }, h'.issued ++ [h'.tables.curSession]⟩ := by
  have hsucc := toInt_succ hmax
  have hcount := h.count
  have hself : h'.tables.curSession < h'.tables.curSession + 1 := Int32.lt_iff_toInt_lt.mpr (by omega)
  refine ⟨?_, ?_, ?_, ?_, ?_⟩
  · rw [List.length_append, List.length_singleton, hsucc, hcount]
    omega
  · intro id hid
    rcases Finset.mem_insert.mp hid with rfl | hid
    · exact ⟨Int32.le_iff_toInt_le.mpr (by rw [hcount]; change (1 : Int) ≤ _; omega), hself⟩
    · obtain ⟨hpos, hlt⟩ := h.live id hid
      exact ⟨hpos, Int32.lt_trans hlt hself⟩
  · exact h.active.trans (Finset.subset_insert _ _)
  · intro id hid
    rcases List.mem_append.mp hid with hid | hid
    · exact Int32.lt_trans (h.below id hid) hself
    · rw [List.mem_singleton.mp hid]
      exact hself
  · refine List.pairwise_append.mpr ⟨h.increasing, List.pairwise_singleton _ _, fun id hid k hk => ?_⟩
    rw [List.mem_singleton.mp hk]
    exact h.below id hid

/-- A call that issues nothing leaves the invariant to the live and active sessions. -/
theorem Inv.of_tables (h : Inv h') {tables : ServerState} (hcur : tables.curSession = h'.tables.curSession)
    (hlive : tables.sessions ⊆ h'.tables.sessions) (hactive : tables.activeSessions ⊆ tables.sessions) :
    Inv { h' with tables } where
  count := by rw [← h.count]; exact congrArg Int32.toInt hcur
  live id hid := by
    obtain ⟨hpos, hlt⟩ := h.live id (hlive hid)
    exact ⟨hpos, hcur ▸ hlt⟩
  active := hactive
  below id hid := hcur ▸ h.below id hid
  increasing := h.increasing

/-- **Every call keeps the invariant**, and issues one number more exactly if it creates a session. -/
theorem call_inv (hinv : Inv h) {c : SessionCall} (hcall : h.call c = some h') :
    Inv h' ∧ h'.issued.length = h.issued.length + if h.Creates c then 1 else 0 := by
  cases c with
  | generateSession sessionId =>
    rcases generateSession_cases h.tables sessionId with ⟨hlive, hgen⟩ | ⟨_, _, hgen⟩ | ⟨hlive, hmax, hgen⟩
    · have hnot : ¬h.Creates (.generateSession sessionId) := not_not.mpr hlive
      simp only [call, hgen, if_neg hnot, Option.some.injEq] at hcall
      subst hcall
      exact ⟨hinv, by rw [if_neg hnot]; rfl⟩
    · simp only [call, hgen] at hcall
      cases hcall
    · have hcreates : h.Creates (.generateSession sessionId) := hlive
      simp only [call, hgen, if_pos hcreates, Option.some.injEq] at hcall
      subst hcall
      exact ⟨hinv.issue hmax, by rw [if_pos hcreates, List.length_append, List.length_singleton]⟩
  | disconnectSession sessionId =>
    cases hcall
    refine ⟨hinv.of_tables rfl (Finset.erase_subset _ _) ?_, rfl⟩
    exact Finset.erase_subset_erase _ hinv.active
  | selectPlayer sessionId =>
    cases hcall
    refine ⟨hinv.of_tables selectPlayer_curSession (by rw [selectPlayer_sessions]) ?_, rfl⟩
    rw [selectPlayer_sessions]
    exact selectPlayer_activeSessions_subset hinv.active
  | verifySession _ | verifyActiveSession _ =>
    cases hcall
    exact ⟨hinv, rfl⟩
  | getSessionAccountName sessionId =>
    cases hcall
    refine ⟨hinv.of_tables getSessionAccountName_curSession (by rw [getSessionAccountName_sessions]) ?_, rfl⟩
    rw [getSessionAccountName_sessions, getSessionAccountName_activeSessions]
    exact hinv.active

/-- A call overflows only if it creates a session, and `2^31 - 2` are created. -/
theorem call_eq_none (hinv : Inv h) {c : SessionCall} (hcall : h.call c = none) :
    h.Creates c ∧ h.issued.length + 1 = 2 ^ 31 - 1 := by
  cases c with
  | generateSession sessionId =>
    rcases generateSession_cases h.tables sessionId with ⟨_, hgen⟩ | ⟨hlive, hmax, _⟩ | ⟨_, _, hgen⟩
    · simp [call, hgen] at hcall
    · have hcount := hinv.count
      rw [hmax, show Int32.maxValue.toInt = 2 ^ 31 - 1 from rfl] at hcount
      exact ⟨hlive, by omega⟩
    · simp [call, hgen] at hcall
  | disconnectSession _ | selectPlayer _ | verifySession _ | verifyActiveSession _ | getSessionAccountName _ =>
    cases hcall

/-- A sequence of calls that issues fewer than `2^31 - 1` numbers is defined, and keeps the invariant. -/
theorem exec_inv (hinv : Inv h) {calls : List SessionCall} (hids : h.issued.length + h.newIds calls < 2 ^ 31 - 1) :
    ∃ h', exec call h calls = some h' ∧ Inv h' ∧ h'.issued.length = h.issued.length + h.newIds calls := by
  induction calls generalizing h with
  | nil => exact ⟨h, rfl, hinv, rfl⟩
  | cons c calls ih =>
    cases hcall : h.call c with
    | none =>
      obtain ⟨hcreates, hlen⟩ := call_eq_none hinv hcall
      rw [newIds, if_pos hcreates] at hids
      omega
    | some h₁ =>
      obtain ⟨hinv₁, hlen₁⟩ := call_inv hinv hcall
      rw [newIds, hcall, Option.elim_some] at hids
      obtain ⟨h', hexec, hinv', hlen'⟩ := ih hinv₁ (by omega)
      refine ⟨h', by rw [exec, hcall]; exact hexec, hinv', ?_⟩
      rw [newIds, hcall, Option.elim_some]
      omega

/-- What a call of `GenerateSession` returns: a live session as it is; otherwise a number that was not issued before, and
is live then. -/
theorem generateSession_fresh (hinv : Inv h) {sessionId id : Int32} {tables : ServerState}
    (hgen : h.tables.generateSession sessionId = (some id, tables)) :
    tables.generateSession id = (some id, tables) ∧
      (sessionId ∉ h.tables.sessions → id ∉ h.tables.sessions ∧ ∀ k ∈ h.issued, k < id) := by
  rcases generateSession_cases h.tables sessionId with ⟨hlive, hcase⟩ | ⟨_, _, hcase⟩ | ⟨hlive, _, hcase⟩
  · rw [hcase] at hgen
    cases hgen
    exact ⟨hcase, fun hnot => absurd hlive hnot⟩
  · rw [hcase] at hgen
    cases hgen
  · rw [hcase] at hgen
    cases hgen
    refine ⟨by simp [ServerState.generateSession], fun _ => ⟨fun hmem => ?_, hinv.below⟩⟩
    exact Int32.lt_irrefl (hinv.live _ hmem).2

/-- **Session numbers are issued once.** After any sequence of calls that issues fewer than `2^31 - 1` of them, live
sessions have a number from 1 below `curSession`, active ones are live, the issued numbers grow, the next one is larger
than all of them and not live; and a live number is returned with nothing changed. -/
theorem issued_once (calls : List SessionCall) (hids : init.newIds calls < 2 ^ 31 - 1) :
    ∃ h, exec call init calls = some h ∧ h.issued.length = init.newIds calls ∧
      (∀ id ∈ h.tables.sessions, 1 ≤ id ∧ id < h.tables.curSession) ∧
      h.tables.activeSessions ⊆ h.tables.sessions ∧ h.issued.Pairwise (· < ·) ∧
      (∀ id ∈ h.tables.sessions, h.tables.generateSession id = (some id, h.tables)) ∧
      ∀ sessionId id tables, h.tables.generateSession sessionId = (some id, tables) →
        tables.generateSession id = (some id, tables) ∧
          (sessionId ∉ h.tables.sessions → id ∉ h.tables.sessions ∧ ∀ k ∈ h.issued, k < id) := by
  have hzero : init.issued.length + init.newIds calls < 2 ^ 31 - 1 := by
    rw [show init.issued.length = 0 from rfl]
    omega
  obtain ⟨h, hexec, hinv, hlen⟩ := exec_inv inv_init hzero
  refine ⟨h, hexec, ?_, hinv.live, hinv.active, hinv.increasing, fun id hid => ?_,
    fun sessionId id tables hgen => generateSession_fresh hinv hgen⟩
  · rw [hlen, show init.issued.length = 0 from rfl, Nat.zero_add]
  · simp [ServerState.generateSession, hid]

/-- A session is created, disconnected, and asked for again. -/
theorem issued_once_again :
    ∃ h, exec call init [.generateSession 0, .disconnectSession 1, .generateSession 1] = some h ∧
      h.issued.Pairwise (· < ·) := by
  obtain ⟨h, hexec, _, _, _, hincreasing, _⟩ :=
    issued_once [.generateSession 0, .disconnectSession 1, .generateSession 1] (by decide)
  exact ⟨h, hexec, hincreasing⟩

end History

end Celegraph.Sessions
