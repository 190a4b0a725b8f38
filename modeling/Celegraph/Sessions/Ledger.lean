import Celegraph.Lib.Pool
import Celegraph.Server
import Mathlib.Data.Set.Insert

/-!
# The ledger of sessions

What the handlers of all workers keep between any two of their actions, said of a ledger that only grows: to whom each
session was issued first (`creator`), and which sessions have had a connection saved (`bound`).

- `Tenure`: which clients may be connected as a session, a parameter. `Tenure.anyone` asks that the session was issued,
  `Tenure.creator` that it was issued to that client.
- `Inv`: the issued sessions are the numbers below `curSession`; live sessions and accounts are issued, the keys of
  `activeConnections` are the bound sessions, and each entry is a tenant.
- `spec`: replies to `CONNECT` and messages go to tenants, a reply only for a bound session; an issued session is owed a
  reply to its creator.
-/

namespace Celegraph.Sessions

open CxxString Packets Utils Server Prog
open MessagePack (Obj)

/-! ## Ledgers -/

/-- To whom the sessions were issued first, and which have had a connection saved. -/
structure Ledger where
  creator : Int32 → Option SockAddr
  bound : Set Int32

namespace Ledger

instance : Preorder Ledger where
  le w w' := (∀ id client, w.creator id = some client → w'.creator id = some client) ∧ w.bound ⊆ w'.bound
  le_refl _ := ⟨fun _ _ => id, Set.Subset.rfl⟩
  le_trans _ _ _ h h' := ⟨fun id client hc => h'.1 id client (h.1 id client hc), h.2.trans h'.2⟩

def empty : Ledger := ⟨fun _ => none, ∅⟩

/-- The session `id` is issued to `client`. -/
def issue (w : Ledger) (id : Int32) (client : SockAddr) : Ledger :=
  { w with creator := Function.update w.creator id (some client) }

/-- The connection of the session `id` is saved. -/
def bind (w : Ledger) (id : Int32) : Ledger := { w with bound := insert id w.bound }

variable {w w' : Ledger} {id : Int32} {client : SockAddr}

theorem le_issue (h : w.creator id = none) : w ≤ w.issue id client := by
  refine ⟨fun k a hk => ?_, Set.Subset.rfl⟩
  have hne : k ≠ id := by rintro rfl; rw [h] at hk; cases hk
  simpa [issue, hne] using hk

theorem le_bind : w ≤ w.bind id := ⟨fun _ _ => (·), Set.subset_insert _ _⟩

theorem isSome_creator_mono (h : w ≤ w') (hid : (w.creator id).isSome) : (w'.creator id).isSome := by
  obtain ⟨a, ha⟩ := Option.isSome_iff_exists.mp hid
  exact Option.isSome_iff_exists.mpr ⟨a, h.1 id a ha⟩

end Ledger

/-- Which clients may be connected as a session. -/
structure Tenure where
  holds : Ledger → Int32 → SockAddr → Prop
  mono {w w' : Ledger} {id : Int32} {client : SockAddr} : w ≤ w' → holds w id client → holds w' id client
  of_creator {w : Ledger} {id : Int32} {client : SockAddr} : w.creator id = some client → holds w id client
  issued {w : Ledger} {id : Int32} {client : SockAddr} : holds w id client → (w.creator id).isSome

/-- Anyone, once the session is issued. -/
def Tenure.anyone : Tenure where
  holds w id _ := (w.creator id).isSome
  mono h := Ledger.isSome_creator_mono h
  of_creator h := by rw [h]; rfl
  issued h := h

/-- The client to whom the session was issued first. -/
def Tenure.creator : Tenure where
  holds w id client := w.creator id = some client
  mono h := h.1 _ _
  of_creator h := h
  issued h := by rw [h]; rfl

/-! ## The specification -/

/-- The tables agree with the ledger. -/
structure Inv (T : Tenure) (w : Ledger) (s : Server) : Prop where
  positive : 1 ≤ s.serverState.curSession
  issued : ∀ id, (w.creator id).isSome ↔ 1 ≤ id ∧ id < s.serverState.curSession
  live : ∀ id ∈ s.serverState.sessions, (w.creator id).isSome
  active : s.serverState.activeSessions ⊆ s.serverState.sessions
  accounts : ∀ id ∈ s.serverState.sessionAccounts, (w.creator id).isSome
  bound : ∀ id, id ∈ s.activeConnections ↔ id ∈ w.bound
  tenant : ∀ id client, s.activeConnections[id]? = some client → T.holds w id client

/-- Replies to `CONNECT` go to tenants of bound sessions, messages to tenants. -/
structure Emits (T : Tenure) (w : Ledger) (d : Datagram) : Prop where
  reply : d.packetType = .CONNECT → ∃ id, d = connectReply id d.dest ∧ T.holds w id d.dest ∧ id ∈ w.bound
  message : d.packetType = .SENDSERVERCOMMAND → ∃ id command, d = serverCommand id command d.dest ∧ T.holds w id d.dest

def spec (T : Tenure) : Spec Ledger Server Datagram where
  inv := Inv T
  emits := Emits T
  owes w d := ∃ id client, w.creator id = some client ∧ d = connectReply id client
  emits_mono h hd :=
    { reply := fun ht => (hd.reply ht).imp fun _ ⟨hd, hh, hb⟩ => ⟨hd, T.mono h hh, h.2 hb⟩
      message := fun ht => (hd.message ht).imp fun _ ⟨c, hd, hh⟩ => ⟨c, hd, T.mono h hh⟩ }

variable {T : Tenure} {w : Ledger} {s : Server}

theorem inv_init : Inv T .empty Server.init where
  positive := by decide
  issued id := by
    have : ¬(1 ≤ id ∧ id < (1 : Int32)) := by rw [Int32.le_iff_toInt_le, Int32.lt_iff_toInt_lt]; omega
    simp [Ledger.empty, Server.init, ServerState.init, this]
  live _ h := by simp [Server.init, ServerState.init] at h
  active := by simp [Server.init, ServerState.init]
  accounts _ h := by simp [Server.init, ServerState.init] at h
  bound id := by simp [Server.init, Ledger.empty]
  tenant _ _ h := by simp [Server.init] at h

/-! ## Calls -/

section Calls

/-- The numbers up to the next one. -/
theorem range_succ {c k : Int32} (h : c ≠ Int32.maxValue) (hc : 1 ≤ c) :
    1 ≤ k ∧ k < c + 1 ↔ k = c ∨ 1 ≤ k ∧ k < c := by
  simp only [Int32.le_iff_toInt_le, Int32.lt_iff_toInt_lt, ← Int32.toInt_inj, toInt_succ h] at hc ⊢
  omega

theorem le_succ {c : Int32} (h : c ≠ Int32.maxValue) (hc : 1 ≤ c) : 1 ≤ c + 1 := by
  simp only [Int32.le_iff_toInt_le, toInt_succ h] at hc ⊢
  omega

theorem Inv.creator_curSession (h : Inv T w s) : w.creator s.serverState.curSession = none := by
  rw [← Option.not_isSome_iff_eq_none, h.issued]
  rintro ⟨_, hlt⟩
  simp at hlt

/-- A new session is issued. -/
theorem Inv.issue (h : Inv T w s) (hmax : s.serverState.curSession ≠ Int32.maxValue) (client : SockAddr) :
    Inv T (w.issue s.serverState.curSession client) { s with serverState := { s.serverState with
      sessions := insert s.serverState.curSession s.serverState.sessions
      curSession := s.serverState.curSession + 1 } } := by
  have hle : w ≤ w.issue s.serverState.curSession client := Ledger.le_issue h.creator_curSession
  have hself : ((w.issue s.serverState.curSession client).creator s.serverState.curSession).isSome := by
    simp [Ledger.issue]
  exact
  { positive := le_succ hmax h.positive
    issued := fun id => by
      rw [range_succ hmax h.positive, ← h.issued]
      by_cases hid : id = s.serverState.curSession
      · subst hid; simpa using hself
      · simp [Ledger.issue, hid]
    live := fun id hid => by
      rcases Finset.mem_insert.mp hid with rfl | hid
      · exact hself
      · exact Ledger.isSome_creator_mono hle (h.live id hid)
    active := h.active.trans (Finset.subset_insert _ _)
    accounts := fun id hid => Ledger.isSome_creator_mono hle (h.accounts id hid)
    bound := h.bound
    tenant := fun id a ha => T.mono hle (h.tenant id a ha) }

/-- A connection is saved for a tenant. -/
theorem Inv.bind (h : Inv T w s) {id : Int32} {client : SockAddr} (hholds : T.holds w id client) :
    Inv T (w.bind id) { s with activeConnections := s.activeConnections.insert id client } :=
  { positive := h.positive
    issued := h.issued
    live := h.live
    active := h.active
    accounts := h.accounts
    bound := fun k => by
      rw [Std.TreeMap.mem_insert, Std.LawfulEqCmp.compare_eq_iff_eq, h.bound, @eq_comm _ id]
      exact Set.mem_insert_iff.symm
    tenant := fun k a hk => by
      rw [Std.TreeMap.getElem?_insert] at hk
      split at hk
      · rename_i hcmp
        rw [← Std.LawfulEqCmp.compare_eq_iff_eq.mp hcmp, ← Option.some.inj hk]
        exact T.mono Ledger.le_bind hholds
      · exact T.mono Ledger.le_bind (h.tenant k a hk) }

theorem Inv.disconnectSession (h : Inv T w s) (id : Int32) :
    Inv T w { s with serverState := s.serverState.disconnectSession id } :=
  { positive := h.positive
    issued := h.issued
    live := fun k hk => h.live k (Finset.mem_of_mem_erase hk)
    active := Finset.erase_subset_erase id h.active
    accounts := h.accounts
    bound := h.bound
    tenant := h.tenant }

theorem Inv.selectPlayer (h : Inv T w s) (id : Int32) :
    Inv T w { s with serverState := s.serverState.selectPlayer id } :=
  { positive := by simpa using h.positive
    issued := by simpa using h.issued
    live := by simpa using h.live
    active := by simpa using ServerState.selectPlayer_activeSessions_subset h.active
    accounts := by simpa using h.accounts
    bound := h.bound
    tenant := h.tenant }

/-- An account is looked up for an issued session. -/
theorem Inv.getSessionAccountName (h : Inv T w s) {id : Int32} (hid : (w.creator id).isSome) :
    Inv T w { s with serverState := (s.serverState.getSessionAccountName id).2 } :=
  { positive := by simpa using h.positive
    issued := by simpa using h.issued
    live := by simpa using h.live
    active := by simpa using h.active
    accounts := fun k hk => by
      rcases ServerState.mem_getSessionAccountName.mp hk with rfl | hk
      · exact hid
      · exact h.accounts k hk
    bound := h.bound
    tenant := h.tenant }

end Calls

end Celegraph.Sessions
