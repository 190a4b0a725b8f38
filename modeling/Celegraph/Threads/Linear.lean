import Celegraph.Server.Serial
import Celegraph.Threads.Races
import Mathlib.Data.Fintype.Sum
import Mathlib.Tactic.DeriveFintype

/-!
# One packet after another

However the workers and the shell are scheduled, the session tables and the replies are those of a server that handles
one packet after another: for some order of the packets, in which a packet whose handling ended before that of another
began comes first (`linearizable`). The order is that in which the workers leave their sections of `serverStateMutex`.

- `started`, `ended`: the packets whose handling was begun, and ended, in a run.
- `handleAll`: packets handled one after another, each alone.
-/

namespace Celegraph.Threads

open CxxString Packets Utils Server Runs
open Queue (Thread NUM_WORKER_THREADS)

deriving instance Fintype for Thread

variable {N : Nat} {mp : Msgpack} {s s' : State N}

/-- A packet to be handled, and what the memory of its handler's local packet holds. -/
abbrev Job := Uninit × Packet

/-- The packet whose handling a step begins. -/
def startedBy (s : State N) : Act N → Option Job
  | .handle i u =>
    match (s.queue.worker i).loc with
    | .handle p => some (u, p)
    | _ => none
  | _ => none

/-- The packet whose handling a step ends. -/
def endedBy (s : State N) : Act N → Option Packet
  | .handled i =>
    match (s.queue.worker i).loc with
    | .handle p => some p
    | _ => none
  | _ => none

def started (tr : List (State N × Act N)) : List Job := tr.filterMap fun x => startedBy x.1 x.2

def ended (tr : List (State N × Act N)) : List Packet := tr.filterMap fun x => endedBy x.1 x.2

/-- Packets handled one after another, each by a handler that runs alone. -/
def handleAll (mp : Msgpack) : Server → List Job → Option (Server × List Datagram)
  | s, [] => some (s, [])
  | s, (u, p) :: jobs =>
    match (handlePacket mp u p).run s [] with
    | .ok _ s' _ out => (handleAll mp s' jobs).map fun x => (x.1, out ++ x.2)
    | .exception | .undefined | .deadlock => none

/-- The effect of a handler that runs alone. -/
def serve (mp : Msgpack) (job : Job) : ServerState → Option (ServerState × List Datagram) :=
  alone (handlePacket mp job.1 job.2)

/-- What is observed of packets that are handled one after another does not depend on the connections. -/
theorem handleAll_of_serveAll {jobs : List Job} {s : Server} {v : ServerState} {out : List Datagram}
    (h : serveAll (serve mp) s.serverState jobs = some (v, out)) :
    ∃ s' out', handleAll mp s jobs = some (s', out') ∧ s'.serverState = v ∧ sessionTables.seen out' = out := by
  induction jobs generalizing s out with
  | nil =>
    cases h
    exact ⟨s, [], rfl, rfl, rfl⟩
  | cons job jobs ih =>
    obtain ⟨⟨v₁, out₁⟩, h₁, hrest⟩ := Option.bind_eq_some_iff.mp h
    obtain ⟨⟨v₂, out₂⟩, h₂, hout⟩ := Option.map_eq_some_iff.mp hrest
    cases hout
    obtain ⟨s', out', hrun, rfl, rfl⟩ := run_of_alone h₁
    obtain ⟨s'', out'', hall, hv, hseen⟩ := ih h₂
    refine ⟨s'', out' ++ out'', ?_, hv, by rw [Observer.seen_append, hseen]⟩
    simp only [handleAll, hrun, hall, Option.map_some]

/-! ## The packets at work -/

/-- The packet that a thread is handling. -/
def handledBy (s : State N) : Thread N → Multiset Packet
  | .worker i =>
    match s.handling i, (s.queue.worker i).loc with
    | true, .handle p => {p}
    | _, _ => 0
  | .main | .shell => 0

theorem handledBy_true {i : Fin N} {p : Packet} (hh : s.handling i = true) (hp : (s.queue.worker i).loc = .handle p) :
    handledBy s (.worker i) = {p} := by
  simp only [handledBy, hh, hp]

theorem handledBy_false {i : Fin N} (hh : s.handling i = false) : handledBy s (.worker i) = 0 := by
  simp only [handledBy, hh]

/-- A worker that goes on handling, or does not handle, its packet. -/
theorem handledBy_kept (hok : Ok s) {i : Fin N} (hh : s'.handling i = s.handling i)
    (hloc : ∀ p, (s.queue.worker i).loc = .handle p → s.handling i = true → (s'.queue.worker i).loc = .handle p) :
    handledBy s' (.worker i) = handledBy s (.worker i) := by
  cases hi : s.handling i with
  | false => rw [handledBy_false (hh.trans hi), handledBy_false hi]
  | true =>
    obtain ⟨p, hp⟩ := hok.handling i hi
    rw [handledBy_true (hh.trans hi) (hloc p hp hi), handledBy_true hi hp]

/-- The workers are left alone. -/
theorem handledBy_eq (hok : Ok s) (hh : s'.handling = s.handling)
    (hloc : ∀ i p, (s.queue.worker i).loc = .handle p → s.handling i = true → (s'.queue.worker i).loc = .handle p) :
    handledBy s' = handledBy s := by
  funext t
  cases t with
  | main | shell => rfl
  | worker i => exact handledBy_kept hok (congrFun hh i) (hloc i)

/-- One worker moves. -/
theorem handledBy_update (hok : Ok s) {i : Fin N} {b : Bool} (hh : s'.handling = Function.update s.handling i b)
    (hloc : ∀ j, j ≠ i → ∀ p, (s.queue.worker j).loc = .handle p → (s'.queue.worker j).loc = .handle p)
    {x : Multiset Packet} (hx : handledBy s' (.worker i) = x) :
    handledBy s' = Function.update (handledBy s) (.worker i) x := by
  funext t
  by_cases ht : t = .worker i
  · rw [ht, Function.update_self, hx]
  · rw [Function.update_of_ne ht]
    cases t with
    | main | shell => rfl
    | worker j =>
      have hj : j ≠ i := fun hj => ht (hj ▸ rfl)
      exact handledBy_kept hok (by rw [hh, Function.update_of_ne hj]) fun p hp _ => hloc j hj p hp

/-- A step begins the handling of a packet, ends it, or does neither. -/
theorem handledBy_cases (hok : Ok s) {a : Act N} (h : step mp s a = some s') :
    (startedBy s a = none ∧ endedBy s a = none ∧ handledBy s' = handledBy s ∧
      (s'.pool = s.pool ∨ (∃ action, s.pool.start .shell (AdminShell.Action.code action) = some s'.pool) ∨
        ∃ t, s.pool.step t = some s'.pool)) ∨
    (∃ i u p, startedBy s a = some (u, p) ∧ endedBy s a = none ∧ handledBy s (.worker i) = 0 ∧
      handledBy s' = Function.update (handledBy s) (.worker i) {p} ∧
      s.pool.start (.worker i) (handlePacket mp u p) = some s'.pool) ∨
    ∃ i p, startedBy s a = none ∧ endedBy s a = some p ∧ s.pool.code (.worker i) = .pure () ∧
      handledBy s (.worker i) = {p} ∧ handledBy s' = Function.update (handledBy s) (.worker i) 0 ∧
      s'.pool = s.pool := by
  cases a with
  | queue a =>
    refine .inl ⟨rfl, rfl, ?_⟩
    cases a with
    | worker i =>
      simp only [step, queueStep] at h
      split at h
      · cases h
      · rename_i hloc
        obtain ⟨queue, hq, rfl⟩ := Option.map_eq_some_iff.mp h
        refine ⟨handledBy_eq hok rfl fun j p hp _ => handle_kept (Queue.step_sound hq) ?_ hp, .inl rfl⟩
        rintro ⟨rfl⟩
        exact hloc p hp
    | size =>
      simp only [step, queueStep] at h
      split at h
      · obtain ⟨queue, hq, rfl⟩ := Option.map_eq_some_iff.mp h
        exact ⟨handledBy_eq hok rfl fun j p hp _ => handle_kept (Queue.step_sound hq) (by simp) hp, .inl rfl⟩
      · cases h
    | receive | run | notify | spurious =>
      obtain ⟨queue, hq, rfl⟩ := Option.map_eq_some_iff.mp h
      exact ⟨handledBy_eq hok rfl fun j p hp _ => handle_kept (Queue.step_sound hq) (by simp) hp, .inl rfl⟩
  | handle i u =>
    simp only [step, handleStep] at h
    split at h
    · rename_i p hp
      split at h
      · cases h
      · rename_i hi
        obtain ⟨pool, hpool, rfl⟩ := Option.map_eq_some_iff.mp h
        refine .inr (.inl ⟨i, u, p, by simp only [startedBy, hp], rfl, handledBy_false (by simpa using hi), ?_, hpool⟩)
        have htrue : Function.update s.handling i true i = true := Function.update_self ..
        refine handledBy_update (b := true) hok rfl (fun _ _ _ => ?_) (handledBy_true htrue hp)
        exact fun hp' => hp'
    · cases h
  | handled i =>
    simp only [step, handledStep] at h
    split at h
    · rename_i p hp
      split at h
      · rename_i hcond
        simp only [Bool.and_eq_true] at hcond
        obtain ⟨queue, hq, rfl⟩ := Option.map_eq_some_iff.mp h
        refine .inr (.inr ⟨i, p, rfl, by simp only [endedBy, hp], Pool.idle_iff.mp hcond.2,
          handledBy_true hcond.1 hp, ?_, rfl⟩)
        have hfalse : Function.update s.handling i false i = false := Function.update_self ..
        refine handledBy_update (b := false) hok rfl (fun j hj q hq' => ?_) (handledBy_false hfalse)
        exact handle_kept (Queue.step_sound hq) (by simpa using Ne.symm hj) hq'
      · cases h
    · cases h
  | command adminCommand =>
    refine .inl ⟨rfl, rfl, ?_⟩
    simp only [step, commandStep] at h
    split at h
    · split at h
      · cases h
      · cases h
        exact ⟨handledBy_eq hok rfl fun _ _ hp _ => hp, .inl rfl⟩
      · obtain ⟨pool, hpool, rfl⟩ := Option.map_eq_some_iff.mp h
        exact ⟨handledBy_eq hok rfl fun _ _ hp _ => hp, .inr (.inl ⟨_, hpool⟩)⟩
    · cases h
  | commanded =>
    refine .inl ⟨rfl, rfl, ?_⟩
    simp only [step] at h
    split at h
    · cases h
      exact ⟨handledBy_eq hok rfl fun _ _ hp _ => hp, .inl rfl⟩
    · cases h
  | work t =>
    refine .inl ⟨rfl, rfl, ?_⟩
    obtain ⟨pool, hpool, rfl⟩ := Option.map_eq_some_iff.mp h
    exact ⟨handledBy_eq hok rfl fun _ _ hp _ => hp, .inr (.inr ⟨t, hpool⟩)⟩

/-! ## The order -/

/-- The packets of jobs. -/
def packetsOf (jobs : Multiset Job) : Multiset Packet := jobs.map Prod.snd

@[simp] theorem packetsOf_add (jobs jobs' : Multiset Job) :
    packetsOf (jobs + jobs') = packetsOf jobs + packetsOf jobs' :=
  Multiset.map_add Prod.snd jobs jobs'

/-- The jobs `L` are served one after another, each thread is at its stage, and the order of `L` is that of the run `tr`
so far. -/
structure InLine (mp : Msgpack) (tr : List (State N × Act N)) (s : State N) (L : List Job) (v : ServerState)
    (out : List Datagram) (st : Thread N → Pool.Stage Job ServerState Datagram) : Prop where
  linear : Pool.Linear sessionTables (serve mp) ServerState.init L v out st s.pool
  jobs : (L : Multiset Job) + ∑ t, (st t).pending = (started tr : Multiset Job)
  packets : (ended tr : Multiset Packet) + ∑ t, handledBy s t = packetsOf (started tr : Multiset Job)
  pending : ∀ t, packetsOf (st t).pending ≤ handledBy s t
  order : ∀ tr₁ tr₂, tr = tr₁ ++ tr₂ → ∃ L₁ L₂, L = L₁ ++ L₂ ∧
    (ended tr₁ : Multiset Packet) ≤ packetsOf (L₁ : Multiset Job) ∧
    (started tr₂ : Multiset Job) ≤ L₂ + ∑ t, (st t).pending

theorem inLine_init : InLine mp [] (init N) [] ServerState.init [] fun _ => .served [] where
  linear := Pool.linear_init (p := (init N).pool) (O := sessionTables) (fun _ => rfl) rfl rfl
  jobs := by simp [started, Pool.Stage.pending]
  packets := by
    have hnone : ∀ t, handledBy (init N) t = 0 := fun t => by cases t <;> rfl
    simp [ended, started, hnone, packetsOf]
  pending t := by simp [Pool.Stage.pending, packetsOf]
  order tr₁ tr₂ h := by
    obtain ⟨rfl, rfl⟩ := List.append_eq_nil_iff.mp h.symm
    exact ⟨[], [], rfl, by simp [ended], by simp [started]⟩

/-- All packets whose handling has ended are served. -/
theorem ended_le {tr : List (State N × Act N)} {L : List Job} {st : Thread N → Pool.Stage Job ServerState Datagram}
    (hstarted : (L : Multiset Job) + ∑ t, (st t).pending = (started tr : Multiset Job))
    (hended : (ended tr : Multiset Packet) + ∑ t, handledBy s t = packetsOf (started tr : Multiset Job))
    (hpending : ∀ t, packetsOf (st t).pending ≤ handledBy s t) :
    (ended tr : Multiset Packet) ≤ packetsOf (L : Multiset Job) := by
  have hle : packetsOf (∑ t, (st t).pending) ≤ ∑ t, handledBy s t := by
    rw [packetsOf, ← Multiset.coe_mapAddMonoidHom, map_sum]
    exact Finset.sum_le_sum fun t _ => hpending t
  refine le_of_add_le_add_right (a := packetsOf (∑ t, (st t).pending)) ?_
  calc (ended tr : Multiset Packet) + packetsOf (∑ t, (st t).pending)
      ≤ ended tr + ∑ t, handledBy s t := add_le_add_right hle _
    _ = packetsOf L + packetsOf (∑ t, (st t).pending) := by rw [hended, ← hstarted, packetsOf_add]

theorem started_append (tr : List (State N × Act N)) (s : State N) (a : Act N) :
    started (tr ++ [(s, a)]) = started tr ++ (startedBy s a).toList := by
  rw [started, List.filterMap_append, started]
  cases h : startedBy s a <;> simp [h]

theorem ended_append (tr : List (State N × Act N)) (s : State N) (a : Act N) :
    ended (tr ++ [(s, a)]) = ended tr ++ (endedBy s a).toList := by
  rw [ended, List.filterMap_append, ended]
  cases h : endedBy s a <;> simp [h]

section Step

variable {tr : List (State N × Act N)} {L : List Job} {v : ServerState} {out : List Datagram}
  {st : Thread N → Pool.Stage Job ServerState Datagram}

/-- A step that serves the jobs `M`. -/
theorem InLine.advance (h : InLine mp tr s L v out st) {a : Act N} {M : List Job} {v' : ServerState}
    {out' : List Datagram} {st' : Thread N → Pool.Stage Job ServerState Datagram}
    (hlinear : Pool.Linear sessionTables (serve mp) ServerState.init (L ++ M) v' out' st' s'.pool)
    (hjobs : (M : Multiset Job) + ∑ t, (st' t).pending = ∑ t, (st t).pending + ((startedBy s a).toList : Multiset Job))
    (hpackets : ((endedBy s a).toList : Multiset Packet) + ∑ t, handledBy s' t =
      ∑ t, handledBy s t + packetsOf ((startedBy s a).toList : Multiset Job))
    (hpending : ∀ t, packetsOf (st' t).pending ≤ handledBy s' t) :
    InLine mp (tr ++ [(s, a)]) s' (L ++ M) v' out' st' := by
  have hstarted : ((L ++ M : List Job) : Multiset Job) + ∑ t, (st' t).pending =
      (started (tr ++ [(s, a)]) : Multiset Job) := by
    rw [started_append, ← Multiset.coe_add, ← Multiset.coe_add, add_assoc, hjobs, ← add_assoc, h.jobs]
  have hended : (ended (tr ++ [(s, a)]) : Multiset Packet) + ∑ t, handledBy s' t =
      packetsOf (started (tr ++ [(s, a)]) : Multiset Job) := by
    rw [ended_append, started_append, ← Multiset.coe_add, ← Multiset.coe_add, packetsOf_add, add_assoc, hpackets,
      ← add_assoc, h.packets]
  refine ⟨hlinear, hstarted, hended, hpending, fun tr₁ tr₂ htr => ?_⟩
  rcases List.eq_nil_or_concat tr₂ with rfl | ⟨tr₂, x, rfl⟩
  · rw [List.append_nil] at htr
    subst htr
    exact ⟨L ++ M, [], (List.append_nil _).symm, ended_le hstarted hended hpending, by simp [started]⟩
  · rw [List.concat_eq_append, ← List.append_assoc] at htr
    obtain ⟨hprev, hx⟩ := List.append_inj' htr rfl
    cases hx
    obtain ⟨L₁, L₂, rfl, h₁, h₂⟩ := h.order tr₁ tr₂ hprev
    refine ⟨L₁, L₂ ++ M, List.append_assoc _ _ _, h₁, ?_⟩
    rw [List.concat_eq_append, started_append, ← Multiset.coe_add, ← Multiset.coe_add, add_assoc, hjobs, ← add_assoc]
    exact add_le_add_left h₂ _

/-- A step that serves nothing. -/
theorem InLine.stay (h : InLine mp tr s L v out st) {a : Act N} (hs : startedBy s a = none)
    (hlinear : Pool.Linear sessionTables (serve mp) ServerState.init L v out st s'.pool)
    (hpackets : ((endedBy s a).toList : Multiset Packet) + ∑ t, handledBy s' t = ∑ t, handledBy s t)
    (hpending : ∀ t, packetsOf (st t).pending ≤ handledBy s' t) : InLine mp (tr ++ [(s, a)]) s' L v out st := by
  have hline := h.advance (a := a) (M := []) (by rwa [List.append_nil]) (by simp [hs])
    (by simpa [hs, packetsOf] using hpackets) hpending
  rwa [List.append_nil] at hline

/-- **The jobs stay in line** at every step. -/
theorem InLine.step (hok : Ok s) (h : InLine mp tr s L v out st) {a : Act N} (hst : step mp s a = some s') :
    ∃ L' v' out' st', InLine mp (tr ++ [(s, a)]) s' L' v' out' st' := by
  rcases handledBy_cases hok hst with ⟨hs, he, hsame, hpool⟩ | ⟨i, u, p, hs, he, hzero, hupdate, hpool⟩ |
    ⟨i, p, hs, he, hidle, hone, hupdate, hpool⟩
  · -- no handling begins or ends
    have hpackets : ((endedBy s a).toList : Multiset Packet) + ∑ t, handledBy s' t = ∑ t, handledBy s t := by
      simp [he, hsame]
    rcases hpool with hpool | ⟨action, hpool⟩ | ⟨t, hpool⟩
    · exact ⟨L, v, out, st, h.stay hs (hpool ▸ h.linear) hpackets (hsame ▸ h.pending)⟩
    · exact ⟨L, v, out, st, h.stay hs (h.linear.start_quiet (unseen_code action) hpool) hpackets (hsame ▸ h.pending)⟩
    · obtain ⟨M, v', out', st', hlinear, hjobs, hle⟩ := h.linear.step hpool
      refine ⟨_, _, _, _, h.advance hlinear (by simpa [hs] using hjobs) ?_ fun t => ?_⟩
      · simpa [hs, packetsOf] using hpackets
      · rw [hsame]
        exact (Multiset.map_le_map (hle t)).trans (h.pending t)
  · -- worker `i` begins with `p`
    obtain ⟨M, v', out', st', hlinear, hjobs, hself, hothers⟩ :=
      h.linear.start (r := (u, p)) (serves_handlePacket mp u p) hpool
    refine ⟨_, _, _, _, h.advance hlinear (by simpa [hs] using hjobs) ?_ fun t => ?_⟩
    · have hsum := Runs.sum_update_add (handledBy s) (Thread.worker i) ({p} : Multiset Packet)
      rw [hupdate, hs, he]
      simpa [hzero, packetsOf] using hsum
    · rw [hupdate]
      by_cases ht : t = .worker i
      · subst ht
        rw [Function.update_self]
        exact Multiset.map_le_map hself
      · rw [Function.update_of_ne ht, hothers t ht]
        exact h.pending t
  · -- worker `i` has ended with `p`
    refine ⟨L, v, out, st, h.stay hs (hpool ▸ h.linear) ?_ fun t => ?_⟩
    · have hsum := Runs.sum_update_add (handledBy s) (Thread.worker i) (0 : Multiset Packet)
      rw [hone, add_zero, add_comm] at hsum
      rw [hupdate, he]
      simpa using hsum
    · rw [hupdate]
      by_cases ht : t = .worker i
      · subst ht
        rw [Function.update_self, (h.linear.stage_of_idle hidle).1]
        exact le_rfl
      · rw [Function.update_of_ne ht]
        exact h.pending t

end Step

theorem inLine_of_run {tr : List (State N × Act N)} (h : Run (step mp) (init N) tr s) :
    ∃ L v out st, InLine mp tr s L v out st := by
  induction h with
  | init => exact ⟨_, _, _, _, inLine_init⟩
  | step hr hst ih =>
    obtain ⟨L, v, out, st, hline⟩ := ih
    exact hline.step (run_ok hr) hst

/-- **The server is linearizable**: in every state in which no thread runs a handler or a command, the session tables
and the replies sent are those of a server that handles the packets one after another, in an order in which a packet
whose handling ended before that of another began comes first. -/
theorem linearizable {tr : List (State N × Act N)} (h : Run (step mp) (init N) tr s)
    (hrest : ∀ t, s.pool.idle t = true) : ∃ L : List Job, L.Perm (started tr) ∧
      (∃ s' out, handleAll mp .init L = some (s', out) ∧ s'.serverState = s.pool.shared.serverState ∧
        (sessionTables.seen out).Perm (sessionTables.seen s.pool.out)) ∧
      ∀ tr₁ tr₂, tr = tr₁ ++ tr₂ → ∃ L₁ L₂, L = L₁ ++ L₂ ∧ (ended tr₁).Subperm (L₁.map Prod.snd) ∧
        (started tr₂).Subperm L₂ := by
  obtain ⟨L, v, out, st, hline⟩ := inLine_of_run h
  obtain ⟨hpending, hview, hout⟩ := hline.linear.at_rest fun t => Pool.idle_iff.mp (hrest t)
  refine ⟨L, ?_, ?_, fun tr₁ tr₂ htr => ?_⟩
  · have hstarted := hline.jobs
    rw [hpending, add_zero] at hstarted
    exact Multiset.coe_eq_coe.mp hstarted
  · obtain ⟨s', out', hall, hv, hseen⟩ := handleAll_of_serveAll (s := .init) hline.linear.serves
    exact ⟨s', out', hall, hv.trans hview.symm, hseen ▸ hout⟩
  · obtain ⟨L₁, L₂, hL, h₁, h₂⟩ := hline.order tr₁ tr₂ htr
    rw [hpending, add_zero] at h₂
    exact ⟨L₁, L₂, hL, Multiset.coe_le.mp h₁, Multiset.coe_le.mp h₂⟩

/-- The `CONNECT` of another client. -/
def secondConnect : Packet := { connectPacket with source := ⟨0x7f000001, 40001⟩ }

/-- A packet arrives, and worker `i`, which waits, takes it. -/
def handOver (p : Packet) (i : Fin NUM_WORKER_THREADS) : List (Act NUM_WORKER_THREADS) :=
  [.queue (.receive p), .queue .run, .queue .run, .queue .run, .queue (.notify (some i)), .queue (.worker i),
    .queue (.worker i), .queue (.worker i), .queue (.worker i)]

/-- The first client's `CONNECT` is handed over first, but the second one's is the first in the section. -/
def overtaken : List (Act NUM_WORKER_THREADS) :=
  [[.queue (.worker 0), .queue (.worker 0), .queue (.worker 1), .queue (.worker 1)], handOver connectPacket 0,
    handOver secondConnect 1, [.handle 0 ⟨0, 0⟩, .handle 1 ⟨0, 0⟩], List.replicate 3 (.work (.worker 1)),
    List.replicate 7 (.work (.worker 0)), List.replicate 4 (.work (.worker 1)), [.handled 0, .handled 1]].flatten

theorem linearizable_overtaken : ∃ tr s, Run (step .reference) (init NUM_WORKER_THREADS) tr s ∧
    tr.map Prod.snd = overtaken ∧ s.pool.shared.activeConnections[(1 : Int32)]? = some secondConnect.source ∧
    ∃ L : List Job, L.Perm (started tr) ∧
      (∃ s' out, handleAll .reference .init L = some (s', out) ∧ s'.serverState = s.pool.shared.serverState ∧
        (sessionTables.seen out).Perm (sessionTables.seen s.pool.out)) ∧
      ∀ tr₁ tr₂, tr = tr₁ ++ tr₂ → ∃ L₁ L₂, L = L₁ ++ L₂ ∧ (ended tr₁).Subperm (L₁.map Prod.snd) ∧
        (started tr₂).Subperm L₂ := by
  have hcheck : (exec (step .reference) (init NUM_WORKER_THREADS) overtaken).any (fun s =>
      s.pool.shared.activeConnections[(1 : Int32)]? = some secondConnect.source ∧ ∀ t, s.pool.idle t = true) := by
    decide +kernel
  obtain ⟨s, hs, hend⟩ := (Option.any_eq_true _ _).mp hcheck
  obtain ⟨hconn, hrest⟩ := of_decide_eq_true hend
  obtain ⟨tr, hr, hacts⟩ := Run.of_exec hs
  exact ⟨tr, s, hr, hacts, hconn, linearizable hr hrest⟩

end Celegraph.Threads
