import Celegraph.Queue.Machine

/-!
# Who unlocks `packetQueueMutex`

A worker unlocks the mutex twice in an iteration: by `packetQueueMutex.unlock()` after `pop`, and by the destructor
of its `unique_lock` at the end of the iteration, when it has not held the mutex for long.

- `Step.mutex`: every step but that last one acquires the free mutex, releases it from inside the section, or leaves
  it and everybody's place with respect to it alone.
- `Step.owner_inside`: in all runs the owner of the mutex is between acquiring and releasing it.
- `mutual_exclusion_iff`: the runs in which every unlock is by the owner, and no two threads are in their sections at
  once, are exactly those in which no worker has ended an iteration.
-/

namespace Celegraph.Queue

open Runs

variable {N : Nat} {α : Type}

def RunLoc.isInside : RunLoc α → Bool
  | .push _ | .unlock => true
  | _ => false

def SizeLoc.isInside : SizeLoc → Bool
  | .size | .unlock => true
  | .lock => false

def WorkerLoc.isInside : WorkerLoc α → Bool
  | .wait | .front | .pop _ | .unlock _ => true
  | _ => false

/-- The thread is between acquiring and releasing `packetQueueMutex`. -/
def State.inside (s : State N α) : Thread N → Bool
  | .main => s.run.isInside
  | .shell => s.size.isInside
  | .worker i => (s.worker i).loc.isInside

/-- The thread that unlocks `packetQueueMutex` in the step `a`. -/
def unlocker (s : State N α) : Act N α → Option (Thread N)
  | .run => match s.run with
    | .unlock => some .main
    | _ => none
  | .size => match s.size with
    | .unlock => some .shell
    | _ => none
  | .worker i => match s.worker i with
    | ⟨.wait, _⟩ => some (.worker i)
    | ⟨.unlock _, _⟩ => some (.worker i)
    | ⟨.destroy, true⟩ => some (.worker i)
    | _ => none
  | _ => none

/-- The step unlocks the mutex only if the thread that takes it owns the mutex. -/
def UnlocksOwn (s : State N α) (a : Act N α) : Prop := ∀ t, unlocker s a = some t → s.packetQueueMutex = some t

/-- At most one thread is between acquiring and releasing the mutex. -/
def Exclusive (s : State N α) : Prop := ∀ t u, s.inside t = true → s.inside u = true → t = u

/-- The step is the end of an iteration of a worker's loop, where its `unique_lock` is destroyed. -/
def EndsIteration (s : State N α) (a : Act N α) : Prop := ∃ i o, a = .worker i ∧ s.worker i = ⟨.destroy, o⟩

@[simp] theorem setWorker_mutex (s : State N α) (i : Fin N) (w : Worker α) :
    (s.setWorker i w).packetQueueMutex = s.packetQueueMutex := rfl

@[simp] theorem setWorker_queue (s : State N α) (i : Fin N) (w : Worker α) :
    (s.setWorker i w).packetQueue = s.packetQueue := rfl

@[simp] theorem setWorker_run (s : State N α) (i : Fin N) (w : Worker α) : (s.setWorker i w).run = s.run := rfl

@[simp] theorem setWorker_worker (s : State N α) (i : Fin N) (w : Worker α) :
    (s.setWorker i w).worker = Function.update s.worker i w := rfl

/-- The mutex itself tells nothing about places. -/
theorem inside_mutex (s : State N α) (m : Option (Thread N)) (u : Thread N) :
    ({ s with packetQueueMutex := m } : State N α).inside u = s.inside u := by
  cases u <;> rfl

/-- Moving a worker moves only that worker in or out of its section. -/
theorem inside_setWorker (s : State N α) (i : Fin N) (w : Worker α) (u : Thread N) :
    (s.setWorker i w).inside u = if u = .worker i then w.loc.isInside else s.inside u := by
  cases u with
  | main => rfl
  | shell => rfl
  | worker j =>
    by_cases hj : j = i
    · subst hj; simp [State.inside]
    · simp [State.inside, hj]

/-- A worker enters its section, or leaves it. -/
theorem inside_setWorker_of {s s₁ : State N α} {i : Fin N} {w : Worker α} {b : Bool}
    (h₁ : ∀ u, s₁.inside u = s.inside u) (hw : w.loc.isInside = b) (u : Thread N) :
    (s₁.setWorker i w).inside u = if u = .worker i then b else s.inside u := by
  rw [inside_setWorker, hw, h₁]

/-- A worker stays in its section, or outside. -/
theorem inside_setWorker_of_eq {s s₁ : State N α} {i : Fin N} {w : Worker α} (h₁ : ∀ u, s₁.inside u = s.inside u)
    (hw : w.loc.isInside = (s.worker i).loc.isInside) (u : Thread N) : (s₁.setWorker i w).inside u = s.inside u := by
  rw [inside_setWorker_of h₁ hw]
  split
  · rename_i hu
    subst hu
    rfl
  · rfl

/-- What a step that is not the end of an iteration does to the mutex. -/
theorem Step.mutex {s s' : State N α} {a : Act N α} (h : Step s a s') (hne : ¬EndsIteration s a) :
    (∃ t, unlocker s a = none ∧ s.packetQueueMutex = none ∧ s'.packetQueueMutex = some t ∧
      ∀ u, s'.inside u = if u = t then true else s.inside u) ∨
    (∃ t, unlocker s a = some t ∧ s.inside t = true ∧ s'.packetQueueMutex = none ∧
      ∀ u, s'.inside u = if u = t then false else s.inside u) ∨
    (unlocker s a = none ∧ s'.packetQueueMutex = s.packetQueueMutex ∧ ∀ u, s'.inside u = s.inside u) := by
  cases h with
  | receive p hr =>
    exact .inr (.inr ⟨rfl, rfl, fun u => by cases u <;> simp [State.inside, hr, RunLoc.isInside]⟩)
  | runLock p hr hm =>
    refine .inl ⟨.main, by simp [unlocker, hr], hm, rfl, fun u => ?_⟩
    cases u <;> simp [State.inside, RunLoc.isInside]
  | push p hr =>
    refine .inr (.inr ⟨by simp [unlocker, hr], rfl, fun u => ?_⟩)
    cases u <;> simp [State.inside, hr, RunLoc.isInside]
  | runUnlock hr =>
    refine .inr (.inl ⟨.main, by simp [unlocker, hr], by simp [State.inside, hr, RunLoc.isInside], rfl, fun u => ?_⟩)
    cases u <;> simp [State.inside, RunLoc.isInside]
  | notify i o hr hw =>
    refine .inr (.inr ⟨rfl, rfl, fun u => ?_⟩)
    rw [inside_setWorker]
    cases u <;> simp [State.inside, hr, RunLoc.isInside]
    rintro rfl
    simp [hw, WorkerLoc.isInside]
  | notifyNone hr _ =>
    exact .inr (.inr ⟨rfl, rfl, fun u => by cases u <;> simp [State.inside, hr, RunLoc.isInside]⟩)
  | construct i o hw hm =>
    exact .inl ⟨.worker i, by simp [unlocker, hw], hm, rfl, inside_setWorker_of (inside_mutex s _) rfl⟩
  | wait i o hw =>
    exact .inr (.inl ⟨.worker i, by simp [unlocker, hw], by simp [State.inside, hw, WorkerLoc.isInside], rfl,
      inside_setWorker_of (inside_mutex s _) rfl⟩)
  | spurious i o hw =>
    exact .inr (.inr ⟨rfl, rfl, inside_setWorker_of_eq (fun _ => rfl) (by rw [hw]; rfl)⟩)
  | relock i o hw hm =>
    exact .inl ⟨.worker i, by simp [unlocker, hw], hm, rfl, inside_setWorker_of (inside_mutex s _) rfl⟩
  | front i o p rest hw _ =>
    exact .inr (.inr ⟨by simp [unlocker, hw], rfl, inside_setWorker_of_eq (fun _ => rfl) (by rw [hw]; rfl)⟩)
  | pop i o p q rest hw _ =>
    exact .inr (.inr ⟨by simp [unlocker, hw], rfl,
      inside_setWorker_of_eq (fun u => by cases u <;> rfl) (by rw [hw]; rfl)⟩)
  | unlock i o p hw =>
    exact .inr (.inl ⟨.worker i, by simp [unlocker, hw], by simp [State.inside, hw, WorkerLoc.isInside], rfl,
      inside_setWorker_of (inside_mutex s _) rfl⟩)
  | handle i o p hw =>
    exact .inr (.inr ⟨by simp [unlocker, hw], rfl, inside_setWorker_of_eq (fun _ => rfl) (by rw [hw]; rfl)⟩)
  | destroy i o hw => exact absurd ⟨i, o, rfl, hw⟩ hne
  | sizeLock hs hm =>
    refine .inl ⟨.shell, by simp [unlocker, hs], hm, rfl, fun u => ?_⟩
    cases u <;> simp [State.inside, SizeLoc.isInside]
  | size hs =>
    refine .inr (.inr ⟨by simp [unlocker, hs], rfl, fun u => ?_⟩)
    cases u <;> simp [State.inside, hs, SizeLoc.isInside]
  | sizeUnlock hs =>
    refine .inr (.inl ⟨.shell, by simp [unlocker, hs], by simp [State.inside, hs, SizeLoc.isInside], rfl,
      fun u => ?_⟩)
    cases u <;> simp [State.inside, SizeLoc.isInside]

/-- The end of an iteration is outside every section. -/
theorem inside_destroy {s : State N α} {i : Fin N} {o : Bool} (hw : s.worker i = ⟨.destroy, o⟩)
    (m : Option (Thread N)) (u : Thread N) :
    (({ s with packetQueueMutex := m }.setWorker i ⟨.construct, false⟩ : State N α)).inside u = s.inside u :=
  inside_setWorker_of_eq (inside_mutex s m) (by rw [hw]; rfl) u

/-! ## Invariants of all runs -/

/-- The owner of the mutex is in its section. -/
theorem Step.owner_inside {s s' : State N α} {a : Act N α} (h : Step s a s')
    (hs : ∀ t, s.packetQueueMutex = some t → s.inside t = true) :
    ∀ t, s'.packetQueueMutex = some t → s'.inside t = true := by
  intro t ht
  by_cases hne : EndsIteration s a
  · obtain ⟨i, o, rfl, hw⟩ := hne
    cases h with
    | destroy _ o' hw' =>
      rw [inside_destroy hw']
      cases o' with
      | true => simp at ht
      | false => exact hs t (by simpa using ht)
    | _ => simp_all
  · rcases h.mutex hne with ⟨t', _, _, hm, hin⟩ | ⟨t', _, _, hm, hin⟩ | ⟨_, hm, hin⟩
    · rw [hm] at ht
      cases ht
      simp [hin]
    · rw [hm] at ht
      cases ht
    · rw [hin]
      exact hs t (hm ▸ ht)

/-- The places where a worker's `unique_lock` exists and believes that it owns the mutex. -/
def WorkerLoc.hasLock : WorkerLoc α → Bool
  | .wait | .front | .pop _ | .unlock _ | .handle _ | .destroy => true
  | _ => false

/-- From `wait`'s return to its destruction the `unique_lock` believes that it owns the mutex. -/
theorem Step.owns {s s' : State N α} {a : Act N α} (h : Step s a s')
    (hs : ∀ i, (s.worker i).loc.hasLock = true → (s.worker i).owns = true) :
    ∀ i, (s'.worker i).loc.hasLock = true → (s'.worker i).owns = true := by
  have hset : ∀ {s₁ : State N α} {j : Fin N} {w : Worker α}, s₁.worker = s.worker →
      (w.loc.hasLock = true → w.owns = true) →
      ∀ i, ((s₁.setWorker j w).worker i).loc.hasLock = true → ((s₁.setWorker j w).worker i).owns = true := by
    intro s₁ j w he hw i
    rw [setWorker_worker, he]
    by_cases hi : i = j
    · subst hi; simpa using hw
    · simpa [hi] using hs i
  cases h with
  | receive | runLock | push | runUnlock | notifyNone | sizeLock | size | sizeUnlock => exact hs
  | notify i o _ _ => exact hset rfl (by simp [WorkerLoc.hasLock])
  | construct | relock => exact hset rfl fun _ => rfl
  | wait | spurious | destroy => exact hset rfl (by simp [WorkerLoc.hasLock])
  | front i o p rest hw _ => exact hset rfl fun _ => by simpa [hw, WorkerLoc.hasLock] using hs i
  | pop i o p q rest hw _ => exact hset rfl fun _ => by simpa [hw, WorkerLoc.hasLock] using hs i
  | unlock i o p hw => exact hset rfl fun _ => by simpa [hw, WorkerLoc.hasLock] using hs i
  | handle i o p hw => exact hset rfl fun _ => by simpa [hw, WorkerLoc.hasLock] using hs i

/-- Without the end of an iteration, every thread in its section owns the mutex. -/
theorem Step.inside_owner {s s' : State N α} {a : Act N α} (h : Step s a s') (hne : ¬EndsIteration s a)
    (hs : ∀ t, s.inside t = true → s.packetQueueMutex = some t) :
    ∀ t, s'.inside t = true → s'.packetQueueMutex = some t := by
  intro u hu
  rcases h.mutex hne with ⟨t, _, hnone, hm, hin⟩ | ⟨t, _, ht, hm, hin⟩ | ⟨_, hm, hin⟩
  · rw [hin] at hu
    split at hu
    · rename_i hut; rw [hm, hut]
    · have := hs u hu
      rw [hnone] at this
      cases this
  · rw [hin] at hu
    split at hu
    · cases hu
    · -- both `u` and the thread that unlocks would own the mutex
      rename_i hut
      have := (hs u hu).symm.trans (hs t ht)
      exact absurd (Option.some.inj this) hut
  · rw [hm]
    exact hs u (hin u ▸ hu)

/-! ## Mutual exclusion -/

section Runs

variable {tr : List (State N α × Act N α)} {s : State N α}

theorem run_owner_inside (h : Run step (init N α) tr s) : ∀ t, s.packetQueueMutex = some t → s.inside t = true :=
  h.invariant (I := fun s => ∀ t, s.packetQueueMutex = some t → s.inside t = true)
    (fun _ ht => by cases ht) fun _ _ _ hI hst => (step_sound hst).owner_inside hI

theorem run_owns (h : Run step (init N α) tr s) : ∀ i, (s.worker i).loc.hasLock = true → (s.worker i).owns = true :=
  h.invariant (I := fun s => ∀ i, (s.worker i).loc.hasLock = true → (s.worker i).owns = true)
    (fun _ hi => by cases hi) fun _ _ _ hI hst => (step_sound hst).owns hI

theorem run_inside_owner (h : Run step (init N α) tr s) (hC : ∀ x ∈ tr, ¬EndsIteration x.1 x.2) :
    ∀ t, s.inside t = true → s.packetQueueMutex = some t :=
  h.invariant_where (C := fun s a => ¬EndsIteration s a)
    (I := fun s => ∀ t, s.inside t = true → s.packetQueueMutex = some t)
    (fun t ht => by cases t <;> cases ht) (fun _ _ _ hI hne hst => (step_sound hst).inside_owner hne hI) hC

/-- The end of an iteration unlocks a mutex that its thread does not own. -/
theorem EndsIteration.not_unlocksOwn (h : Run step (init N α) tr s) {a : Act N α} (he : EndsIteration s a) :
    ¬UnlocksOwn s a := by
  obtain ⟨i, o, rfl, hw⟩ := he
  have ho : o = true := by simpa [hw, WorkerLoc.hasLock] using run_owns h i
  subst ho
  intro hu
  have hin := run_owner_inside h _ (hu (.worker i) (by simp [unlocker, hw]))
  simp [State.inside, hw, WorkerLoc.isInside] at hin

/-- A step other than the end of an iteration, in a state where those in their sections own the mutex. -/
theorem unlocksOwn_of_inside {s s' : State N α} {a : Act N α} (h : Step s a s') (hne : ¬EndsIteration s a)
    (hs : ∀ t, s.inside t = true → s.packetQueueMutex = some t) : UnlocksOwn s a := by
  intro t ht
  rcases h.mutex hne with ⟨t', hu, _⟩ | ⟨t', hu, hin, _⟩ | ⟨hu, _⟩
  · rw [hu] at ht; cases ht
  · rw [hu] at ht; cases ht; exact hs _ hin
  · rw [hu] at ht; cases ht

theorem exclusive_of_inside {s : State N α} (hs : ∀ t, s.inside t = true → s.packetQueueMutex = some t) :
    Exclusive s := fun t u ht hu => Option.some.inj ((hs t ht).symm.trans (hs u hu))

/-- In a run, every unlock is by the thread that owns the mutex, and in every state at most one thread is between
acquiring and releasing it. -/
def MutuallyExclusive (tr : List (State N α × Act N α)) (s : State N α) : Prop :=
  (∀ x ∈ tr, UnlocksOwn x.1 x.2) ∧ (∀ x ∈ tr, Exclusive x.1) ∧ Exclusive s

/-- **Mutual exclusion on the packet queue** holds of exactly the runs in which no worker ends an iteration. -/
theorem mutual_exclusion_iff (h : Run step (init N α) tr s) :
    MutuallyExclusive tr s ↔ ∀ x ∈ tr, ¬EndsIteration x.1 x.2 := by
  constructor
  · rintro ⟨hown, _⟩ x hx he
    obtain ⟨tr', _, hr, _, _⟩ := h.mem hx
    exact he.not_unlocksOwn hr (hown x hx)
  · intro hC
    have hinside : ∀ x ∈ tr, ∀ t, x.1.inside t = true → x.1.packetQueueMutex = some t := by
      intro x hx
      obtain ⟨tr', _, hr, hpre, _⟩ := h.mem hx
      exact run_inside_owner hr fun y hy => hC y (hpre.subset hy)
    refine ⟨fun x hx => ?_, fun x hx => exclusive_of_inside (hinside x hx), exclusive_of_inside (run_inside_owner h hC)⟩
    obtain ⟨_, _, _, _, hst⟩ := h.mem hx
    exact unlocksOwn_of_inside (step_sound hst) (hC x hx) (hinside x hx)

/-- A worker handles a packet and, while the main thread pushes the next one, ends its iteration: the mutex is free
although the main thread is in its section, and the next worker gets it. -/
def doubleUnlock : List (Act NUM_WORKER_THREADS Unit) :=
  [.worker 0, .worker 0, .receive (), .run, .run, .run, .notify (some 0), .worker 0, .worker 0, .worker 0, .worker 0,
    .worker 0, .receive (), .run, .worker 0, .worker 1]

/-- With the four workers of the server, the main thread and a worker can be in their sections at once. -/
theorem not_mutual_exclusion :
    ¬∀ (N : Nat) (α : Type) (tr : List (State N α × Act N α)) (s : State N α),
      Run step (init N α) tr s → MutuallyExclusive tr s := by
  intro hall
  obtain ⟨s, hs, hmain, hworker⟩ : ∃ s, exec step (init NUM_WORKER_THREADS Unit) doubleUnlock = some s ∧
      s.inside .main = true ∧ s.inside (.worker 1) = true := ⟨_, rfl, rfl, rfl⟩
  obtain ⟨tr, hr, _⟩ := Run.of_exec hs
  have hex := (hall NUM_WORKER_THREADS Unit tr s hr).2.2
  cases hex _ _ hmain hworker

/-- The run up to the first handled packet. -/
theorem mutual_exclusion_first_packet :
    ∃ tr s, Run step (init NUM_WORKER_THREADS Unit) tr s ∧ tr.map Prod.snd = doubleUnlock.take 12 ∧
      (MutuallyExclusive tr s ↔ ∀ x ∈ tr, ¬EndsIteration x.1 x.2) := by
  obtain ⟨s, hs⟩ : ∃ s, exec step (init NUM_WORKER_THREADS Unit) (doubleUnlock.take 12) = some s := ⟨_, rfl⟩
  obtain ⟨tr, hr, hacts⟩ := Run.of_exec hs
  exact ⟨tr, s, hr, hacts, mutual_exclusion_iff hr⟩

end Runs

end Celegraph.Queue
