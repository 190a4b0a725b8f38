import Celegraph.Queue.Wakeups

/-!
# Threads left alone come to rest

If no packet arrives and nobody is notified or wakes up by itself, the threads of the queue go on until all workers
are in `wait` and nobody else is in a section, or until a worker is about to execute `front` or `pop` on the empty
queue (`settles`). On the way the queue shrinks by as many packets as workers that take one.

So one step is enough for a packet to be stranded, or for a worker to find the queue empty. The conditions of
`Wakeups.lean` on a single step are exact: it meets them exactly if nothing of the kind can happen after it, as long as
the other steps meet them too (`notifyFindsWorker_iff`, `spuriousHasPacket_iff`).
-/

namespace Celegraph.Queue

open Runs

variable {N : Nat} {α : Type}

/-! ## Steps of the threads' own -/

/-- The step is one of a thread's own: no packet arrives, nobody is notified or wakes up by itself. -/
def Act.isOwn : Act N α → Bool
  | .run | .worker _ | .size => true
  | _ => false

/-- The steps of a worker until it is in `wait`. -/
def WorkerLoc.rank : WorkerLoc α → Nat
  | .blocked => 0
  | .wait => 1
  | .construct => 2
  | .destroy => 3
  | .handle _ => 4
  | .unlock _ => 5
  | .pop _ => 6
  | .front => 7
  | .woken => 8

/-- The steps of `Server::Run` until it is out of its section. -/
def RunLoc.rank : RunLoc α → Nat
  | .push _ => 2
  | .unlock => 1
  | _ => 0

/-- The steps of the shell until it is out of its section. -/
def SizeLoc.rank : SizeLoc → Nat
  | .size => 2
  | .unlock => 1
  | .lock => 0

/-- The steps until all threads are at rest. -/
def State.rank (s : State N α) : Nat := s.run.rank + s.size.rank + total (fun w : Worker α => w.loc.rank) s.worker

theorem rank_setWorker {s s₁ : State N α} (hr : s₁.run = s.run) (hz : s₁.size = s.size) (he : s₁.worker = s.worker)
    {i : Fin N} {w : Worker α} (hw : s.worker i = w) (w' : Worker α) :
    (s₁.setWorker i w').rank + w.loc.rank = s.rank + w'.loc.rank := by
  subst hw
  have htotal := total_update (fun w : Worker α => w.loc.rank) s.worker i w'
  have hsize : (s₁.setWorker i w').size = s.size := hz
  simp only [State.rank, setWorker_run, setWorker_worker, hr, hsize, he]
  omega

theorem isBlocked_of_rank {s : State N α} (h : s.rank = 0) (i : Fin N) : (s.worker i).loc.isBlocked = true := by
  have htotal : total (fun w : Worker α => w.loc.rank) s.worker = 0 := by
    unfold State.rank at h
    omega
  have hi := total_eq_zero.mp htotal i
  cases hloc : (s.worker i).loc <;> simp [hloc, WorkerLoc.rank, WorkerLoc.isBlocked] at hi ⊢

/-- What the threads' own steps keep: how many packets there are more than workers and notifications on their way, and
that the main thread waits for a packet. -/
structure Settles (s s' : State N α) : Prop where
  balance : s'.packetQueue.length + (s.awake + s.pending) = s.packetQueue.length + (s'.awake + s'.pending)
  receive : s.run = .receive → s'.run = .receive

theorem Settles.refl (s : State N α) : Settles s s := ⟨rfl, id⟩

theorem Settles.trans {s s' s'' : State N α} (h : Settles s s') (h' : Settles s' s'') : Settles s s'' where
  balance := by
    have := h.balance
    have := h'.balance
    omega
  receive hr := h'.receive (h.receive hr)

theorem Step.settles {s s' : State N α} {a : Act N α} (h : Step s a s') (ha : a.isOwn = true) : Settles s s' where
  balance := by
    rcases h.balance with h | h | ⟨⟨i, rfl⟩, _⟩ | ⟨rfl, _⟩ | h | ⟨⟨i, rfl⟩, _⟩
    case inr.inr.inl => cases ha
    case inr.inr.inr.inl => cases ha
    case inr.inr.inr.inr.inr => cases ha
    all_goals omega
  receive hr := by
    cases h with
    | receive | notify | notifyNone | spurious => cases ha
    | runLock _ hr' | push _ hr' | runUnlock hr' =>
      rw [hr] at hr'
      cases hr'
    | _ => exact hr

/-! ## A thread that is not at rest moves -/

/-- A step of a worker is one step less until it is in `wait`. -/
theorem Step.rank_lt {s s' : State N α} {i : Fin N} (h : Step s (.worker i) s') : s'.rank < s.rank := by
  have hlt {s₁ : State N α} {w w' : Worker α} (hr : s₁.run = s.run) (hz : s₁.size = s.size)
      (he : s₁.worker = s.worker) (hw : s.worker i = w) (hrank : w'.loc.rank < w.loc.rank) :
      (s₁.setWorker i w').rank < s.rank := by
    have := rank_setWorker hr hz he hw w'
    omega
  cases h with
  | construct _ _ hw | wait _ _ hw | relock _ _ hw | front _ _ _ _ hw | pop _ _ _ _ _ hw | unlock _ _ _ hw
  | handle _ _ _ hw | destroy _ _ hw => exact hlt rfl rfl rfl hw (by simp [WorkerLoc.rank])

/-- A worker moves, unless it waits for a notification or for the mutex, or finds the queue empty. -/
theorem exists_worker_step {s : State N α} (hacc : AccessDefined s) {i : Fin N} (hi : (s.worker i).loc.rank ≠ 0)
    (hfree : s.packetQueueMutex = none ∨ (s.worker i).loc.isInside = true) :
    ∃ s', step s (.worker i) = some s' ∧ s'.rank < s.rank := by
  have hstep : ∃ s', step s (.worker i) = some s' := by
    rcases hw : s.worker i with ⟨loc, o⟩
    rw [hw] at hi hfree
    cases loc with
    | blocked => exact absurd rfl hi
    | construct | woken =>
      have hm := hfree.resolve_right (by simp [WorkerLoc.isInside])
      simp [step, workerStep, hw, hm]
    | front =>
      obtain ⟨p, rest, hq⟩ := List.exists_cons_of_ne_nil (hacc i (.inl (by rw [hw])))
      simp [step, workerStep, hw, hq]
    | pop p =>
      obtain ⟨q, rest, hq⟩ := List.exists_cons_of_ne_nil (hacc i (.inr ⟨p, by rw [hw]⟩))
      simp [step, workerStep, hw, hq]
    | wait | unlock | handle | destroy => simp [step, workerStep, hw]
  obtain ⟨s', hst⟩ := hstep
  exact ⟨s', hst, (step_sound hst).rank_lt⟩

theorem exists_run_step {s : State N α} (h : s.run.rank ≠ 0) : ∃ s', step s .run = some s' ∧ s'.rank < s.rank := by
  cases hr : s.run with
  | push p => exact ⟨_, by simp [step, runStep, hr]; rfl, by simp [State.rank, hr, RunLoc.rank]⟩
  | unlock => exact ⟨_, by simp [step, runStep, hr]; rfl, by simp [State.rank, hr, RunLoc.rank]⟩
  | receive | lock | notify => simp [hr, RunLoc.rank] at h

theorem exists_size_step {s : State N α} (h : s.size.rank ≠ 0) : ∃ s', step s .size = some s' ∧ s'.rank < s.rank := by
  cases hz : s.size with
  | size => exact ⟨_, by simp [step, sizeStep, hz]; rfl, by simp [State.rank, hz, SizeLoc.rank]⟩
  | unlock => exact ⟨_, by simp [step, sizeStep, hz]; rfl, by simp [State.rank, hz, SizeLoc.rank]⟩
  | lock => simp [hz, SizeLoc.rank] at h

/-- While a thread is not at rest, one can move: the owner of the mutex, or anyone if the mutex is free. -/
theorem exists_own_step {s : State N α} (hown : ∀ t, s.packetQueueMutex = some t → s.inside t = true)
    (hacc : AccessDefined s) (h : s.rank ≠ 0) : ∃ a s', a.isOwn = true ∧ step s a = some s' ∧ s'.rank < s.rank := by
  cases hm : s.packetQueueMutex with
  | some t =>
    have hin := hown t hm
    cases t with
    | main =>
      have hr : s.run.rank ≠ 0 := by
        cases hr : s.run <;> simp [State.inside, hr, RunLoc.isInside, RunLoc.rank] at hin ⊢
      exact ⟨.run, (exists_run_step hr).imp fun _ h => ⟨rfl, h⟩⟩
    | shell =>
      have hz : s.size.rank ≠ 0 := by
        cases hz : s.size <;> simp [State.inside, hz, SizeLoc.isInside, SizeLoc.rank] at hin ⊢
      exact ⟨.size, (exists_size_step hz).imp fun _ h => ⟨rfl, h⟩⟩
    | worker i =>
      have hi : (s.worker i).loc.rank ≠ 0 := by
        cases hi : (s.worker i).loc <;> simp [State.inside, hi, WorkerLoc.isInside, WorkerLoc.rank] at hin ⊢
      exact ⟨.worker i, (exists_worker_step hacc hi (.inr hin)).imp fun _ h => ⟨rfl, h⟩⟩
  | none =>
    by_cases hr : s.run.rank = 0
    · by_cases hz : s.size.rank = 0
      · have hworkers : total (fun w : Worker α => w.loc.rank) s.worker ≠ 0 := by
          unfold State.rank at h
          omega
        obtain ⟨i, hi⟩ := not_forall.mp (mt total_eq_zero.mpr hworkers)
        exact ⟨.worker i, (exists_worker_step hacc hi (.inl hm)).imp fun _ h => ⟨rfl, h⟩⟩
      · exact ⟨.size, (exists_size_step hz).imp fun _ h => ⟨rfl, h⟩⟩
    · exact ⟨.run, (exists_run_step hr).imp fun _ h => ⟨rfl, h⟩⟩

variable {tr : List (State N α × Act N α)} {s s' : State N α} {a : Act N α}

/-- **Threads left alone come to rest**, or one of them is about to access the empty queue. -/
theorem settles (h : Run step (init N α) tr s) :
    ∃ tr' s', Run step (init N α) (tr ++ tr') s' ∧ (∀ x ∈ tr', x.2.isOwn = true) ∧ Settles s s' ∧
      (¬AccessDefined s' ∨ s'.rank = 0) := by
  induction hn : s.rank using Nat.strong_induction_on generalizing tr s with
  | _ n ih =>
    by_cases hrest : ¬AccessDefined s ∨ s.rank = 0
    · exact ⟨[], s, by simpa using h, by simp, .refl s, hrest⟩
    · obtain ⟨hacc, hne⟩ := not_or.mp hrest
      obtain ⟨a, s₁, ha, hst, hlt⟩ := exists_own_step (run_owner_inside h) (not_not.mp hacc) hne
      obtain ⟨tr', s', hr, hown, hset, hend⟩ := ih s₁.rank (hn ▸ hlt) (h.step hst) rfl
      refine ⟨(s, a) :: tr', s', by simpa using hr, ?_, ((step_sound hst).settles ha).trans hset, hend⟩
      rintro x (_ | ⟨_, hx⟩)
      · exact ha
      · exact hown x hx

/-! ## One step is enough -/

/-- After a notification that is lost, a packet can be stranded by the threads' own steps. -/
theorem exists_stranded (h : Run step (init N α) tr s) (hst : step s a = some s') (hlost : ¬NotifyFindsWorker s a) :
    ∃ tr' s'', Run step (init N α) (tr ++ (s, a) :: tr') s'' ∧ (∀ x ∈ tr', x.2.isOwn = true) ∧ Stranded s'' := by
  obtain ⟨tr', s'', hr, hown, hset, hend⟩ := settles (h.step hst)
  refine ⟨tr', s'', by simpa using hr, hown, ?_⟩
  obtain rfl : a = .notify none := by
    unfold NotifyFindsWorker at hlost
    split at hlost
    · rfl
    · exact absurd trivial hlost
  -- more packets than workers on their way, and the main thread waits for the next packet
  simp only [NotifyFindsWorker, Nat.not_le] at hlost
  cases step_sound hst with
  | notifyNone _ hall =>
    have hbalance : s''.packetQueue.length + s.awake = s.packetQueue.length + (s''.awake + s''.pending) :=
      hset.balance
    have hne : s''.packetQueue ≠ [] := List.length_pos_iff.mp (by omega)
    have hrest : s''.rank = 0 := hend.resolve_left (not_not.mpr fun _ _ => hne)
    exact ⟨hne, isBlocked_of_rank hrest, hset.receive rfl⟩

/-- **A step loses no notification exactly if no packet can be stranded after it**, by steps that lose none. -/
theorem notifyFindsWorker_iff (h : Run step (init N α) tr s) (hC : ∀ x ∈ tr, NotifyFindsWorker x.1 x.2)
    (hst : step s a = some s') :
    NotifyFindsWorker s a ↔ ∀ tr' s'', Run step (init N α) (tr ++ (s, a) :: tr') s'' →
      (∀ x ∈ tr', NotifyFindsWorker x.1 x.2) → ¬Stranded s'' := by
  constructor
  · intro hfind tr' s'' hr hC'
    refine not_stranded_of_covered (run_covered hr fun x hx => ?_)
    rcases List.mem_append.mp hx with hx | (_ | ⟨_, hx⟩)
    · exact hC x hx
    · exact hfind
    · exact hC' x hx
  · intro hall
    by_contra hlost
    obtain ⟨tr', s'', hr, hown, hstranded⟩ := exists_stranded h hst hlost
    refine hall tr' s'' hr (fun x hx => ?_) hstranded
    obtain ⟨s₁, a₁⟩ := x
    have := hown _ hx
    cases a₁ with
    | notify => cases this
    | _ => trivial

/-- Where the threads rest with more workers and notifications on their way than packets, a notification is owed to a
worker that will find the queue empty. -/
theorem exists_starving_of_rest (h : Run step (init N α) tr s) (i : Fin N) (hrest : s.rank = 0)
    (hless : s.packetQueue.length < s.awake + s.pending) :
    ∃ tr' s', Run step (init N α) (tr ++ tr') s' ∧ (∀ x ∈ tr', SpuriousHasPacket x.1 x.2) ∧ ¬AccessDefined s' := by
  have hblocked := isBlocked_of_rank hrest
  have hawake := awake_eq_zero hblocked
  have hrun : s.run = .notify := by
    unfold State.rank at hrest
    cases hr : s.run <;> simp [hr, State.pending, RunLoc.rank] at hless hrest ⊢ <;> omega
  have hempty : s.packetQueue = [] := by
    have : s.pending = 1 := by simp [State.pending, hrun]
    exact List.length_eq_zero_iff.mp (by omega)
  have hfree : s.packetQueueMutex = none := by
    by_contra hm
    obtain ⟨t, ht⟩ := Option.ne_none_iff_exists'.mp hm
    have hin := run_owner_inside h t ht
    cases t with
    | main => simp [State.inside, hrun, RunLoc.isInside] at hin
    | shell =>
      unfold State.rank at hrest
      cases hz : s.size <;> simp [State.inside, hz, SizeLoc.isInside, SizeLoc.rank] at hin hrest
    | worker j =>
      rw [State.inside, eq_blocked (hblocked j)] at hin
      cases hin
  have hexec : exec step s [.notify (some i), .worker i] = some
      ({ s with packetQueueMutex := some (.worker i), run := .receive }.setWorker i ⟨.front, true⟩) := by
    simp [exec, step, notifyStep, workerStep, hrun, hblocked i, hfree, State.setWorker]
  obtain ⟨tr', hr, hacts⟩ := h.exec hexec
  refine ⟨tr', _, hr, forall_of_acts hacts fun a ha _ => ?_, fun hacc => hacc i (.inl (by simp)) hempty⟩
  simp only [List.mem_cons, List.not_mem_nil, or_false] at ha
  rcases ha with rfl | rfl <;> trivial

/-- After a wake-up without a packet, the threads' own steps, and the notification they are owed, lead to an access of
the empty queue. -/
theorem exists_starving (h : Run step (init N α) tr s) (hst : step s a = some s') (hlone : ¬SpuriousHasPacket s a) :
    ∃ tr' s'', Run step (init N α) (tr ++ (s, a) :: tr') s'' ∧ (∀ x ∈ tr', SpuriousHasPacket x.1 x.2) ∧
      ¬AccessDefined s'' := by
  obtain ⟨tr', s₁, hr, hown, hset, hend⟩ := settles (h.step hst)
  have hown' : ∀ x ∈ tr', SpuriousHasPacket x.1 x.2 := by
    rintro ⟨s₂, a₂⟩ hx
    have := hown _ hx
    cases a₂ with
    | spurious => cases this
    | _ => trivial
  obtain ⟨i, rfl⟩ : ∃ i, a = .spurious i := by
    unfold SpuriousHasPacket at hlone
    split at hlone
    · exact ⟨_, rfl⟩
    · exact absurd trivial hlone
  simp only [SpuriousHasPacket, Nat.not_lt] at hlone
  have hless : s₁.packetQueue.length < s₁.awake + s₁.pending := by
    cases step_sound hst with
    | spurious _ o hw =>
      have hawake : (s.setWorker i ⟨.woken, o⟩).awake = s.awake + 1 := awake_wake rfl hw
      have hbalance : s₁.packetQueue.length + ((s.setWorker i ⟨.woken, o⟩).awake + s.pending) =
          s.packetQueue.length + (s₁.awake + s₁.pending) := hset.balance
      omega
  rcases hend with hbad | hrest
  · exact ⟨tr', s₁, by simpa using hr, hown', hbad⟩
  · obtain ⟨tr'', s'', hr', hspur, hbad⟩ := exists_starving_of_rest hr i hrest hless
    refine ⟨tr' ++ tr'', s'', by simpa using hr', fun x hx => ?_, hbad⟩
    exact (List.mem_append.mp hx).elim (hown' x) (hspur x)

/-- **A worker that wakes up by itself leaves a packet for everyone exactly if nobody can access the empty queue after
it**, by steps that do the same. -/
theorem spuriousHasPacket_iff (h : Run step (init N α) tr s) (hC : ∀ x ∈ tr, SpuriousHasPacket x.1 x.2)
    (hst : step s a = some s') :
    SpuriousHasPacket s a ↔ ∀ tr' s'', Run step (init N α) (tr ++ (s, a) :: tr') s'' →
      (∀ x ∈ tr', SpuriousHasPacket x.1 x.2) → AccessDefined s'' := by
  constructor
  · intro hhas tr' s'' hr hC'
    refine accessDefined_of_supplied (run_supplied hr fun x hx => ?_)
    rcases List.mem_append.mp hx with hx | (_ | ⟨_, hx⟩)
    · exact hC x hx
    · exact hhas
    · exact hC' x hx
  · intro hall
    by_contra hlone
    obtain ⟨tr', s'', hr, hC', hbad⟩ := exists_starving h hst hlone
    exact hbad (hall tr' s'' hr hC')

end Celegraph.Queue
