import Celegraph.Client.Matching
import Celegraph.Queue.Wakeups

/-!
# Waiting for a reply

The two threads of the client, step by step: the main loop with `WaitOnPacketQueue`, and `PacketListener`. They share
the queue of `Queue/Machine.lean`: `PacketListener` is its receive loop, and the main thread in `WaitOnPacketQueue` is
its only worker. Datagrams come to the client at any time, from anyone.

- `Process.step`: the operations of the two threads, in any order.
- `run_queue`: a run of the client is a run of the queue.
- `Hung`: the main thread waits for a reply that is in the queue, and nothing but a further datagram, or a wake-up by
  itself, gets it out of there (`Hung.stuck`). A `notify_one` that comes before the `wait` leads there (`hung`).
-/

namespace Celegraph.Client

open CxxString Packets Utils Runs

/-- The threads of the client, and what is on its way to it. -/
structure Process where
  client : Client
  /-- `packetQueue`, with `PacketListener` as the receive loop, and `WaitOnPacketQueue` as the worker. -/
  queue : Queue.State 1 Packet
  /-- What `WaitOnPacketQueue` returns. -/
  retPacket : Option Packet
  /-- The packet buffer of `PacketListener`. -/
  buffer : PacketBuffer
  inFlight : List InFlight

namespace Process

/-- The steps. -/
inductive Act where
  /-- The main loop goes on by itself or with a line. -/
  | input (a : Input)
  /-- The next operation of `WaitOnPacketQueue`. -/
  | wait
  /-- `isNotEmpty.wait` returns without a notification. -/
  | spurious
  /-- The main loop goes on with the packet that `WaitOnPacketQueue` has returned. -/
  | take (u : Uninit)
  /-- A datagram is on its way to the client. -/
  | arrive (f : InFlight)
  /-- `PacketListener` receives a datagram. -/
  | receive (k : Nat) (u : Uninit)
  /-- The next operation of `PacketListener` up to `packetQueueMutex.unlock()`. -/
  | listen
  /-- `isNotEmpty.notify_one()`. -/
  | notify (w : Option (Fin 1))

/-- The threads have just started. -/
def init (buffer : PacketBuffer) : Process := ⟨.init, Queue.init 1 Packet, none, buffer, []⟩

variable (mp : Msgpack) (server : SockAddr)

/-- The place of the main thread in `WaitOnPacketQueue`. -/
def place (s : Process) : Queue.WorkerLoc Packet := (s.queue.worker 0).loc

/-- The packet that `WaitOnPacketQueue` has returned, after the end of its `unique_lock`. -/
def returned (s : Process) : Option Packet :=
  match s.place with
  | .construct => s.retPacket
  | _ => none

/-- `WaitOnPacketQueue`, called wherever the main loop waits for a packet. -/
def waitOnPacketQueue (s : Process) : Option Process :=
  if s.client.loc.awaits = none ∨ s.returned.isSome then none
  else (Queue.step s.queue (.worker 0)).map fun queue => { s with
    queue
    retPacket := match s.place with
      | .handle p => some p
      | _ => s.retPacket }

/-- What `PacketListener` does with a packet: a message of another client is not queued. -/
def hear (s : Process) (u : Uninit) (p : Packet) : Option Process :=
  match packetListener mp u p with
  | .queued => (Queue.step s.queue (.receive p)).map fun queue => { s with queue, buffer := p.data }
  | .printed => some { s with buffer := p.data }
  | .terminated => some { s with client := { s.client with loc := .terminated } }

def step (s : Process) : Act → Option Process
  | .input (.packet _ _) => none
  | .input a => (s.client.step mp server a).map fun r => { s with client := r.1 }
  | .wait => s.waitOnPacketQueue
  | .spurious => (Queue.step s.queue (.spurious 0)).map fun queue => { s with queue }
  | .take u =>
    match s.returned with
    | none => none
    | some p => (s.client.step mp server (.packet u p)).map fun r => { s with client := r.1, retPacket := none }
  | .arrive f => some { s with inFlight := s.inFlight ++ [f] }
  | .receive k u =>
    match s.queue.run, s.inFlight[k]? with
    | .receive, some f =>
      hear mp { s with inFlight := s.inFlight.eraseIdx k } u ⟨receivePacketFrom f.data s.buffer, f.source⟩
    | _, _ => none
  | .listen => (Queue.step s.queue .run).map fun queue => { s with queue }
  | .notify w => (Queue.step s.queue (.notify w)).map fun queue => { s with queue }

/-! ## The queue of the client -/

/-- The step of the queue in a step of the client. -/
def queueAct (s : Process) : Act → Option (Queue.Act 1 Packet)
  | .wait => some (.worker 0)
  | .spurious => some (.spurious 0)
  | .receive k u => do
    let f ← s.inFlight[k]?
    let p : Packet := ⟨receivePacketFrom f.data s.buffer, f.source⟩
    if packetListener mp u p = .queued then some (.receive p) else none
  | .listen => some .run
  | .notify w => some (.notify w)
  | .input _ | .take _ | .arrive _ => none

variable {mp : Msgpack} {server : SockAddr} {s s' : Process} {a : Act}

/-- A step of the client is a step of the queue, or leaves it alone. -/
theorem step_queue (h : step mp server s a = some s') :
    (queueAct mp s a).elim (s'.queue = s.queue) fun b => Queue.step s.queue b = some s'.queue := by
  cases a with
  | input a =>
    cases a with
    | packet u p => cases h
    | run | line =>
      obtain ⟨_, _, rfl⟩ := Option.map_eq_some_iff.mp h
      rfl
  | wait =>
    change s.waitOnPacketQueue = some s' at h
    unfold waitOnPacketQueue at h
    split at h
    · cases h
    · obtain ⟨q, hq, rfl⟩ := Option.map_eq_some_iff.mp h
      exact hq
  | take u =>
    simp only [step] at h
    split at h
    · cases h
    · obtain ⟨_, _, rfl⟩ := Option.map_eq_some_iff.mp h
      rfl
  | arrive f =>
    cases h
    rfl
  | receive k u =>
    simp only [step] at h
    split at h
    case h_2 => cases h
    rename_i f _ hf
    simp only [queueAct, hf, Option.bind_eq_bind, Option.bind_some]
    unfold hear at h
    split at h
    · rename_i hheard
      obtain ⟨q, hq, rfl⟩ := Option.map_eq_some_iff.mp h
      simpa [hheard] using hq
    · rename_i hheard
      cases h
      simp [hheard]
    · rename_i hheard
      cases h
      simp [hheard]
  | spurious | listen | notify w =>
    obtain ⟨q, hq, rfl⟩ := Option.map_eq_some_iff.mp h
    exact hq

/-- **A run of the client is a run of its queue.** -/
theorem run_queue {buffer : PacketBuffer} {tr : List (Process × Act)}
    (h : Run (step mp server) (init buffer) tr s) :
    Run Queue.step (Queue.init 1 Packet)
      (tr.filterMap fun x => (queueAct mp x.1 x.2).map (x.1.queue, ·)) s.queue :=
  h.project (f := queue) (g := queueAct mp) fun _ _ _ hst => step_queue hst

/-! ## A reply that nobody takes -/

/-- The main thread is in `isNotEmpty.wait` and has not been notified, a reply is queued, and `PacketListener` is back
in `ReceivePacketFrom` with nothing to receive. -/
structure Hung (s : Process) : Prop where
  awaits : s.client.loc.awaits ≠ none
  blocked : s.place = .blocked
  packetQueue : s.queue.packetQueue ≠ []
  receive : s.queue.run = .receive
  inFlight : s.inFlight = []

/-- **A hung client hangs for good**, unless a further datagram arrives, or `wait` returns by itself. -/
theorem Hung.stuck (h : s.Hung) (hst : step mp server s a = some s') : (∃ f, a = .arrive f) ∨ a = .spurious := by
  obtain ⟨o, hw⟩ : ∃ o, s.queue.worker 0 = ⟨.blocked, o⟩ := ⟨_, Queue.eq_blocked (by rw [← place, h.blocked]; rfl)⟩
  cases a with
  | arrive f => exact .inl ⟨f, rfl⟩
  | spurious => exact .inr rfl
  | input a =>
    cases a with
    | packet u p => cases hst
    | run | line =>
      obtain ⟨⟨_, _⟩, hc, _⟩ := Option.map_eq_some_iff.mp hst
      obtain ⟨t, ht⟩ := Option.ne_none_iff_exists'.mp h.awaits
      exact absurd ((step_sound hc).request (by simp) (Loc.not_isName ht)).1 h.awaits
  | take u => simp [step, returned, h.blocked] at hst
  | wait =>
    change s.waitOnPacketQueue = some s' at hst
    simp [waitOnPacketQueue, Queue.step, Queue.workerStep, hw] at hst
  | receive k u => simp [step, h.inFlight] at hst
  | listen => simp [step, Queue.step, Queue.runStep, h.receive] at hst
  | notify w => cases w <;> simp [step, Queue.step, Queue.notifyStep, h.receive] at hst

/-- A hung client has a stranded packet. -/
theorem Hung.stranded (h : s.Hung) : Queue.Stranded s.queue := by
  refine ⟨h.packetQueue, fun i => ?_, h.receive⟩
  obtain rfl := Subsingleton.elim i 0
  rw [← place, h.blocked]
  rfl

/-- The `notify_one` finds the main thread in `wait`, or on its way to the only packet that is queued. -/
def NotifyFindsMain (s : Process) : Act → Prop
  | .notify none => s.queue.packetQueue.length ≤ s.queue.awake
  | _ => True

instance (s : Process) : (a : Act) → Decidable (NotifyFindsMain s a)
  | .notify none => inferInstanceAs (Decidable (_ ≤ _))
  | .notify (some _) | .input _ | .wait | .spurious | .take _ | .arrive _ | .receive _ _ | .listen => .isTrue trivial

theorem notifyFindsWorker_of_queueAct (hC : NotifyFindsMain s a) {b : Queue.Act 1 Packet}
    (hb : queueAct mp s a = some b) : Queue.NotifyFindsWorker s.queue b := by
  cases a with
  | notify w =>
    cases hb
    cases w <;> exact hC
  | receive k u =>
    obtain ⟨f, _, hb⟩ := Option.bind_eq_some_iff.mp hb
    simp only [Option.ite_none_right_eq_some, Option.some.injEq] at hb
    obtain ⟨_, rfl⟩ := hb
    trivial
  | wait | spurious | listen =>
    cases hb
    trivial
  | input | take | arrive => cases hb

variable {buffer : PacketBuffer} {tr : List (Process × Act)}

/-- **The client does not sleep on a reply** in a run whose notifications all find the main thread. -/
theorem not_hung (h : Run (step mp server) (init buffer) tr s) (hC : ∀ x ∈ tr, NotifyFindsMain x.1 x.2) :
    ¬s.Hung := by
  intro hhung
  refine Queue.not_stranded (run_queue h) (fun x hx => ?_) hhung.stranded
  obtain ⟨y, hy, hact⟩ := List.mem_filterMap.mp hx
  obtain ⟨b, hb, rfl⟩ := Option.map_eq_some_iff.mp hact
  exact notifyFindsWorker_of_queueAct (hC y hy) hb

/-- The reply to a `CONNECT`, on its way to the client. -/
def connectReplyInFlight : InFlight :=
  ⟨localServer, Datagram.data .reference (Server.connectReply 1 Sessions.localClient)⟩

/-- The reply arrives, and is announced, after the request has been sent and before the main thread has reached
`wait`. -/
def earlyReply : List Act :=
  [.input (.line (text "y")), .arrive connectReplyInFlight, .receive 0 ⟨0, 0⟩, .listen, .listen, .listen, .notify none,
    .wait, .wait]

/-- The main thread sleeps, and the reply stays in the queue. -/
theorem hung :
    ¬∀ (mp : Msgpack) (server : SockAddr) (buffer : PacketBuffer) (tr : List (Process × Act)) (s : Process),
      Run (step mp server) (init buffer) tr s → ¬s.Hung := by
  intro hall
  obtain ⟨s, hs, hloc, hplace, hqueue, hrun, hinFlight⟩ :
      ∃ s, exec (step .reference localServer) (init fun _ => 0) earlyReply = some s ∧
        s.client.loc = .connectReply ∧ s.place = .blocked ∧ s.queue.packetQueue.length = 1 ∧
        s.queue.run = .receive ∧ s.inFlight = [] := ⟨_, rfl, rfl, rfl, rfl, rfl, rfl⟩
  obtain ⟨tr, hr, _⟩ := Run.of_exec hs
  refine hall .reference localServer _ tr s hr ⟨?_, hplace, ?_, hrun, hinFlight⟩
  · rw [hloc]
    exact Option.some_ne_none _
  · intro hnil
    rw [hnil] at hqueue
    cases hqueue

/-- The reply arrives while the main thread waits, and is taken. -/
def promptReply : List Act :=
  [.input (.line (text "y")), .wait, .wait, .arrive connectReplyInFlight, .receive 0 ⟨0, 0⟩, .listen, .listen, .listen,
    .notify (some 0), .wait, .wait, .wait, .wait, .wait, .wait, .take ⟨0, 0⟩]

theorem not_hung_prompt :
    ∃ tr s, Run (step .reference localServer) (init fun _ => 0) tr s ∧ tr.map Prod.snd = promptReply ∧
      s.client.session = 1 ∧ ¬s.Hung := by
  obtain ⟨s, hs, hsession⟩ : ∃ s, exec (guarded (step .reference localServer) NotifyFindsMain) (init fun _ => 0)
      promptReply = some s ∧ s.client.session = 1 := ⟨_, rfl, rfl⟩
  obtain ⟨tr, hr, hacts⟩ := Run.of_exec hs
  obtain ⟨hr, hC⟩ := hr.of_guarded
  exact ⟨tr, s, hr, hacts, hsession, not_hung hr hC⟩

end Process

end Celegraph.Client
