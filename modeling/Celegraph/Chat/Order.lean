import Celegraph.Chat.Invariant
import Celegraph.Client.Sent

/-!
# Messages are passed on in the order in which they were typed

The workers take the packets from the queue in any order and handle them at the same time. What keeps the messages of
one client in order is that the client waits after each command, and that the server answers a command after it has
passed the message on.

- `relays_in_order`: the numbers of the lines of the messages that were passed on grow, and each message has the text
  of its line.
- `relays_eq_filter`: where a session is used by one client only, its messages are all those in the name of the session.
-/

namespace Celegraph.Chat

open CxxString Packets Utils Client Server Prog Runs

namespace System

variable {mp : Msgpack} {clients : Finset SockAddr} {N : Nat} {x : System clients N} {a : clients} {server : SockAddr}
  {session : clients → Int32}

/-! ## The order of the messages -/

section Order

variable {s : Server} {packetNumber : clients → Int32} {buffer : clients → PacketBuffer}
  {tr : List (System clients N × Act clients N)}

theorem log_of_step {act : Act clients N} {x' : System clients N} (h : x.log.map Emission.datagram = x.workers.out)
    (hst : x.step mp server act = some x') : x'.log.map Emission.datagram = x'.workers.out := by
  cases step_sound hst with
  | silent hw =>
    rw [hw.out, List.append_nil]
    exact h
  | emit hw =>
    rw [List.map_append, h, hw.out]
    rfl
  | type | take | handle | other | deliver => exact h

/-- The log holds what was handed to `sendto`. -/
theorem log_of_run (h : Run (step mp server) (start s session packetNumber buffer) tr x) :
    x.log.map Emission.datagram = x.workers.out :=
  h.invariant (I := fun x => x.log.map Emission.datagram = x.workers.out) rfl fun _ _ _ hI hst => log_of_step hI hst

theorem invariant_of_run [mp.Lawful] (h : Run (step mp server) (start s session packetNumber buffer) tr x) :
    x.Invariant server session :=
  h.invariant (invariant_start s packetNumber buffer) fun _ _ _ hI hst => hI.step hst

/-- **The messages of a client are handed to `sendto` in the order in which its user has typed them**, each to each
session at most once: the numbers of their lines grow, and each packet has the text of its line. -/
theorem relays_in_order [mp.Lawful] (h : Run (step mp server) (start s session packetNumber buffer) tr x) (a : clients)
    (b : Int32) :
    x.log.map Emission.datagram = x.workers.out ∧ ((x.relays a b).map Prod.fst).Pairwise (· < ·) ∧
      ∀ r ∈ x.relays a b, ∃ command relay, (x.typed a)[r.1]? = some command ∧ relayOf command = some relay ∧
        r.2 = serverCommand b (relayText (session a) relay) r.2.dest := by
  have hinv := invariant_of_run h
  refine ⟨log_of_run h, hinv.ordered a b, ?_⟩
  rintro ⟨n, d⟩ hr
  obtain ⟨hlog, hb⟩ := mem_relays.mp hr
  obtain ⟨command, hcommand, hpasses⟩ := hinv.sent _ d hlog
  obtain ⟨relay, k, hrelay, hd⟩ := hpasses (isRelay_of_addressee hb)
  have hk : k = b := by
    rw [hd, addressee_serverCommand] at hb
    exact Option.some.inj hb
  exact ⟨command, relay, hcommand, hrelay, hk ▸ hd⟩

/-- Two clients. Session 2 is the second's. -/
def bothClients : Finset SockAddr := {⟨0x7f000001, 40001⟩, ⟨0x7f000001, 40002⟩}

def firstClient : bothClients := ⟨⟨0x7f000001, 40001⟩, by simp [bothClients]⟩

/-- Both clients in the game, in front of two workers. -/
def bothInGame : System bothClients 2 :=
  start twoSessions (fun a => if a = firstClient then 1 else 2) (fun _ => 3) fun _ _ => 0

/-- The first client types a line, and a worker handles it. -/
def firstTypes (line : Bytes) (t : Fin 2) : List (Act bothClients 2) :=
  .type firstClient line :: .handle t 0 ⟨0, 0⟩ (fun _ => 0) :: List.replicate 8 (.work t)

/-- Two messages to session 2, and the response to the first in between. -/
def twoMessages : List (Act bothClients 2) :=
  firstTypes (text "/s 2 hi") 0 ++ [.deliver firstClient 1 ⟨0, 0⟩, .take firstClient ⟨0, 0⟩] ++
    firstTypes (text "/s 2 bye") 1

theorem relays_in_order_twoMessages : ∃ tr x, Run (step .reference localServer) bothInGame tr x ∧
    tr.map Prod.snd = twoMessages ∧ (x.relays firstClient 2).map Prod.fst = [0, 1] ∧
    ((x.relays firstClient 2).map Prod.fst).Pairwise (· < ·) := by
  have hexec : (exec (step .reference localServer) bothInGame twoMessages).map (fun x =>
      (x.relays firstClient 2).map Prod.fst) = some [0, 1] := by decide +kernel
  obtain ⟨x, hx, hrelays⟩ := Option.map_eq_some_iff.mp hexec
  obtain ⟨tr, hr, hacts⟩ := Run.of_exec hx
  exact ⟨tr, x, hr, hacts, hrelays, (relays_in_order hr firstClient 2).2.1⟩

end Order

/-! ## A session of one client -/

/-- The packet is a message in the name of a session. -/
def InNameOf (sessionId : Int32) (d : Datagram) : Prop := ∃ k t, d = serverCommand k t d.dest ∧ FromClient sessionId t

theorem InNameOf.unique {n n' : Int32} {d : Datagram} (h : InNameOf n d) (h' : InNameOf n' d) : n = n' := by
  obtain ⟨k, t, hd, hfrom⟩ := h
  obtain ⟨k', t', hd', hfrom'⟩ := h'
  obtain ⟨_, rfl, _⟩ := serverCommand_inj (hd.symm.trans hd')
  exact hfrom.unique hfrom'

theorem PassesOn.inNameOf {n : Int32} {command : Bytes} {d : Datagram} (h : PassesOn n command d) : InNameOf n d := by
  obtain ⟨relay, k, _, hd⟩ := h
  exact ⟨k, _, hd, fromClient_relayText n relay⟩

/-- A packet from elsewhere holds no command of the session. -/
def Foreign (mp : Msgpack) (sessionId : Int32) : Act clients N → Prop
  | .other _ u packet => ∀ command, CommandOf mp u packet command → command.sessionId ≠ sessionId
  | _ => True

/-- What is sent for packets from elsewhere is not in the name of the session. -/
structure Apart (sessionId : Int32) (x : System clients N) : Prop where
  task : ∀ t ds, x.task t = none → (x.workers.code t).MaySend ds → ∀ d ∈ ds, ¬InNameOf sessionId d
  log : ∀ d, ⟨none, d⟩ ∈ x.log → ¬InNameOf sessionId d

theorem not_inNameOf_of_maySend {sessionId : Int32} {u : Uninit} {packet : Packet} {ds : List Datagram}
    (hC : ∀ command, CommandOf mp u packet command → command.sessionId ≠ sessionId)
    (h : (handlePacket mp u packet).MaySend ds) : ∀ d ∈ ds, ¬InNameOf sessionId d := by
  rintro d hd ⟨k, t, heq, hfrom⟩
  have htype : d.packetType = .SENDSERVERCOMMAND := by rw [heq]; rfl
  obtain ⟨command, k', t', hcommand, heq', hfrom'⟩ := fromClient_of_maySend h hd htype
  obtain ⟨_, rfl, _⟩ := serverCommand_inj (heq.symm.trans heq')
  exact hC command hcommand (hfrom'.unique hfrom)

theorem Apart.step {sessionId : Int32} {act : Act clients N} {x' : System clients N} (h : Apart sessionId x)
    (hC : Foreign mp sessionId act) (hst : x.step mp server act = some x') : Apart sessionId x' := by
  cases step_sound hst with
  | type | take | deliver => exact ⟨h.task, h.log⟩
  | handle =>
    refine ⟨?_, h.log⟩
    intro t' ds ht hmay
    rcases may_start_cases ht hmay with ⟨_, hL, _⟩ | ⟨_, ht, hmay⟩
    · cases hL
    · exact h.task t' ds ht hmay
  | other =>
    refine ⟨?_, h.log⟩
    intro t' ds ht hmay
    rcases may_start_cases ht hmay with ⟨_, _, hmay⟩ | ⟨_, ht, hmay⟩
    · exact not_inNameOf_of_maySend hC hmay
    · exact h.task t' ds ht hmay
  | silent hw =>
    refine ⟨?_, h.log⟩
    intro t' ds ht hmay
    rcases hw.may_cases hmay with ⟨rfl, hmay⟩ | ⟨_, hmay⟩
    · exact h.task t' ds ht hmay
    · exact h.task t' ds ht hmay
  | @emit t w d hw =>
    constructor
    · intro t' ds ht hmay
      rcases hw.may_cases hmay with ⟨rfl, hmay⟩ | ⟨_, hmay⟩
      · intro d' hd'
        exact h.task t' (d :: ds) ht hmay d' (List.mem_cons_of_mem _ hd')
      · exact h.task t' ds ht hmay
    · intro d' hd'
      rcases List.mem_append.mp hd' with hd' | hd'
      · exact h.log d' hd'
      · obtain ⟨ht, rfl⟩ := Emission.mk.inj (List.mem_singleton.mp hd')
        exact h.task t [d'] ht.symm (hw.may [] (maySend_nil _)) d' List.mem_cons_self

open Classical in
/-- **The messages of a client are those in the name of its session**, if no other client and no packet from elsewhere
uses the session: of everything handed to `sendto`, `relays` leaves none out. -/
theorem relays_eq_filter [mp.Lawful] {s : Server} {packetNumber : clients → Int32} {buffer : clients → PacketBuffer}
    {tr : List (System clients N × Act clients N)}
    (h : Run (step mp server) (start s session packetNumber buffer) tr x) (hown : ∀ a', session a' = session a → a' = a)
    (hC : ∀ y ∈ tr, Foreign mp (session a) y.2) (b : Int32) :
    (x.relays a b).map Prod.snd =
      x.workers.out.filter fun d => addressee d = some b ∧ InNameOf (session a) d := by
  have hinv := invariant_of_run h
  have hapart : Apart (session a) x := by
    refine h.invariant_where (C := fun _ act => Foreign mp (session a) act)
      ⟨fun t ds _ hmay d hd => ?_, by simp [start]⟩
      (fun _ _ _ hI hC hst => hI.step hC hst) hC
    rw [show ds = [] from hmay] at hd
    cases hd
  rw [← log_of_run h, ← List.filterMap_eq_filter, List.filterMap_map, relays, List.map_filterMap]
  refine List.filterMap_congr fun e he => ?_
  obtain ⟨line, d⟩ := e
  by_cases hb : addressee d = some b
  · cases line with
    | none =>
      have hname := hapart.log d he
      simp [relayed, Option.guard, hname]
    | some L =>
      obtain ⟨command, _, hpasses⟩ := hinv.sent L d he
      have hname := (hpasses (isRelay_of_addressee hb)).inNameOf
      by_cases hL : L.client = a
      · subst hL
        simp [relayed, Option.guard, hb, hname]
      · have hne : ¬InNameOf (session a) d := fun hname' => hL (hown _ (hname.unique hname'))
        simp [relayed, Option.guard, hL, hne]
  · cases line <;> simp [relayed, Option.guard, hb]

end System

end Celegraph.Chat
