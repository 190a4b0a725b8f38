import Celegraph.Chat.Outstanding

/-!
# What holds between two steps

`Invariant`: at most one command of a client is outstanding, and it is the line that was typed last. So a worker that
may still send something for a client handles the last line, and is the only one. What was passed on so far belongs to
earlier lines, or went to other sessions.

There is a lemma for each kind of step, and `Invariant.step` for all of them.
-/

namespace Celegraph.Chat

open CxxString Packets Utils Client Server Prog Runs

namespace System

variable {clients : Finset SockAddr} {N : Nat} {x : System clients N} {a : clients} {t : Fin N}

/-- The line is the last that was typed at its client. -/
def IsLast (typed : clients → List Bytes) (L : Line clients) (command : Bytes) : Prop :=
  L.number + 1 = (typed L.client).length ∧ (typed L.client)[L.number]? = some command

/-- A line is typed at another client. -/
theorem IsLast.update {typed : clients → List Bytes} {L : Line clients} {command : Bytes} (h : IsLast typed L command)
    (hL : L.client ≠ a) (lines : List Bytes) : IsLast (Function.update typed a lines) L command := by
  unfold IsLast
  rw [Function.update_of_ne hL]
  exact h

theorem isLast_append (typed : clients → List Bytes) (a : clients) (line : Bytes) :
    IsLast (Function.update typed a (typed a ++ [line])) ⟨a, (typed a).length⟩ line := by
  simp [IsLast]

/-- A line keeps its number when others are typed. -/
theorem getElem?_typed {typed : clients → List Bytes} {a' : clients} {n : Nat} {command line : Bytes}
    (h : (typed a')[n]? = some command) :
    (Function.update typed a (typed a ++ [line]) a')[n]? = some command := by
  by_cases ha : a' = a
  · subst ha
    obtain ⟨hlt, _⟩ := List.getElem?_eq_some_iff.mp h
    rw [Function.update_self, List.getElem?_append_left hlt]
    exact h
  · rwa [Function.update_of_ne ha]

/-- The packet passes on what the command asks for. -/
def PassesOn (sessionId : Int32) (command : Bytes) (d : Datagram) : Prop :=
  ∃ relay k, relayOf command = some relay ∧ d = serverCommand k (relayText sessionId relay) d.dest

structure Invariant (server : SockAddr) (session : clients → Int32) (x : System clients N) : Prop where
  waiting : ∀ a, Waiting (session a) (x.toCome a) (x.endpoint a)
  /-- A packet on its way to the server was sent for the last line, for which nothing else was sent yet. -/
  request : ∀ r ∈ x.requests, x.sentFor r.line = [] ∧ ∃ playerCommand : Sendplayercommand,
    r.datagram = ⟨.SENDPLAYERCOMMAND, playerCommand.pack, server⟩ ∧ playerCommand.pack.Valid ∧
      playerCommand.sessionId = session r.line.client ∧ IsLast x.typed r.line playerCommand.command
  /-- A worker that may still send something for a line handles the last one. -/
  task : ∀ t L ds, x.task t = some L → ds ≠ [] → (x.workers.code t).MaySend ds →
    ∃ command, IsLast x.typed L command ∧ SendsFor L.client (session L.client) command (x.sentFor L ++ ds)
  /-- Packets from elsewhere are answered elsewhere. -/
  elsewhere : ∀ t ds, x.task t = none → (x.workers.code t).MaySend ds → ∀ d ∈ ds, ¬IsRelay d → d.dest ∉ clients
  sent : ∀ L d, ⟨some L, d⟩ ∈ x.log → ∃ command, (x.typed L.client)[L.number]? = some command ∧
    (IsRelay d → PassesOn (session L.client) command d)
  ordered : ∀ a b, ((x.relays a b).map Prod.fst).Pairwise (· < ·)

variable {mp : Msgpack} {server : SockAddr} {session : clients → Int32}

theorem invariant_start (s : Server) (packetNumber : clients → Int32) (buffer : clients → PacketBuffer) :
    Invariant server session (start s session packetNumber buffer : System clients N) where
  waiting a := by
    have hnone : busy a (fun _ : Fin N => none) (fun _ => .pure ()) = 0 := by
      classical
      refine tally_eq_zero fun t => ?_
      rw [decide_eq_false_iff_not]
      exact not_busy_of_task fun _ h => by cases h
    have hcome : (start s session packetNumber buffer : System clients N).toCome a = 0 := by
      simp [toCome, start, hnone]
    rw [hcome]
    exact ⟨.inl rfl, rfl, Nat.zero_le _, fun _ => rfl⟩
  request _ h := by cases h
  task _ _ _ h := by cases h
  elsewhere _ ds _ h d hd := by
    rw [show ds = [] from h] at hd
    cases hd
  sent _ _ h := by cases h
  ordered _ _ := .nil

namespace Invariant

/-- The user of a client has typed a line. -/
theorem type (h : x.Invariant server session) {line : Bytes} {c' : Client} {out : Option Sending}
    (hst : (x.endpoint a).client.step mp server (.line line) = some (c', out)) :
    Invariant server session { x with
      endpoint := Function.update x.endpoint a { x.endpoint a with client := c' }
      typed := Function.update x.typed a (x.typed a ++ [line])
      requests := x.requests ++ (out.map fun y => ⟨⟨a, (x.typed a).length⟩, y.datagram⟩).toList } := by
  obtain ⟨hnone, hwaiting⟩ := (h.waiting a).line hst
  -- no command of the client is being handled
  have hrequests : ∀ r ∈ x.requests, r.line.client ≠ a := by
    rintro r hr rfl
    have hpos := countP_requests_pos hr
    unfold toCome at hnone
    omega
  have htask {t : Fin N} {L : Line clients} {ds : List Datagram} (ht : x.task t = some L) (hds : ds ≠ [])
      (hmay : (x.workers.code t).MaySend ds) : L.client ≠ a := by
    rintro rfl
    have hpos := busy_pos (a := L.client) (t := t) ⟨⟨L.number, ht⟩, ds, hds, hmay⟩
    unfold toCome at hnone
    omega
  refine ⟨?_, ?_, ?_, h.elsewhere, ?_, h.ordered⟩
  · intro a'
    rw [toCome_append]
    change Waiting (session a') _ (Function.update x.endpoint a _ a')
    by_cases ha : a' = a
    · subst ha
      rw [Function.update_self]
      refine hwaiting.mono (Nat.add_le_add_left (List.countP_le_length.trans_eq ?_) _)
      cases out <;> rfl
    · rw [Function.update_of_ne ha]
      refine (h.waiting a').mono ?_
      have hzero : (out.map fun y => (⟨⟨a, (x.typed a).length⟩, y.datagram⟩ : Request clients)).toList.countP
          (fun r => r.line.client = a') = 0 := by
        cases out <;> simp [Ne.symm ha]
      omega
  · intro r hr
    rcases List.mem_append.mp hr with hr | hr
    · obtain ⟨hsent, playerCommand, hd, hvalid, hsession, hlast⟩ := h.request r hr
      exact ⟨hsent, playerCommand, hd, hvalid, hsession, hlast.update (hrequests r hr) _⟩
    · obtain ⟨y, rfl, rfl⟩ := Option.map_eq_some_iff.mp (Option.mem_toList.mp hr)
      obtain ⟨_, _, ⟨hout, _⟩ | ⟨y', playerCommand, hout, _, hd, hvalid, hsession, rfl⟩⟩ :=
        step_line (h.waiting a).inGame hst
      · cases hout
      · cases hout
        refine ⟨List.eq_nil_iff_forall_not_mem.mpr fun d hmem => ?_, playerCommand, hd, hvalid,
          hsession.trans (h.waiting a).session, isLast_append _ _ _⟩
        obtain ⟨command, hcommand, _⟩ := h.sent _ _ (mem_sentFor.mp hmem)
        simp at hcommand
  · intro t L ds ht hds hmay
    obtain ⟨command, hlast, hsends⟩ := h.task t L ds ht hds hmay
    exact ⟨command, hlast.update (htask ht hds hmay) _, hsends⟩
  · intro L d hd
    obtain ⟨command, hcommand, hpasses⟩ := h.sent L d hd
    exact ⟨command, getElem?_typed hcommand, hpasses⟩

/-- A client has taken a packet. -/
theorem take (h : x.Invariant server session) {u : Uninit} {e : Endpoint}
    (hst : (x.endpoint a).take mp server u = some e) :
    Invariant server session { x with endpoint := Function.update x.endpoint a e } where
  waiting := (Function.forall_update_iff x.endpoint fun a' => Waiting (session a') (x.toCome a')).mpr
    ⟨(h.waiting a).take hst, fun a' _ => h.waiting a'⟩
  request := h.request
  task := h.task
  elsewhere := h.elsewhere
  sent := h.sent
  ordered := h.ordered

/-- The listener of a client has received a packet. -/
theorem deliver (h : x.Invariant server session) {k : Nat} {u : Uninit} {d : Datagram} (hd : x.replies[k]? = some d)
    (hdest : d.dest = a) : Invariant server session { x with
      endpoint := Function.update x.endpoint a
        ((x.endpoint a).hear mp u (received mp d (x.endpoint a).buffer server))
      replies := x.replies.eraseIdx k } where
  waiting a' := by
    change Waiting (session a') _ (Function.update x.endpoint a _ a')
    by_cases ha : a' = a
    · subst ha
      rw [Function.update_self]
      have hreply : (if IsRelay d then 0 else 1) = if IsReplyTo a' d then 1 else 0 := by
        by_cases hrelay : IsRelay d <;> simp [IsReplyTo, hrelay, hdest]
      refine (h.waiting a').hear ?_
      rw [hreply]
      exact toCome_eraseIdx hd _ a'
    · rw [Function.update_of_ne ha]
      exact (h.waiting a').mono (Nat.le.intro (toCome_eraseIdx hd _ a'))
  request := h.request
  task := h.task
  elsewhere := h.elsewhere
  sent := h.sent
  ordered := h.ordered

/-- A worker has started to handle a command of a client. -/
theorem handle [mp.Lawful] (h : x.Invariant server session) {k : Nat} {r : Request clients} {u : Uninit}
    {buffer : PacketBuffer} (hr : x.requests[k]? = some r) : Invariant server session { x with
      requests := x.requests.eraseIdx k
      workers := { x.workers with
        code := Function.update x.workers.code t
          (handlePacket mp u (received mp r.datagram buffer r.line.client)) }
      task := Function.update x.task t (some r.line) } := by
  obtain ⟨hsent, playerCommand, hd, hvalid, hsession, hlast⟩ := h.request r (List.mem_of_getElem? hr)
  refine ⟨?_, fun r' hr' => h.request r' (List.eraseIdx_subset hr'), ?_, ?_, h.sent, h.ordered⟩
  · intro a'
    refine (h.waiting a').mono ?_
    -- the packet of the command is replaced by the worker that handles it
    have hothers := start_others x.task x.workers.code t (some r.line)
      (handlePacket mp u (received mp r.datagram buffer r.line.client))
    have hcount := countP_eraseIdx (p := fun r => r.line.client = a') hr
    simp only [decide_eq_true_eq] at hcount
    by_cases ha : r.line.client = a'
    · rw [if_pos ha] at hcount
      have hbusy := busy_le_succ (a := a') hothers
      simp only [toCome]
      omega
    · rw [if_neg ha] at hcount
      have hbusy := busy_mono (a := a') hothers fun h => absurd h (not_busy_of_task (by simpa using ha))
      simp only [toCome]
      omega
  · intro t' L ds ht hds hmay
    rcases may_start_cases ht hmay with ⟨_, hL, hmay⟩ | ⟨_, ht, hmay⟩
    · cases hL
      rw [hd] at hmay
      have hsends := sendsFor_of_maySend hvalid hmay
      rw [hsession] at hsends
      refine ⟨playerCommand.command, hlast, ?_⟩
      change SendsFor _ _ _ (x.sentFor r.line ++ ds)
      rwa [hsent]
    · exact h.task t' L ds ht hds hmay
  · intro t' ds ht hmay
    rcases may_start_cases ht hmay with ⟨_, hL, _⟩ | ⟨_, ht, hmay⟩
    · cases hL
    · exact h.elsewhere t' ds ht hmay

/-- A worker has started to handle a packet from somewhere else. -/
theorem other (h : x.Invariant server session) {u : Uninit} {packet : Packet} (hsource : packet.source ∉ clients) :
    Invariant server session { x with
      workers := { x.workers with code := Function.update x.workers.code t (handlePacket mp u packet) }
      task := Function.update x.task t none } := by
  refine ⟨?_, h.request, ?_, ?_, h.sent, h.ordered⟩
  · intro a'
    refine (h.waiting a').mono ?_
    have hothers := start_others x.task x.workers.code t none (handlePacket mp u packet)
    have hbusy := busy_mono (a := a') hothers fun h => absurd h (not_busy_of_task (by simp))
    simp only [toCome]
    omega
  · intro t' L ds ht hds hmay
    rcases may_start_cases ht hmay with ⟨_, hL, _⟩ | ⟨_, ht, hmay⟩
    · cases hL
    · exact h.task t' L ds ht hds hmay
  · intro t' ds ht hmay d hd hrelay
    rcases may_start_cases ht hmay with ⟨_, _, hmay⟩ | ⟨_, ht, hmay⟩
    · rw [dest_of_maySend hmay hd hrelay]
      exact hsource
    · exact h.elsewhere t' ds ht hmay d hd hrelay

/-- A worker has moved, with the task that it had. -/
theorem moves_others {w : Sessions.Workers N} {sent : List Datagram} (hw : x.Moves t w sent) :
    ∀ u, u ≠ t → x.task u = x.task u ∧ w.code u = x.workers.code u := by
  intro u hu
  exact ⟨rfl, hw.others u hu⟩

/-- A worker that has moved is no busier than before. -/
theorem busy_moves {w : Sessions.Workers N} {sent : List Datagram} (hw : x.Moves t w sent) (a : clients) :
    busy a x.task w.code ≤ busy a x.task x.workers.code := by
  refine busy_mono (moves_others hw) ?_
  rintro ⟨htask, ds, hds, hmay⟩
  exact ⟨htask, sent ++ ds, by simp [hds], hw.may ds hmay⟩

/-- A worker has taken an action that sends nothing. -/
theorem silent (h : x.Invariant server session) {w : Sessions.Workers N} (hw : x.Moves t w []) :
    Invariant server session { x with workers := w } := by
  have hcode (t' : Fin N) {ds : List Datagram} (hds : (w.code t').MaySend ds) : (x.workers.code t').MaySend ds := by
    rcases hw.may_cases hds with ⟨rfl, hds⟩ | ⟨_, hds⟩
    · exact hds
    · exact hds
  refine ⟨fun a' => (h.waiting a').mono ?_, h.request, fun t' L ds ht hds hmay => h.task t' L ds ht hds (hcode t' hmay),
    fun t' ds ht hmay => h.elsewhere t' ds ht (hcode t' hmay), h.sent, h.ordered⟩
  have hbusy := busy_moves hw a'
  simp only [toCome]
  omega

/-- A worker has sent a packet for something else than a command of a client. -/
theorem emitElsewhere (h : x.Invariant server session) {w : Sessions.Workers N} {d : Datagram}
    (hw : x.Moves t w [d]) (ht : x.task t = none) : Invariant server session { x with
      workers := w
      replies := x.replies ++ [d]
      log := x.log ++ [⟨none, d⟩] } := by
  have hdest (hrelay : ¬IsRelay d) : d.dest ∉ clients :=
    h.elsewhere t [d] ht (hw.may [] (maySend_nil _)) d List.mem_cons_self hrelay
  have hsentFor (L : Line clients) : sentFor { x with log := x.log ++ [⟨none, d⟩] } L = x.sentFor L :=
    sentFor_append_of_ne (by simp)
  refine ⟨?_, ?_, ?_, ?_, ?_, ?_⟩
  · intro a'
    refine (h.waiting a').mono ?_
    have hbusy := busy_moves hw a'
    have hreply : ¬IsReplyTo a' d := fun ⟨ha, hrelay⟩ => hdest hrelay (ha ▸ a'.2)
    simp only [toCome, List.countP_append, List.countP_cons, List.countP_nil, hreply]
    simpa using hbusy
  · intro r hr
    have hrequest := h.request r hr
    rwa [← hsentFor] at hrequest
  · intro t' L ds ht' hds hmay
    rcases hw.may_cases hmay with ⟨rfl, _⟩ | ⟨_, hmay⟩
    · cases ht.symm.trans ht'
    · have htask := h.task t' L ds ht' hds hmay
      rwa [← hsentFor] at htask
  · intro t' ds ht' hmay d' hd'
    rcases hw.may_cases hmay with ⟨rfl, hmay⟩ | ⟨_, hmay⟩
    · exact h.elsewhere t' (d :: ds) ht hmay d' (List.mem_cons_of_mem _ hd')
    · exact h.elsewhere t' ds ht' hmay d' hd'
  · intro L d' hd'
    exact h.sent L d' (by simpa using hd')
  · intro a' b
    have hrelays : relays { x with log := x.log ++ [⟨none, d⟩] } a' b = x.relays a' b := by
      rw [relays_append, relayed, Option.toList_none, List.append_nil]
    have hordered := h.ordered a' b
    rwa [← hrelays] at hordered

/-- The lines of the messages passed on so far come before the last line, or have the same number and went to another
session. -/
theorem lt_of_mem_relays (h : x.Invariant server session) {L : Line clients} {command : Bytes} {d : Datagram} {b : Int32}
    (hlast : IsLast x.typed L command)
    (hsends : SendsFor L.client (session L.client) command (x.sentFor L ++ [d])) (hd : addressee d = some b)
    {n : Nat} {d' : Datagram} (hmem : (n, d') ∈ x.relays L.client b) : n < L.number := by
  obtain ⟨hlog, hb⟩ := mem_relays.mp hmem
  obtain ⟨_, hcommand, _⟩ := h.sent _ d' hlog
  obtain ⟨hlt, _⟩ := List.getElem?_eq_some_iff.mp hcommand
  have hlength := hlast.1
  have hne : n ≠ L.number := by
    rintro rfl
    have hfresh := hsends.fresh (isRelay_of_addressee hd) d' (mem_sentFor.mpr hlog) (isRelay_of_addressee hb)
    exact hfresh (hb.trans hd.symm)
  simp only at hlt
  omega

/-- While a worker is busy for a client, no packet of the client is on its way to the server. -/
theorem request_client_ne (h : x.Invariant server session) (hbusy : Busy a (x.task t) (x.workers.code t))
    {r : Request clients} (hr : r ∈ x.requests) : r.line.client ≠ a := by
  rintro rfl
  have hcount := (h.waiting r.line.client).count
  have hpos := busy_pos hbusy
  have hrequests := countP_requests_pos hr
  unfold toCome at hcount
  omega

/-- While a worker is busy for a client, no other worker is. -/
theorem task_client_ne (h : x.Invariant server session) (hbusy : Busy a (x.task t) (x.workers.code t)) {t' : Fin N}
    (hne : t' ≠ t) {L : Line clients} {ds : List Datagram} (ht : x.task t' = some L) (hds : ds ≠ [])
    (hmay : (x.workers.code t').MaySend ds) : L.client ≠ a := by
  rintro rfl
  have hcount := (h.waiting L.client).count
  have hbusy' : Busy L.client (x.task t') (x.workers.code t') := ⟨⟨L.number, ht⟩, ds, hds, hmay⟩
  unfold toCome at hcount
  exact hne (busy_unique (by omega) hbusy' hbusy)

/-- A reply takes the place of the worker, which sends nothing more. -/
theorem toCome_emit (h : x.Invariant server session) {w : Sessions.Workers N} {d : Datagram} {L : Line clients}
    (hw : x.Moves t w [d]) (ht : x.task t = some L) (a : clients) :
    toCome { x with workers := w, replies := x.replies ++ [d] } a ≤ x.toCome a := by
  obtain ⟨command, _, hsends⟩ := h.task t L [d] ht (by simp) (hw.may [] (maySend_nil _))
  have hmono := busy_moves hw a
  simp only [toCome, List.countP_append, List.countP_cons, List.countP_nil]
  by_cases hreply : IsReplyTo a d
  · have hdest : d.dest = L.client := (hsends.reply hreply.2).1
    obtain rfl : a = L.client := Subtype.ext (hreply.1.symm.trans hdest)
    have hbusy : Busy L.client (x.task t) (x.workers.code t) :=
      ⟨⟨L.number, ht⟩, [d], by simp, hw.may [] (maySend_nil _)⟩
    have hdone : ¬Busy L.client (x.task t) (w.code t) := by
      rintro ⟨_, ds, hds, hmay⟩
      obtain ⟨_, _, hsends'⟩ := h.task t L (d :: ds) ht (by simp) (hw.may ds hmay)
      exact hds (hsends'.reply hreply.2).2
    have hsucc := busy_succ (moves_others hw) hbusy hdone
    simp only [hreply, decide_true, if_true]
    omega
  · simp only [hreply, decide_false]
    simpa using hmono

/-- A worker has sent a packet for a command of a client: a message, or the reply. -/
theorem emitFor (h : x.Invariant server session) {w : Sessions.Workers N} {d : Datagram} {L : Line clients}
    (hw : x.Moves t w [d]) (ht : x.task t = some L) : Invariant server session { x with
      workers := w
      replies := x.replies ++ [d]
      log := x.log ++ [⟨some L, d⟩] } := by
  have hbusy : Busy L.client (x.task t) (x.workers.code t) :=
    ⟨⟨L.number, ht⟩, [d], by simp, hw.may [] (maySend_nil _)⟩
  obtain ⟨command, hlast, hsends⟩ := h.task t L [d] ht (by simp) (hw.may [] (maySend_nil _))
  have hother {L' : Line clients} (hL : L'.client ≠ L.client) :
      sentFor { x with log := x.log ++ [⟨some L, d⟩] } L' = x.sentFor L' :=
    sentFor_append_of_ne fun heq => hL (by rw [Option.some.inj heq])
  refine ⟨?_, ?_, ?_, ?_, ?_, ?_⟩
  · intro a'
    exact (h.waiting a').mono (h.toCome_emit hw ht a')
  · intro r hr
    have hrequest := h.request r hr
    rwa [← hother (h.request_client_ne hbusy hr)] at hrequest
  · intro t' L' ds ht' hds hmay
    rcases hw.may_cases hmay with ⟨rfl, hmay⟩ | ⟨hne, hmay⟩
    · cases ht.symm.trans ht'
      obtain ⟨command', hlast', hsends'⟩ := h.task t' L (d :: ds) ht (by simp) hmay
      refine ⟨command', hlast', ?_⟩
      change SendsFor _ _ _ (sentFor { x with log := x.log ++ [⟨some L, d⟩] } L ++ ds)
      rw [sentFor_append_self, List.append_assoc]
      exact hsends'
    · have htask := h.task t' L' ds ht' hds hmay
      rwa [← hother (h.task_client_ne hbusy hne ht' hds hmay)] at htask
  · intro t' ds ht' hmay d' hd'
    rcases hw.may_cases hmay with ⟨rfl, _⟩ | ⟨_, hmay⟩
    · cases ht.symm.trans ht'
    · exact h.elsewhere t' ds ht' hmay d' hd'
  · intro L' d' hd'
    rcases List.mem_append.mp hd' with hd' | hd'
    · exact h.sent L' d' hd'
    · cases List.mem_singleton.mp hd'
      exact ⟨command, hlast.2, fun hrelay => hsends.message (by simp) hrelay⟩
  · intro a' b
    change ((relays { x with log := x.log ++ [⟨some L, d⟩] } a' b).map Prod.fst).Pairwise (· < ·)
    rw [relays_append, List.map_append]
    refine List.pairwise_append.mpr ⟨h.ordered a' b, ?_, ?_⟩
    · cases relayed a' b ⟨some L, d⟩ <;> simp
    · intro n hn m hm
      obtain ⟨⟨m, e⟩, hnew, rfl⟩ := List.mem_map.mp hm
      obtain ⟨⟨n, d'⟩, hold, rfl⟩ := List.mem_map.mp hn
      obtain ⟨heq, hd⟩ := mem_relayed.mp (Option.mem_toList.mp hnew)
      cases heq
      exact h.lt_of_mem_relays hlast hsends hd hold

/-- **A step keeps the invariant.** -/
theorem step [mp.Lawful] {act : Act clients N} {x' : System clients N} (h : x.Invariant server session)
    (hst : x.step mp server act = some x') : x'.Invariant server session := by
  cases step_sound hst with
  | type hc => exact h.type hc
  | take he => exact h.take he
  | handle hr => exact h.handle hr
  | other hsource => exact h.other hsource
  | silent hw => exact h.silent hw
  | @emit t w d hw =>
    cases ht : x.task t with
    | none => exact h.emitElsewhere hw ht
    | some L => exact h.emitFor hw ht
  | deliver hd hdest => exact h.deliver hd hdest

end Invariant

end System

end Celegraph.Chat
