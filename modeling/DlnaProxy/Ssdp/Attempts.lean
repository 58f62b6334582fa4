import DlnaProxy.Ssdp.MessageOrder
import DlnaProxy.Ssdp.Search
import DlnaProxy.Ssdp.Withdrawal

/-!
# What becomes of a call

A call that has been begun is sent for, given up, or still in progress, and an actor is in
one call at a time. So its calls end in the order in which they were begun, and none is
lost.
-/
namespace DlnaProxy.Ssdp

open DlnaProxy.Lib.Transition DlnaProxy.Lib.Utf8 DlnaProxy.Net

variable {setup : Setup} {s s' : State} {e : Event} {past events : List Event} {who : Actor}

/-- Where an actor's messages have gone. -/
def State.dests (s : State) (who : Actor) : List SocketAddr :=
  (s.sent.filter fun message => message.sender = who).map (·.dest)

/-- Where the message of its call is to go. -/
def State.pending (s : State) (who : Actor) : List SocketAddr := (s.calling who).toList.map (·.dest)

/-- The search that a packet is, if it is one to answer. -/
def search (parser : Httparse) : Event → Option Datagram
  | .received (.datagram datagram) =>
    match listenPass parser (.datagram datagram) with
    | .answered _ _ => some datagram
    | _ => none
  | _ => none

/-- Where the calls go that an event begins. -/
def Event.begins (setup : Setup) (e : Event) : Actor → List SocketAddr
  | .main => []
  | .broadcaster =>
    match e with
    | .handlerSpawned => [ssdpAddress]
    | .ticked => [ssdpAddress]
    | _ => []
  | .listener => (search setup.parser e).toList.map (·.srcAddr)
  | .shutdown =>
    match e with
    | .signalled => [ssdpAddress]
    | _ => []

/-- Where those go that have been begun since the process started. -/
def begun (setup : Setup) (who : Actor) (events : List Event) : List SocketAddr :=
  (State.init setup).pending who ++ events.flatMap fun e => e.begins setup who

theorem begins_of_answered {received : Received} {st : Str} {dest : SocketAddr}
    (h : listenPass setup.parser received = .answered st dest) :
    (Event.received received).begins setup .listener = [dest] := by
  obtain ⟨datagram, _, _, rfl, rfl, _⟩ := listenPass_answered h
  simp only [Event.begins, search, h]
  rfl

/-- The call of an actor is given up: its fetch or its send fails, or the time is over. -/
def gaveUp (who : Actor) : Event → Bool
  | .replied other .fetchFailed => decide (who = other)
  | .replied other .sendFailed => decide (who = other)
  | .timedOut => decide (who = .shutdown)
  | _ => false

/-! ## One step -/

/-- What a step can be for an actor. -/
inductive Effect (setup : Setup) (s : State) (e : Event) (s' : State) (who : Actor) : Prop
  | keeps (begins : e.begins setup who = []) (gives : gaveUp who e = false)
      (pending : s'.pending who = s.pending who) (dests : s'.dests who = s.dests who)
  | begins {dest : SocketAddr} (begins : e.begins setup who = [dest]) (gives : gaveUp who e = false)
      (idle : s.pending who = []) (pending : s'.pending who = [dest])
      (dests : s'.dests who = s.dests who)
  | sends {dest : SocketAddr} (begins : e.begins setup who = []) (gives : gaveUp who e = false)
      (here : s.pending who = [dest]) (pending : s'.pending who = [])
      (dests : s'.dests who = s.dests who ++ [dest])
  | gives {dest : SocketAddr} (begins : e.begins setup who = []) (gives : gaveUp who e = true)
      (here : s.pending who = [dest]) (pending : s'.pending who = [])
      (dests : s'.dests who = s.dests who)

theorem dests_log (s : State) (message : Message) (who : Actor) :
    State.dests { s with sent := s.sent ++ [message] } who =
      s.dests who ++ if message.sender = who then [message.dest] else [] := by
  rw [State.dests, State.dests, List.filter_append, List.map_append]
  by_cases h : message.sender = who <;> simp [h]

@[simp] theorem dests_resume (other : Actor) : (s.resume other).dests who = s.dests who := by
  rw [State.dests, State.dests, sent_resume]

@[simp] theorem dests_recall (call : Call) (other : Actor) :
    (s.recall call other).dests who = s.dests who := by
  rw [State.dests, State.dests, sent_recall]

theorem begins_replied (other : Actor) (reply : Reply) :
    (Event.replied other reply).begins setup who = [] := by
  cases who <;> rfl

theorem pending_of_calling {call : Call} (h : s.calling who = some call) :
    s.pending who = [call.dest] := by
  rw [State.pending, h]
  rfl

theorem pending_resume_self (who : Actor) : (s.resume who).pending who = [] := by
  rw [State.pending, calling_resume_self]
  rfl

theorem pending_resume_of_ne {other : Actor} (h : who ≠ other) :
    (s.resume other).pending who = s.pending who := by
  rw [State.pending, State.pending, calling_resume_of_ne h]

/-- A datagram is read by a listener that waits for one. -/
theorem received_of_step {received : Received} (h : s.step setup (.received received) = some s') :
    s.listener = .receiving ∧
      (listenPass setup.parser received = .ignored ∧ s' = s ∨
        (∃ st dest, listenPass setup.parser received = .answered st dest ∧
          s' = { s with listener := .answering (.new dest) }) ∨
        listenPass setup.parser received = .panicked ∧ s' = { s with listener := .panicked }) := by
  have hmove : s.move setup (.received received) = some s' := by
    unfold State.step at h
    split at h
    · cases h
    · exact h
  simp only [State.move] at hmove
  split at hmove
  · next hreceiving =>
    refine ⟨hreceiving, ?_⟩
    split at hmove <;> obtain rfl := Option.some.inj hmove
    · next hpass => exact Or.inl ⟨hpass, rfl⟩
    · next st dest hpass => exact Or.inr (Or.inl ⟨st, dest, hpass, rfl⟩)
    · next hpass => exact Or.inr (Or.inr ⟨hpass, rfl⟩)
  · cases hmove

theorem search_eq_none {received : Received}
    (h : ∀ st dest, listenPass setup.parser received ≠ .answered st dest) :
    (Event.received received).begins setup .listener = [] := by
  have hnone : search setup.parser (.received received) = none := by
    cases received with
    | failed e => rfl
    | datagram datagram =>
      rw [search]
      split
      · next hpass => exact absurd hpass (h _ _)
      · rfl
  rw [Event.begins, hnone]
  rfl

namespace Effect

/-- Another actor does not see it. -/
theorem of_same (hbegins : e.begins setup who = []) (hgives : gaveUp who e = false)
    (hcalling : s'.calling who = s.calling who) (hsent : s'.sent = s.sent) :
    Effect setup s e s' who :=
  .keeps hbegins hgives (by rw [State.pending, State.pending, hcalling])
    (by rw [State.dests, State.dests, hsent])

theorem of_received {received : Received} (h : s.step setup (.received received) = some s') :
    Effect setup s (.received received) s' who := by
  obtain ⟨hreceiving, hpass⟩ := received_of_step h
  have hidle : s.pending .listener = [] := by
    rw [State.pending, State.calling, hreceiving]
    rfl
  have hother {t : State} (hwho : who ≠ .listener) (hcalling : t.calling who = s.calling who)
      (hsent : t.sent = s.sent) : Effect setup s (.received received) t who := by
    refine of_same ?_ (by cases who <;> rfl) hcalling hsent
    cases who with
    | listener => exact absurd rfl hwho
    | _ => rfl
  rcases hpass with ⟨hignored, rfl⟩ | ⟨st, dest, hanswered, rfl⟩ | ⟨hpanicked, rfl⟩
  · by_cases hwho : who = .listener
    · subst hwho
      exact .keeps (search_eq_none (by simp [hignored])) rfl rfl rfl
    · exact hother hwho rfl rfl
  · cases who with
    | listener => exact .begins (begins_of_answered hanswered) rfl hidle rfl rfl
    | _ => exact hother (by decide) rfl rfl
  · cases who with
    | listener => exact .keeps (search_eq_none (by simp [hpanicked])) rfl hidle.symm rfl
    | _ => exact hother (by decide) rfl rfl

/-- A task that a move spawns was in no call before. -/
theorem of_moves (hordered : Ordered s) (hlistener : s.main ≠ .awaiting → s.listener = .absent)
    (hstep : s.step setup e = some s') (move : Moves setup s e s') : Effect setup s e s' who := by
  have hnone {actor : Actor} (h : s.calling actor = none) : s.pending actor = [] := by
    rw [State.pending, h]
    rfl
  cases move with
  | ignores _ => exact of_received hstep
  | answers _ _ => exact of_received hstep
  | panics _ => exact of_received hstep
  | spawnsBroadcaster here =>
    have habsent : s.broadcaster = .absent := by
      by_contra hspawned
      have hstarted := hordered.spawned hspawned
      rw [here] at hstarted
      exact hstarted
    have hidle : s.calling .broadcaster = none := by rw [State.calling, habsent]
    have hmain : s.calling .main = none := by rw [State.calling, here]
    cases who with
    | main => exact .keeps rfl rfl (hnone hmain).symm rfl
    | broadcaster => exact .keeps rfl rfl (hnone hidle).symm rfl
    | _ => exact of_same rfl rfl rfl rfl
  | spawnsHandler here =>
    have habsent : s.shutdown = .absent := by
      by_contra hhandled
      have hstarted := hordered.handled hhandled
      rw [here] at hstarted
      exact hstarted
    have hidle : s.calling .shutdown = none := by rw [State.calling, habsent]
    have hbroadcaster : s.calling .broadcaster = none := by rw [State.calling, here]
    cases who with
    | broadcaster => exact .begins rfl rfl (hnone hbroadcaster) rfl rfl
    | shutdown => exact .keeps rfl rfl (hnone hidle).symm rfl
    | _ => exact of_same rfl rfl rfl rfl
  | spawnsListener here =>
    have hidle : s.calling .listener = none := by
      rw [State.calling, hlistener (by simp [here])]
    have hmain : s.calling .main = none := by rw [State.calling, here]
    cases who with
    | main => exact .keeps rfl rfl (hnone hmain).symm rfl
    | listener => exact .keeps rfl rfl (hnone hidle).symm rfl
    | _ => exact of_same rfl rfl rfl rfl
  | ticks here =>
    have hbroadcaster : s.calling .broadcaster = none := by rw [State.calling, here]
    cases who with
    | broadcaster => exact .begins rfl rfl (hnone hbroadcaster) rfl rfl
    | _ => exact of_same rfl rfl rfl rfl
  | hears here =>
    have hshutdown : s.calling .shutdown = none := by rw [State.calling, here]
    cases who with
    | shutdown => exact .begins rfl rfl (hnone hshutdown) rfl rfl
    | _ => exact of_same rfl rfl rfl rfl
  | disables here =>
    have hshutdown : s.calling .shutdown = none := by rw [State.calling, here]
    cases who with
    | shutdown => exact .keeps rfl rfl (hnone hshutdown).symm rfl
    | _ => exact of_same rfl rfl rfl rfl
  | @timesOut call here =>
    have hshutdown : s.calling .shutdown = some call := by rw [State.calling, here]
    cases who with
    | shutdown => exact .gives rfl rfl (pending_of_calling hshutdown) rfl rfl
    | _ => exact of_same rfl rfl rfl rfl
  | exits _ => cases who <;> exact of_same rfl rfl rfl rfl
  | returns _ _ => cases who <;> exact of_same rfl rfl rfl rfl

theorem of_step (hordered : Ordered s) (hlistener : s.main ≠ .awaiting → s.listener = .absent)
    (hstep : s.step setup e = some s') (who : Actor) : Effect setup s e s' who := by
  obtain ⟨_, hsteps⟩ := step_cases hstep
  cases hsteps with
  | @fetches other dest info here =>
    refine .keeps (begins_replied _ _) rfl ?_ (dests_recall _ _)
    by_cases hwho : who = other
    · subst hwho
      rw [pending_of_calling here, pending_of_calling (calling_recall_self _ _)]
    · rw [State.pending, State.pending, calling_recall_of_ne _ hwho]
  | @sends other dest packet here =>
    by_cases hwho : who = other
    · subst hwho
      refine .sends (begins_replied _ _) rfl (pending_of_calling here) (pending_resume_self _) ?_
      rw [dests_resume, dests_log, if_pos rfl]
    · refine .keeps (begins_replied _ _) rfl ?_ ?_
      · rw [pending_resume_of_ne hwho, State.pending, State.pending, calling_sent]
      · rw [dests_resume, dests_log, if_neg (Ne.symm hwho), List.append_nil]
  | @gives other call reply here unsent =>
    have hgives : gaveUp who (.replied other reply) = decide (who = other) := by
      rcases unsent with rfl | rfl <;> rfl
    by_cases hwho : who = other
    · subst hwho
      exact .gives (begins_replied _ _) (by simpa using hgives) (pending_of_calling here)
        (pending_resume_self _) (dests_resume _)
    · exact .keeps (begins_replied _ _) (by simpa [hwho] using hgives) (pending_resume_of_ne hwho)
        (dests_resume _)
  | moves move => exact of_moves hordered hlistener hstep move

end Effect

/-! ## Before the listener -/

/-- The listener is the last task that `main_task` spawns. -/
theorem absent_of_step (h : s.main ≠ .awaiting → s.listener = .absent)
    (hstep : s.step setup e = some s') : s'.main ≠ .awaiting → s'.listener = .absent := by
  have hcall {other : Actor} {call : Call} (here : s.calling other = some call) {t : State}
      (hmain : other ≠ .main → t.main = s.main)
      (hlistener : other ≠ .listener → t.listener = s.listener) :
      t.main ≠ .awaiting → t.listener = .absent := by
    intro hnot
    cases other with
    | main =>
      rw [hlistener nofun]
      exact h (by rw [main_of_calling here]; nofun)
    | listener =>
      rw [hmain nofun] at hnot
      have habsent := h hnot
      rw [listener_of_calling here] at habsent
      cases habsent
    | _ =>
      rw [hmain nofun] at hnot
      rw [hlistener nofun]
      exact h hnot
  obtain ⟨_, hsteps⟩ := step_cases hstep
  cases hsteps with
  | @fetches other dest info here =>
    apply hcall here <;> intro hother <;> cases other <;> first | rfl | exact absurd rfl hother
  | @sends other dest packet here =>
    apply hcall here <;> intro hother <;> cases other <;> first | rfl | exact absurd rfl hother
  | @gives other call reply here unsent =>
    apply hcall here <;> intro hother <;> cases other <;> first | rfl | exact absurd rfl hother
  | moves move =>
    intro hnot
    cases move with
    | spawnsBroadcaster here => exact h (by rw [here]; nofun)
    | spawnsListener here => exact absurd rfl hnot
    | answers here _ =>
      have habsent := h hnot
      rw [here] at habsent
      cases habsent
    | panics here =>
      have habsent := h hnot
      rw [here] at habsent
      cases habsent
    | _ => exact h hnot

/-! ## The account of an actor -/

theorem begun_concat (past : List Event) (e : Event) :
    begun setup who (past ++ [e]) = begun setup who past ++ e.begins setup who := by
  rw [begun, begun, List.flatMap_append, List.flatMap_singleton, List.append_assoc]

/-- A call that has ended: where it was to send, and whether it has. -/
structure Ended where
  dest : SocketAddr
  sent : Bool

/-- The calls of an actor, in order: those that have ended, and the one in progress. -/
structure Attempts (setup : Setup) (past : List Event) (s : State) (who : Actor)
    (ended : List Ended) : Prop where
  begun_eq : begun setup who past = ended.map Ended.dest ++ s.pending who
  dests_eq : s.dests who = (ended.filter Ended.sent).map Ended.dest
  gaveUp_eq : past.countP (gaveUp who) = ended.countP fun call => !call.sent

namespace Attempts

variable {ended : List Ended}

/-- A step leaves the ended calls as they are, or ends the one in progress. -/
theorem of_effect (h : Attempts setup past s who ended) (heffect : Effect setup s e s' who) :
    ∃ ended', Attempts setup (past ++ [e]) s' who ended' := by
  obtain ⟨hbegun, hdests, hgaveUp⟩ := h
  cases heffect with
  | keeps begins gives pending dests =>
    refine ⟨ended, ?_, ?_, ?_⟩
    · rw [begun_concat, begins, List.append_nil, hbegun, pending]
    · rw [dests, hdests]
    · rw [countP_concat, gives, hgaveUp]
      rfl
  | begins begins gives idle pending dests =>
    refine ⟨ended, ?_, ?_, ?_⟩
    · rw [begun_concat, begins, hbegun, idle, pending, List.append_nil]
    · rw [dests, hdests]
    · rw [countP_concat, gives, hgaveUp]
      rfl
  | @sends dest begins gives here pending dests =>
    refine ⟨ended ++ [⟨dest, true⟩], ?_, ?_, ?_⟩
    · rw [begun_concat, begins, List.append_nil, hbegun, here, pending, List.append_nil,
        List.map_append]
      rfl
    · rw [dests, hdests, List.filter_append, List.map_append]
      rfl
    · rw [countP_concat, countP_concat, gives, hgaveUp]
      rfl
  | @gives dest begins gives here pending dests =>
    refine ⟨ended ++ [⟨dest, false⟩], ?_, ?_, ?_⟩
    · rw [begun_concat, begins, List.append_nil, hbegun, here, pending, List.append_nil,
        List.map_append]
      rfl
    · rw [dests, hdests, List.filter_append, List.map_append]
      exact (List.append_nil _).symm
    · rw [countP_concat, countP_concat, gives, hgaveUp]
      rfl

theorem init (setup : Setup) (who : Actor) : Attempts setup [] (.init setup) who [] :=
  ⟨List.append_nil _, rfl, rfl⟩

/-- What a run has done is accounted for when each step is. -/
theorem of_run (h : run (State.step setup) (.init setup) events = some s) (who : Actor) :
    ∃ ended, Attempts setup events s who ended := by
  have hall : (Ordered s ∧ (s.main ≠ .awaiting → s.listener = .absent)) ∧
      ∃ ended, Attempts setup events s who ended := by
    refine run_history (P := fun past s => (Ordered s ∧ (s.main ≠ .awaiting → s.listener = .absent)) ∧
      ∃ ended, Attempts setup past s who ended) ?_ ⟨⟨.init, fun _ => rfl⟩, _, init setup who⟩ h
    intro past s e s' hbefore hstep
    obtain ⟨⟨hordered, hlistener⟩, ended, hattempts⟩ := hbefore
    exact ⟨⟨hordered.of_step hstep, absent_of_step hlistener hstep⟩,
      hattempts.of_effect (Effect.of_step hordered hlistener hstep who)⟩
  exact hall.2

end Attempts

/-- **No call is lost.** What the events of a run begin for an actor, the start of the process
and of the broadcaster, ticks, searches and signals, are the calls that have ended and the one
in progress, in order; what it has sent are those of them that it has not given up, and these
are as many as its fetches and sends that failed or took too long. -/
theorem attempts_accounted (h : run (State.step setup) (.init setup) events = some s) (who : Actor) :
    ∃ ended : List Ended, begun setup who events = ended.map Ended.dest ++ s.pending who ∧
      s.dests who = (ended.filter Ended.sent).map Ended.dest ∧
      events.countP (gaveUp who) = ended.countP fun call => !call.sent := by
  obtain ⟨ended, hbegun, hdests, hgaveUp⟩ := Attempts.of_run h who
  exact ⟨ended, hbegun, hdests, hgaveUp⟩

/-! ### A device that goes away -/

/-- The device is announced, then neither described nor withdrawn in time. -/
def vanished : List Event :=
  [.broadcasterSpawned, .handlerSpawned, .replied .broadcaster (.fetched mediaRenderer),
    .replied .broadcaster .sent, .ticked, .replied .broadcaster .fetchFailed, .signalled, .timedOut,
    .exited]

def vanishedState : State where
  main := .spawningListener
  broadcaster := .ticking
  listener := .absent
  shutdown := .exiting
  exited := some .signal
  sent := [⟨.broadcaster, ssdpAddress, sampleHelper.alive mediaRenderer⟩]

theorem run_vanished : run (State.step waiting) (.init waiting) vanished = some vanishedState := rfl

/-- Of two announcements the second is given up, and the byebye is too. -/
theorem attempts_accounted_vanished :
    (∃ ended : List Ended,
      begun waiting .broadcaster vanished = ended.map Ended.dest ++ vanishedState.pending .broadcaster ∧
        vanishedState.dests .broadcaster = (ended.filter Ended.sent).map Ended.dest ∧
        vanished.countP (gaveUp .broadcaster) = ended.countP fun call => !call.sent) ∧
    (∃ ended : List Ended,
      begun waiting .shutdown vanished = ended.map Ended.dest ++ vanishedState.pending .shutdown ∧
        vanishedState.dests .shutdown = (ended.filter Ended.sent).map Ended.dest ∧
        vanished.countP (gaveUp .shutdown) = ended.countP fun call => !call.sent) ∧
    (begun waiting .broadcaster vanished).length = 2 ∧ vanished.countP (gaveUp .broadcaster) = 1 ∧
    (begun waiting .shutdown vanished).length = 1 ∧ vanished.countP (gaveUp .shutdown) = 1 := by
  refine ⟨attempts_accounted run_vanished .broadcaster, attempts_accounted run_vanished .shutdown, ?_⟩
  decide

end DlnaProxy.Ssdp
