import DlnaProxy.Ssdp.Attempts

/-!
# What the messages are sent for

Every message is the end of a call, and every call was begun by an event: the start of
the process, the start of the broadcaster, a tick, a search, a signal. So no event leads to
two messages, and the messages are bounded by the events.
-/
namespace DlnaProxy.Ssdp

open DlnaProxy.Lib.Transition DlnaProxy.Lib.Utf8 DlnaProxy.Net

variable {setup : Setup} {s s' : State} {e : Event} {past events : List Event} {who : Actor}

/-- **What an actor has sent is part of what has been begun**, in the same order. -/
theorem dests_sublist (h : run (State.step setup) (.init setup) events = some s) (who : Actor) :
    (s.dests who ++ s.pending who).Sublist (begun setup who events) := by
  obtain ⟨ended, hbegun, hdests, _⟩ := Attempts.of_run h who
  rw [hbegun, hdests]
  exact (List.filter_sublist.map Ended.dest).append (List.Sublist.refl _)

theorem begun_multicast (hwho : who ≠ .listener) : ∀ dest ∈ begun setup who events, dest = ssdpAddress := by
  have hnew {dest : SocketAddr} (h : dest ∈ [ssdpAddress]) : dest = ssdpAddress := List.mem_singleton.mp h
  have hnone {dest : SocketAddr} (h : dest ∈ ([] : List SocketAddr)) : dest = ssdpAddress := nomatch h
  intro dest hmem
  rcases List.mem_append.mp hmem with hinit | hbegun
  · cases who with
    | main =>
      revert hinit
      rw [State.pending, State.calling, State.init]
      cases setup.waitMode
      · exact hnew
      · exact hnone
    | _ => exact hnone hinit
  · obtain ⟨e, _, he⟩ := List.mem_flatMap.mp hbegun
    cases who with
    | listener => exact absurd rfl hwho
    | _ => cases e <;> first | exact hnew he | exact hnone he

/-- All but answers go to the group. -/
theorem dest_of_sent (h : run (State.step setup) (.init setup) events = some s) {message : Message}
    (hmem : message ∈ s.sent) (hsender : message.sender ≠ .listener) : message.dest = ssdpAddress := by
  have hdest : message.dest ∈ s.dests message.sender :=
    List.mem_map_of_mem (List.mem_filter.mpr ⟨hmem, decide_eq_true rfl⟩)
  have hsub := (List.sublist_append_left _ _).trans (dests_sublist h message.sender)
  exact begun_multicast hsender _ (hsub.subset hdest)

/-! ## Events that happen once -/

def ticks : Event → Nat
  | .ticked => 1
  | _ => 0

def spawns : Event → Nat
  | .handlerSpawned => 1
  | _ => 0

def signals : Event → Nat
  | .signalled => 1
  | _ => 0

/-- How often the shutdown handler is still to be spawned. -/
def State.toSpawn (s : State) : Nat :=
  (match s.main with
    | .byebye _ => 1
    | .spawningBroadcaster => 1
    | _ => 0) +
  match s.broadcaster with
    | .spawningHandler => 1
    | _ => 0

/-- How many signals are still to be heard. -/
def State.toHear (s : State) : Nat :=
  s.toSpawn +
  match s.shutdown with
    | .waiting => 1
    | _ => 0

theorem toSpawn_recall {who : Actor} {call call' : Call} (h : s.calling who = some call) :
    (s.recall call' who).toSpawn = s.toSpawn ∧ (s.recall call' who).toHear = s.toHear := by
  cases who with
  | main =>
    have hmain := main_of_calling h
    simp [State.toHear, State.toSpawn, State.recall, hmain]
  | broadcaster =>
    have halive := broadcaster_of_calling h
    simp [State.toHear, State.toSpawn, State.recall, halive]
  | listener => exact ⟨rfl, rfl⟩
  | shutdown =>
    have hbyebye := shutdown_of_calling h
    simp [State.toHear, State.toSpawn, State.recall, hbyebye]

theorem toSpawn_resume {who : Actor} {call : Call} (h : s.calling who = some call) :
    (s.resume who).toSpawn = s.toSpawn ∧ (s.resume who).toHear = s.toHear := by
  cases who with
  | main =>
    have hmain := main_of_calling h
    simp [State.toHear, State.toSpawn, State.resume, hmain]
  | broadcaster =>
    have halive := broadcaster_of_calling h
    simp [State.toHear, State.toSpawn, State.resume, halive]
  | listener => exact ⟨rfl, rfl⟩
  | shutdown =>
    have hbyebye := shutdown_of_calling h
    simp [State.toHear, State.toSpawn, State.resume, hbyebye]

/-- What happens once is not to happen again. -/
theorem Steps.toSpawn_le (h : Steps setup s e s') :
    spawns e + s'.toSpawn ≤ s.toSpawn ∧ signals e + s'.toHear ≤ s.toHear := by
  cases h with
  | fetches here =>
    obtain ⟨hspawn, hhear⟩ := toSpawn_recall here
    rw [hspawn, hhear]
    simp [spawns, signals]
  | @sends who dest packet here =>
    have hcall : State.calling { s with sent := s.sent ++ [⟨who, dest, packet⟩] } who =
        some ⟨dest, .sending packet⟩ := by rw [calling_sent, here]
    obtain ⟨hspawn, hhear⟩ := toSpawn_resume hcall
    rw [hspawn, hhear]
    simp [spawns, signals, State.toSpawn, State.toHear]
  | gives here unsent =>
    obtain ⟨hspawn, hhear⟩ := toSpawn_resume here
    rw [hspawn, hhear]
    rcases unsent with rfl | rfl <;> simp [spawns, signals]
  | moves move =>
    cases move <;> simp_all [spawns, signals, State.toSpawn, State.toHear] <;> omega

/-- In a run the handler is spawned once and a signal is heard once. -/
theorem once (h : run (State.step setup) (.init setup) events = some s) :
    (events.map spawns).sum ≤ 1 ∧ (events.map signals).sum ≤ 1 := by
  have hinit : (State.init setup).toSpawn = 1 ∧ (State.init setup).toHear = 1 := by
    unfold State.toHear State.toSpawn State.init
    cases setup.waitMode <;> exact ⟨rfl, rfl⟩
  have hleft : (events.map spawns).sum + s.toSpawn ≤ 1 ∧ (events.map signals).sum + s.toHear ≤ 1 := by
    refine run_history (P := fun past s => (past.map spawns).sum + s.toSpawn ≤ 1 ∧
      (past.map signals).sum + s.toHear ≤ 1) ?_ ?_ h
    · intro past s e s' ih hstep
      have hle := (step_cases hstep).2.toSpawn_le
      simp only [List.map_append, List.map_singleton, List.sum_append, List.sum_singleton]
      omega
    · rw [hinit.1, hinit.2]
      exact ⟨Nat.le_refl _, Nat.le_refl _⟩
  omega

/-! ## The account -/

theorem begun_main (setup : Setup) (events : List Event) :
    (begun setup .main events).length = if setup.waitMode then 0 else 1 := by
  have hnone : (events.flatMap fun e => e.begins setup .main) = [] :=
    List.flatMap_eq_nil_iff.mpr fun _ _ => rfl
  rw [begun, hnone, List.append_nil]
  cases hwait : setup.waitMode <;> simp [State.pending, State.calling, State.init, hwait]

theorem begun_broadcaster (setup : Setup) (events : List Event) :
    (begun setup .broadcaster events).length = (events.map spawns).sum + (events.map ticks).sum := by
  have hbegins (e : Event) : (e.begins setup .broadcaster).length = spawns e + ticks e := by
    cases e <;> rfl
  have hsum : ((events.map fun e => (e.begins setup .broadcaster).length)).sum =
      (events.map spawns).sum + (events.map ticks).sum := by
    simp only [hbegins, List.sum_map_add]
  rw [begun, List.length_append, List.length_flatMap, hsum]
  exact Nat.zero_add _

theorem begun_shutdown (setup : Setup) (events : List Event) :
    (begun setup .shutdown events).length = (events.map signals).sum := by
  have hbegins (e : Event) : (e.begins setup .shutdown).length = signals e := by cases e <;> rfl
  rw [begun, List.length_append, List.length_flatMap]
  simp only [hbegins]
  exact Nat.zero_add _

theorem begun_listener (setup : Setup) (events : List Event) :
    begun setup .listener events = (events.filterMap (search setup.parser)).map (·.srcAddr) := by
  rw [begun]
  show [] ++ _ = _
  rw [List.nil_append]
  induction events with
  | nil => rfl
  | cons e events ih =>
    rw [List.flatMap_cons, ih, List.filterMap_cons, Event.begins]
    cases search setup.parser e <;> rfl

theorem sent_length (s : State) : s.sent.length = (s.dests .main).length +
    (s.dests .broadcaster).length + (s.dests .listener).length + (s.dests .shutdown).length := by
  simp only [State.dests, List.length_map]
  induction s.sent with
  | nil => rfl
  | cons message sent ih =>
    simp only [List.filter_cons, List.length_cons, ih]
    cases message.sender <;> simp <;> omega

/-- **Every message has its cause.** The initial byebye is sent at most once and never in
wait mode, an announcement at most once for a tick and once before, an answer at most once
for a search that is to be answered, to where it came from and in the order of the
searches, and the final byebye at most once. -/
theorem messages_accounted (h : run (State.step setup) (.init setup) events = some s) :
    (s.dests .main).length ≤ (if setup.waitMode then 0 else 1) ∧
      (s.dests .broadcaster).length ≤ 1 + (events.map ticks).sum ∧
      (∃ searches : List Datagram, searches.Sublist (events.filterMap (search setup.parser)) ∧
        s.dests .listener = searches.map (·.srcAddr)) ∧
      (s.dests .shutdown).length ≤ 1 ∧
      s.sent.length ≤ 3 + (events.map ticks).sum + (events.filterMap (search setup.parser)).length := by
  have hdests (who : Actor) : (s.dests who).Sublist (begun setup who events) :=
    (List.sublist_append_left _ _).trans (dests_sublist h who)
  obtain ⟨hspawns, hsignals⟩ := once h
  have hmain := (hdests .main).length_le
  have hbroadcaster := (hdests .broadcaster).length_le
  have hlistener := hdests .listener
  have hshutdown := (hdests .shutdown).length_le
  rw [begun_main] at hmain
  rw [begun_broadcaster] at hbroadcaster
  rw [begun_listener] at hlistener
  rw [begun_shutdown] at hshutdown
  have hanswers := hlistener.length_le
  rw [List.length_map] at hanswers
  have hone : (if setup.waitMode then 0 else 1) ≤ 1 := by split <;> decide
  refine ⟨hmain, by omega, ?_, by omega, ?_⟩
  · obtain ⟨searches, hsub, heq⟩ := List.sublist_map_iff.mp hlistener
    exact ⟨searches, hsub, heq⟩
  · rw [sent_length]
    omega

theorem messages_accounted_vanished :
    (vanishedState.dests .main).length ≤ 0 ∧
      (vanishedState.dests .broadcaster).length ≤ 1 + (vanished.map ticks).sum ∧
      (∃ searches : List Datagram, searches.Sublist (vanished.filterMap (search reference)) ∧
        vanishedState.dests .listener = searches.map (·.srcAddr)) ∧
      (vanishedState.dests .shutdown).length ≤ 1 ∧
      vanishedState.sent.length ≤
        3 + (vanished.map ticks).sum + (vanished.filterMap (search reference)).length :=
  messages_accounted run_vanished

end DlnaProxy.Ssdp
