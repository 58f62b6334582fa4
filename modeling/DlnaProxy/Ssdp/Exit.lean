import DlnaProxy.Ssdp.Attempts

/-!
# The end of the process

The process ends through the shutdown handler, which a signal sets off and which then
needs no answer from anyone, or with `main_task`, which waits for the listener. That ends
with a packet that fills the header table and with no other.
-/
namespace DlnaProxy.Ssdp

open DlnaProxy.Lib.Transition DlnaProxy.Lib.Utf8 DlnaProxy.Net

variable {setup : Setup} {s s' : State} {e : Event} {past events : List Event}

/-- The handler has heard its signal. -/
def Shutdown.Signalled : Shutdown → Prop
  | .byebye _ => True
  | .exiting => True
  | _ => False

/-- A packet that ends the listener. -/
def Panicked (setup : Setup) (past : List Event) : Prop :=
  ∃ datagram, .received (.datagram datagram) ∈ past ∧
    listenPass setup.parser (.datagram datagram) = .panicked

/-- What has come before the end of a task, and before that of the process. -/
structure Causes (setup : Setup) (past : List Event) (s : State) : Prop where
  signalled : s.shutdown.Signalled → .signalled ∈ past
  panicked : s.listener = .panicked → Panicked setup past
  exited : s.exited = some .signal → s.shutdown.Signalled
  ended : s.exited = some .listenerEnded → s.listener = .panicked

/-- The step ends no task, and the handler hears nothing in it. -/
structure Quiet (s s' : State) : Prop where
  shutdown : s'.shutdown.Signalled → s.shutdown.Signalled
  listener : s'.listener = .panicked → s.listener = .panicked
  running : s'.exited = none

theorem Quiet.of_recall (hrunning : s.exited = none) {who : Actor} {call : Call}
    (here : s.calling who = some call) (call' : Call) : Quiet s (s.recall call' who) := by
  cases who with
  | main => exact ⟨id, id, hrunning⟩
  | broadcaster => exact ⟨id, id, hrunning⟩
  | listener => exact ⟨id, nofun, hrunning⟩
  | shutdown =>
    have hbyebye := shutdown_of_calling here
    exact ⟨fun _ => by rw [hbyebye]; trivial, id, hrunning⟩

theorem Quiet.of_resume (hrunning : s.exited = none) {who : Actor} {call : Call}
    (here : s.calling who = some call) (sent : List Message) :
    Quiet s (State.resume { s with sent } who) := by
  cases who with
  | main => exact ⟨id, id, hrunning⟩
  | broadcaster => exact ⟨id, id, hrunning⟩
  | listener => exact ⟨id, nofun, hrunning⟩
  | shutdown =>
    have hbyebye := shutdown_of_calling here
    exact ⟨fun _ => by rw [hbyebye]; trivial, id, hrunning⟩

theorem panicked_of_step {received : Received} (hstep : s.step setup (.received received) = some s')
    (hbefore : s.listener ≠ .panicked) (hafter : s'.listener = .panicked) :
    ∃ datagram, received = .datagram datagram ∧
      listenPass setup.parser (.datagram datagram) = .panicked := by
  obtain ⟨_, hpass⟩ := received_of_step hstep
  rcases hpass with ⟨_, rfl⟩ | ⟨_, _, _, rfl⟩ | ⟨hpanicked, rfl⟩
  · exact absurd hafter hbefore
  · cases hafter
  · cases received with
    | failed e => cases hpanicked
    | datagram datagram => exact ⟨datagram, rfl, hpanicked⟩

namespace Causes

theorem init : Causes setup [] (.init setup) := ⟨nofun, nofun, nofun, nofun⟩

theorem of_quiet (h : Causes setup past s) (hquiet : Quiet s s') (e : Event) :
    Causes setup (past ++ [e]) s' where
  signalled hsignalled := List.mem_append_left _ (h.signalled (hquiet.shutdown hsignalled))
  panicked hpanicked := by
    obtain ⟨datagram, hmem, hpass⟩ := h.panicked (hquiet.listener hpanicked)
    exact ⟨datagram, List.mem_append_left _ hmem, hpass⟩
  exited hsignal := by
    rw [hquiet.running] at hsignal
    cases hsignal
  ended hended := by
    rw [hquiet.running] at hended
    cases hended

theorem of_moves (h : Causes setup past s) (hrunning : s.exited = none)
    (hstep : s.step setup e = some s') (move : Moves setup s e s') : Causes setup (past ++ [e]) s' := by
  have hlast : e ∈ past ++ [e] := List.mem_append_right _ List.mem_cons_self
  have hquiet {t : State} (ht : Quiet s t) : Causes setup (past ++ [e]) t := h.of_quiet ht e
  have hsame : Causes setup (past ++ [e]) s := hquiet ⟨id, id, hrunning⟩
  cases move with
  | spawnsBroadcaster _ => exact hquiet ⟨id, id, hrunning⟩
  | spawnsHandler _ => exact hquiet ⟨nofun, id, hrunning⟩
  | spawnsListener _ => exact hquiet ⟨id, nofun, hrunning⟩
  | ticks _ => exact hquiet ⟨id, id, hrunning⟩
  | ignores _ => exact hquiet ⟨id, id, hrunning⟩
  | answers _ _ => exact hquiet ⟨id, nofun, hrunning⟩
  | panics here =>
    obtain ⟨datagram, hreceived, hpass⟩ := panicked_of_step hstep (by rw [here]; nofun) rfl
    refine ⟨hsame.signalled, fun _ => ⟨datagram, hreceived ▸ hlast, hpass⟩, hsame.exited, fun _ => rfl⟩
  | hears here =>
    exact ⟨fun _ => hlast, hsame.panicked, fun _ => trivial, hsame.ended⟩
  | disables _ => exact hquiet ⟨nofun, id, hrunning⟩
  | timesOut here => exact hquiet ⟨(fun _ => by rw [here]; trivial), id, hrunning⟩
  | exits here =>
    refine ⟨hsame.signalled, hsame.panicked, ?_, nofun⟩
    intro _
    show s.shutdown.Signalled
    rw [here]
    trivial
  | returns _ ended => exact ⟨hsame.signalled, hsame.panicked, nofun, fun _ => ended⟩

theorem of_step (h : Causes setup past s) (hstep : s.step setup e = some s') :
    Causes setup (past ++ [e]) s' := by
  obtain ⟨hrunning, hsteps⟩ := step_cases hstep
  cases hsteps with
  | fetches here => exact h.of_quiet (.of_recall hrunning here _) _
  | sends here => exact h.of_quiet (.of_resume hrunning here _) _
  | gives here _ => exact h.of_quiet (.of_resume hrunning here s.sent) _
  | moves move => exact h.of_moves hrunning hstep move

theorem of_run (h : run (State.step setup) (.init setup) events = some s) : Causes setup events s :=
  run_history of_step init h

end Causes

/-! ## The handler on its own -/

/-- The handler is there and has been able to wait for signals. -/
def Shutdown.Armed : Shutdown → Prop
  | .waiting => True
  | .byebye _ => True
  | .exiting => True
  | _ => False

/-- A signal, the timeout and the exit are all it takes, and less behind the signal. -/
theorem run_stops (setup : Setup) (hrunning : s.exited = none) (harmed : s.shutdown.Armed) :
    ∃ steps, steps <:+ [.signalled, .timedOut, .exited] ∧
      run (State.step setup) s steps = some { s with shutdown := .exiting, exited := some .signal } := by
  obtain ⟨main, broadcaster, listener, shutdown, exited, sent⟩ := s
  obtain rfl : exited = none := hrunning
  cases shutdown with
  | absent => exact harmed.elim
  | disabled => exact harmed.elim
  | waiting => exact ⟨_, List.suffix_refl _, rfl⟩
  | byebye call => exact ⟨[.timedOut, .exited], ⟨[.signalled], rfl⟩, rfl⟩
  | exiting => exact ⟨[.exited], ⟨[.signalled, .timedOut], rfl⟩, rfl⟩

/-- **Why the process ends.** It is told to by a signal, or a packet has filled the header
table. And once the handler waits for signals one of them can end it, whatever the other
tasks are about and though no fetch and no send comes to its end. -/
theorem exit_causes (hlawful : Lawful setup.parser)
    (hrun : run (State.step setup) (.init setup) events = some s) :
    (s.exited = some .signal → .signalled ∈ events) ∧
      (s.exited = some .listenerEnded → ∃ datagram, .received (.datagram datagram) ∈ events ∧
        FillsTable setup.parser datagram.buffer) ∧
      (s.exited = none → s.shutdown.Armed → ∃ steps s', steps <:+ [.signalled, .timedOut, .exited] ∧
        run (State.step setup) s steps = some s' ∧ s'.exited = some .signal ∧ s'.sent = s.sent) := by
  have hcauses := Causes.of_run hrun
  refine ⟨?_, ?_, ?_⟩
  · intro hexited
    exact hcauses.signalled (hcauses.exited hexited)
  · intro hexited
    obtain ⟨datagram, hmem, hpass⟩ := hcauses.panicked (hcauses.ended hexited)
    exact ⟨datagram, hmem, (listenPass_panicked_iff hlawful datagram).mp hpass⟩
  · intro hrunning harmed
    obtain ⟨steps, hsuffix, hsteps⟩ := run_stops setup hrunning harmed
    exact ⟨steps, _, hsuffix, hsteps, rfl, rfl⟩

/-! ### A packet that ends the process -/

/-- The handler waits for signals when the packet comes. -/
def beforePacket : List Event := [.broadcasterSpawned, .handlerSpawned, .listenerSpawned]

def packetEnds : List Event := beforePacket ++ [.received (.datagram sixteenHeaders), .mainReturned]

def beforePacketState : State where
  main := .awaiting
  broadcaster := .alive (.new ssdpAddress)
  listener := .receiving
  shutdown := .waiting
  exited := none
  sent := []

def packetEndsState : State :=
  { beforePacketState with listener := .panicked, exited := some .listenerEnded }

theorem run_beforePacket :
    run (State.step waiting) (.init waiting) beforePacket = some beforePacketState := rfl

theorem run_packetEnds :
    run (State.step waiting) (.init waiting) packetEnds = some packetEndsState := by
  have hpass : listenPass reference (.datagram sixteenHeaders) = .panicked :=
    (listenPass_panicked_iff lawful_reference sixteenHeaders).mpr
      (fillsTable_sixteenHeaders lawful_reference)
  have hstep : State.step waiting beforePacketState (.received (.datagram sixteenHeaders)) =
      some { beforePacketState with listener := .panicked } := by
    show State.move waiting beforePacketState (.received (.datagram sixteenHeaders)) = _
    simp only [State.move, beforePacketState, waiting, hpass]
  exact run_through run_beforePacket hstep rfl

theorem exit_causes_packetEnds :
    Event.signalled ∈ replaced ∧
      (∃ datagram, .received (.datagram datagram) ∈ packetEnds ∧
        FillsTable reference datagram.buffer) ∧
      ∃ steps s', steps <:+ [.signalled, .timedOut, .exited] ∧
        run (State.step waiting) beforePacketState steps = some s' ∧ s'.exited = some .signal ∧
        s'.sent = beforePacketState.sent := by
  refine ⟨(exit_causes lawful_reference run_replaced).1 rfl, ?_, ?_⟩
  · exact (exit_causes lawful_reference run_packetEnds).2.1 rfl
  · exact (exit_causes lawful_reference run_beforePacket).2.2 rfl trivial

end DlnaProxy.Ssdp
