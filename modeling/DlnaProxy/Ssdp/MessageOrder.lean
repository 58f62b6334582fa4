import DlnaProxy.Ssdp.Tasks

/-!
# The order of the messages

The tasks are spawned when the initial byebye has been tried, so nothing comes before
it. Nothing stops the broadcaster or the listener when the final byebye is sent, so
what they are about may still follow it until the process has ended.
-/
namespace DlnaProxy.Ssdp

open DlnaProxy.Lib.Transition DlnaProxy.Lib.Utf8 DlnaProxy.Net

variable {setup : Setup} {s s' mid : State} {e : Event} {past : List Event}

/-! ## Before the first announcement -/

/-- `main_task` has spawned the broadcaster. -/
def Main.Started : Main → Prop
  | .spawningListener => True
  | .awaiting => True
  | _ => False

/-- `broadcast_task` has spawned the shutdown handler. -/
def Broadcaster.Started : Broadcaster → Prop
  | .alive _ => True
  | .ticking => True
  | _ => False

/-- A task is spawned by the one before it, which then is past its own start. -/
structure Ordered (s : State) : Prop where
  attempt : ∀ call, s.main = .byebye call → s.listener = .absent ∧ s.sent = []
  spawned : s.broadcaster ≠ .absent → s.main.Started
  handled : s.shutdown ≠ .absent → s.broadcaster.Started

namespace Ordered

theorem init : Ordered (.init setup) := ⟨fun _ _ => ⟨rfl, rfl⟩, nofun, nofun⟩

theorem spawned_of_shutdown (h : Ordered s) (hshutdown : s.shutdown ≠ .absent) : s.main.Started := by
  apply h.spawned
  intro habsent
  have hstarted := h.handled hshutdown
  rw [habsent] at hstarted
  exact hstarted

/-- While the initial byebye is tried no other task is in a call. -/
theorem calling_main (h : Ordered s) {call : Call} (hmain : s.main = .byebye call) {who : Actor}
    {call' : Call} (hcall : s.calling who = some call') : who = .main := by
  have hidle : ¬ s.main.Started := by
    rw [hmain]
    exact id
  cases who with
  | main => rfl
  | broadcaster =>
    have halive := broadcaster_of_calling hcall
    exact absurd (h.spawned (by rw [halive]; nofun)) hidle
  | listener =>
    have hanswering := listener_of_calling hcall
    rw [(h.attempt call hmain).1] at hanswering
    cases hanswering
  | shutdown =>
    have hbyebye := shutdown_of_calling hcall
    exact absurd (h.spawned_of_shutdown (by rw [hbyebye]; nofun)) hidle

theorem of_recall (h : Ordered s) {who : Actor} {call : Call} (here : s.calling who = some call)
    (call' : Call) : Ordered (s.recall call' who) := by
  cases who with
  | main =>
    have hmain := main_of_calling here
    refine ⟨fun _ _ => h.attempt call hmain, ?_, h.handled⟩
    intro hspawned
    have hstarted := h.spawned hspawned
    rw [hmain] at hstarted
    exact hstarted
  | broadcaster =>
    have halive := broadcaster_of_calling here
    exact ⟨h.attempt, fun _ => h.spawned (by rw [halive]; nofun), fun _ => trivial⟩
  | listener =>
    refine ⟨?_, h.spawned, h.handled⟩
    intro first hmain
    cases h.calling_main hmain here
  | shutdown =>
    have hbyebye := shutdown_of_calling here
    exact ⟨h.attempt, h.spawned, fun _ => h.handled (by rw [hbyebye]; nofun)⟩

theorem of_resume (h : Ordered s) {who : Actor} {call : Call} (here : s.calling who = some call)
    (sent : List Message) : Ordered (State.resume { s with sent } who) := by
  cases who with
  | main =>
    have hmain := main_of_calling here
    refine ⟨nofun, ?_, h.handled⟩
    intro hspawned
    have hstarted := h.spawned hspawned
    rw [hmain] at hstarted
    exact absurd hstarted id
  | broadcaster =>
    have halive := broadcaster_of_calling here
    refine ⟨?_, fun _ => h.spawned (by rw [halive]; nofun), fun _ => trivial⟩
    intro first hmain
    cases h.calling_main hmain here
  | listener =>
    refine ⟨?_, h.spawned, h.handled⟩
    intro first hmain
    cases h.calling_main hmain here
  | shutdown =>
    have hbyebye := shutdown_of_calling here
    refine ⟨?_, h.spawned, fun _ => h.handled (by rw [hbyebye]; nofun)⟩
    intro first hmain
    cases h.calling_main hmain here

theorem of_moves (h : Ordered s) (move : Moves setup s e s') : Ordered s' := by
  cases move with
  | spawnsBroadcaster here =>
    refine ⟨nofun, fun _ => trivial, ?_⟩
    intro hshutdown
    have hstarted := h.spawned_of_shutdown hshutdown
    rw [here] at hstarted
    exact absurd hstarted id
  | spawnsHandler here =>
    refine ⟨h.attempt, fun _ => h.spawned (by rw [here]; nofun), fun _ => trivial⟩
  | spawnsListener here => exact ⟨nofun, fun _ => trivial, h.handled⟩
  | ticks here => exact ⟨h.attempt, fun _ => h.spawned (by rw [here]; nofun), fun _ => trivial⟩
  | ignores _ => exact h
  | answers here _ =>
    refine ⟨?_, h.spawned, h.handled⟩
    intro call hmain
    have habsent := (h.attempt call hmain).1
    rw [here] at habsent
    cases habsent
  | panics here =>
    refine ⟨?_, h.spawned, h.handled⟩
    intro call hmain
    have habsent := (h.attempt call hmain).1
    rw [here] at habsent
    cases habsent
  | hears here => exact ⟨h.attempt, h.spawned, fun _ => h.handled (by rw [here]; nofun)⟩
  | disables here => exact ⟨h.attempt, h.spawned, fun _ => h.handled (by rw [here]; nofun)⟩
  | timesOut here => exact ⟨h.attempt, h.spawned, fun _ => h.handled (by rw [here]; nofun)⟩
  | exits _ => exact ⟨h.attempt, h.spawned, h.handled⟩
  | returns _ _ => exact ⟨h.attempt, h.spawned, h.handled⟩

theorem of_step (h : Ordered s) (hstep : s.step setup e = some s') : Ordered s' := by
  obtain ⟨_, hsteps⟩ := step_cases hstep
  cases hsteps with
  | fetches here => exact h.of_recall here _
  | sends here => exact h.of_resume here _
  | gives here _ => exact h.of_resume here s.sent
  | moves move => exact h.of_moves move

theorem of_run {events : List Event} (h : run (State.step setup) (.init setup) events = some s) :
    Ordered s := run_invariant of_step init h

end Ordered

/-- The call of the initial byebye has come to its end: sent, or given up. -/
def Attempted (past : List Event) : Prop :=
  ∃ reply, (∀ info, reply ≠ .fetched info) ∧ .replied .main reply ∈ past

theorem Attempted.later (h : Attempted past) (e : Event) : Attempted (past ++ [e]) := by
  obtain ⟨reply, hends, hmem⟩ := h
  exact ⟨reply, hends, List.mem_append_left _ hmem⟩

/-- A step that ends the call of the initial byebye is its last reply. -/
theorem Steps.attempting (h : Steps setup s e s') {call : Call} (hmain : s.main = .byebye call) :
    (∃ call, s'.main = .byebye call) ∨ Attempted (past ++ [e]) := by
  have hlast {reply : Reply} (hends : ∀ info, reply ≠ .fetched info) :
      Attempted (past ++ [.replied .main reply]) :=
    ⟨reply, hends, List.mem_append_right _ List.mem_cons_self⟩
  cases h with
  | @fetches who dest info here =>
    cases who with
    | main => exact Or.inl ⟨_, rfl⟩
    | _ => exact Or.inl ⟨call, hmain⟩
  | @sends who dest packet here =>
    cases who with
    | main => exact Or.inr (hlast nofun)
    | _ => exact Or.inl ⟨call, hmain⟩
  | @gives who _ reply here unsent =>
    cases who with
    | main => exact Or.inr (hlast (by rcases unsent with rfl | rfl <;> exact nofun))
    | _ => exact Or.inl ⟨call, hmain⟩
  | moves move =>
    cases move with
    | spawnsBroadcaster here => cases here.symm.trans hmain
    | spawnsListener here => cases here.symm.trans hmain
    | _ => exact Or.inl ⟨call, hmain⟩

theorem attempting_of_run {events : List Event} (hwait : setup.waitMode = false)
    (hrun : run (State.step setup) (.init setup) events = some s) :
    (∃ call, s.main = .byebye call) ∨ Attempted events := by
  refine run_history (P := fun past s => (∃ call, s.main = .byebye call) ∨ Attempted past)
    ?_ ?_ hrun
  · intro past s e s' ih hstep
    rcases ih with ⟨call, hmain⟩ | hattempted
    · exact (step_cases hstep).2.attempting hmain
    · exact Or.inr (hattempted.later e)
  · rw [State.init, hwait]
    exact Or.inl ⟨_, rfl⟩

/-- Where there is an initial byebye, nothing is sent before it has been tried. -/
theorem attempted_of_sent {events : List Event} (hwait : setup.waitMode = false)
    (hrun : run (State.step setup) (.init setup) events = some s) (hsent : s.sent ≠ []) :
    Attempted events := by
  rcases attempting_of_run hwait hrun with ⟨call, hmain⟩ | hattempted
  · exact absurd ((Ordered.of_run hrun).attempt call hmain).2 hsent
  · exact hattempted

/-! ## After the final byebye -/

/-- A packet that is a search the listener answers. -/
def Answered (setup : Setup) (e : Event) : Prop :=
  ∃ received st dest, e = .received received ∧ listenPass setup.parser received = .answered st dest

/-- The broadcaster waited for its tick in `mid`, and none has come since. -/
def BroadcasterIdle (mid : State) (past : List Event) : Prop :=
  mid.broadcaster = .ticking ∧ .ticked ∉ past

/-- The listener was in no call in `mid`, and it has answered nothing since. -/
def ListenerIdle (setup : Setup) (mid : State) (past : List Event) : Prop :=
  mid.calling .listener = none ∧ ∀ e ∈ past, ¬ Answered setup e

theorem BroadcasterIdle.earlier (h : BroadcasterIdle mid (past ++ [e])) : BroadcasterIdle mid past :=
  ⟨h.1, fun hmem => h.2 (List.mem_append_left _ hmem)⟩

theorem ListenerIdle.earlier (h : ListenerIdle setup mid (past ++ [e])) :
    ListenerIdle setup mid past :=
  ⟨h.1, fun e hmem => h.2 e (List.mem_append_left _ hmem)⟩

/-- A task that has not been idle since `mid`. -/
def Active (setup : Setup) (mid : State) (past : List Event) (who : Actor) : Prop :=
  (who = .broadcaster ∧ ¬ BroadcasterIdle mid past) ∨ (who = .listener ∧ ¬ ListenerIdle setup mid past)

theorem Active.later {who : Actor} (h : Active setup mid past who) (e : Event) :
    Active setup mid (past ++ [e]) who :=
  h.imp (And.imp_right fun hnot hidle => hnot hidle.earlier)
    (And.imp_right fun hnot hidle => hnot hidle.earlier)

/-- Where a run is since the state `mid`, in which the handler was about to exit: what
has been sent since then came from a task that was not idle. -/
structure Closing (setup : Setup) (mid : State) (past : List Event) (s : State) : Prop where
  exiting : s.shutdown = .exiting
  main : s.main.Started
  started : s.broadcaster.Started
  broadcaster : BroadcasterIdle mid past → s.broadcaster = .ticking
  listener : ListenerIdle setup mid past → s.calling .listener = none
  sent : ∃ later, s.sent = mid.sent ++ later ∧
    ∀ message ∈ later, Active setup mid past message.sender

namespace Closing

theorem init (h : Ordered mid) (hexiting : mid.shutdown = .exiting) : Closing setup mid [] mid where
  exiting := hexiting
  main := h.spawned_of_shutdown (by rw [hexiting]; nofun)
  started := h.handled (by rw [hexiting]; nofun)
  broadcaster hidle := hidle.1
  listener hidle := hidle.1
  sent := ⟨[], (List.append_nil _).symm, nofun⟩

/-- Only a task that has not been idle is in a call. -/
theorem active (h : Closing setup mid past s) {who : Actor} {call : Call}
    (here : s.calling who = some call) : Active setup mid past who := by
  cases who with
  | main =>
    have hstarted := h.main
    rw [main_of_calling here] at hstarted
    exact absurd hstarted id
  | broadcaster =>
    refine Or.inl ⟨rfl, fun hidle => ?_⟩
    have hticking := h.broadcaster hidle
    rw [broadcaster_of_calling here] at hticking
    cases hticking
  | listener =>
    refine Or.inr ⟨rfl, fun hidle => ?_⟩
    have hnone := h.listener hidle
    rw [here] at hnone
    cases hnone
  | shutdown =>
    have hexiting := h.exiting
    rw [shutdown_of_calling here] at hexiting
    cases hexiting

theorem sent_later (h : Closing setup mid past s) (e : Event) : ∃ later,
    s.sent = mid.sent ++ later ∧ ∀ message ∈ later, Active setup mid (past ++ [e]) message.sender := by
  obtain ⟨later, hsent, hactive⟩ := h.sent
  exact ⟨later, hsent, fun message hmem => (hactive message hmem).later e⟩

theorem sent_append (h : Closing setup mid past s) {message : Message}
    (hactive : Active setup mid past message.sender) (e : Event) : ∃ later,
    s.sent ++ [message] = mid.sent ++ later ∧
      ∀ message ∈ later, Active setup mid (past ++ [e]) message.sender := by
  obtain ⟨later, hsent, hall⟩ := h.sent_later e
  refine ⟨later ++ [message], by rw [hsent, List.append_assoc], ?_⟩
  intro other hmem
  rcases List.mem_append.mp hmem with hold | hnew
  · exact hall other hold
  · obtain rfl := List.mem_singleton.mp hnew
    exact hactive.later e

theorem of_recall (h : Closing setup mid past s) {who : Actor} {call : Call}
    (here : s.calling who = some call) (call' : Call) (e : Event) :
    Closing setup mid (past ++ [e]) (s.recall call' who) := by
  rcases h.active here with ⟨rfl, hnot⟩ | ⟨rfl, hnot⟩
  · exact ⟨h.exiting, h.main, trivial, fun hidle => absurd hidle.earlier hnot,
      fun hidle => h.listener hidle.earlier, h.sent_later e⟩
  · exact ⟨h.exiting, h.main, h.started, fun hidle => h.broadcaster hidle.earlier,
      fun hidle => absurd hidle.earlier hnot, h.sent_later e⟩

theorem of_resume (h : Closing setup mid past s) {who : Actor} {call : Call}
    (here : s.calling who = some call) {sent : List Message} {e : Event}
    (hsent : ∃ later, sent = mid.sent ++ later ∧
      ∀ message ∈ later, Active setup mid (past ++ [e]) message.sender) :
    Closing setup mid (past ++ [e]) (State.resume { s with sent } who) := by
  rcases h.active here with ⟨rfl, hnot⟩ | ⟨rfl, hnot⟩
  · exact ⟨h.exiting, h.main, trivial, fun _ => rfl, fun hidle => h.listener hidle.earlier, hsent⟩
  · exact ⟨h.exiting, h.main, h.started, fun hidle => h.broadcaster hidle.earlier, fun _ => rfl, hsent⟩

theorem of_moves (h : Closing setup mid past s) (move : Moves setup s e s') :
    Closing setup mid (past ++ [e]) s' := by
  have hexiting := h.exiting
  have hmain := h.main
  have hstarted := h.started
  have hbroadcaster (hidle : BroadcasterIdle mid (past ++ [e])) := h.broadcaster hidle.earlier
  have hlistener (hidle : ListenerIdle setup mid (past ++ [e])) := h.listener hidle.earlier
  have hsent := h.sent_later e
  cases move with
  | spawnsBroadcaster here =>
    rw [here] at hmain
    exact absurd hmain id
  | spawnsHandler here =>
    rw [here] at hstarted
    exact absurd hstarted id
  | spawnsListener here => exact ⟨hexiting, trivial, hstarted, hbroadcaster, fun _ => rfl, hsent⟩
  | ticks here =>
    refine ⟨hexiting, hmain, trivial, fun hidle => absurd ?_ hidle.2, hlistener, hsent⟩
    simp
  | ignores _ => exact ⟨hexiting, hmain, hstarted, hbroadcaster, hlistener, hsent⟩
  | answers here pass =>
    refine ⟨hexiting, hmain, hstarted, hbroadcaster, ?_, hsent⟩
    intro hidle
    exact absurd ⟨_, _, _, rfl, pass⟩ (hidle.2 _ (List.mem_append_right _ List.mem_cons_self))
  | panics here => exact ⟨hexiting, hmain, hstarted, hbroadcaster, fun _ => rfl, hsent⟩
  | hears here => rw [here] at hexiting; cases hexiting
  | disables here => rw [here] at hexiting; cases hexiting
  | timesOut here => rw [here] at hexiting; cases hexiting
  | exits _ => exact ⟨hexiting, hmain, hstarted, hbroadcaster, hlistener, hsent⟩
  | returns _ _ => exact ⟨hexiting, hmain, hstarted, hbroadcaster, hlistener, hsent⟩

theorem of_step (h : Closing setup mid past s) (hstep : s.step setup e = some s') :
    Closing setup mid (past ++ [e]) s' := by
  obtain ⟨_, hsteps⟩ := step_cases hstep
  cases hsteps with
  | fetches here => exact h.of_recall here _ _
  | sends here => exact h.of_resume here (h.sent_append (h.active here) _)
  | gives here _ => exact h.of_resume here (h.sent_later _)
  | moves move => exact h.of_moves move

end Closing

/-- The handler sends its byebye and goes on to the exit. -/
theorem step_finalByebye (h : Provenance setup past s)
    (hstep : s.step setup (.replied .shutdown .sent) = some s') : s'.shutdown = .exiting ∧
      ∃ dest info, s'.sent = s.sent ++ [⟨.shutdown, dest, setup.helper.byebye info⟩] := by
  obtain ⟨_, hsteps⟩ := step_cases hstep
  cases hsteps with
  | @sends _ dest packet here =>
    obtain ⟨info, _, hpacket⟩ := h.calling here
    exact ⟨rfl, dest, info, by rw [hpacket]; rfl⟩
  | gives _ unsent => rcases unsent with h | h <;> cases h
  | moves move => cases move

/-- The process ends with its exit. -/
theorem run_exited {events : List Event} (hexited : s.exited.isSome)
    (hrun : run (State.step setup) s events = some s') : events = [] := by
  cases events with
  | nil => rfl
  | cons e events =>
    have hstop : s.step setup e = none := if_pos hexited
    rw [run_cons, hstop] at hrun
    cases hrun

theorem step_exited (hstep : s.step setup .exited = some s') : s'.exited.isSome := by
  obtain ⟨_, hsteps⟩ := step_cases hstep
  cases hsteps with
  | moves move =>
    cases move
    rfl

/-- **The order of the messages.** Out of wait mode nothing is sent at any moment of a run
by which the initial byebye has not been tried to the end.
What follows the final byebye is an announcement or an answer of a task that was not
idle between it and the exit, and nothing follows the exit. -/
theorem messages_ordered {events : List Event}
    (hrun : run (State.step setup) (.init setup) events = some s) :
    (setup.waitMode = false → ∀ before early, before <+: events →
      run (State.step setup) (.init setup) before = some early → early.sent ≠ [] →
      Attempted before) ∧
    (∀ before after mid, events = before ++ .replied .shutdown .sent :: after →
      run (State.step setup) (.init setup) (before ++ [.replied .shutdown .sent]) = some mid →
      ∃ dest info later,
        s.sent = mid.sent ++ later ∧
        mid.sent.getLast? = some ⟨.shutdown, dest, setup.helper.byebye info⟩ ∧
        ∀ message ∈ later, ∃ info,
          (message.packet = setup.helper.alive info ∧ ¬ BroadcasterIdle mid after) ∨
          (message.packet = setup.helper.ok info ∧ ¬ ListenerIdle setup mid after)) ∧
    (∀ before after, events = before ++ .exited :: after → after = []) := by
  refine ⟨?_, ?_, ?_⟩
  · intro hwait before early _ hbefore hsent
    exact attempted_of_sent hwait hbefore hsent
  · rintro before after mid rfl hmid
    obtain ⟨pre, hpre, hstep⟩ := run_concat_eq_some.mp hmid
    obtain ⟨hexiting, dest, final, hfinal⟩ := step_finalByebye (Provenance.of_run hpre) hstep
    have hprovenance := Provenance.of_run hrun
    rw [List.append_cons, run_append, hmid, Option.bind_some] at hrun
    have hclosing : Closing setup mid after s :=
      run_history Closing.of_step (.init (Ordered.of_run hmid) hexiting) hrun
    obtain ⟨later, hlater, hactive⟩ := hclosing.sent
    refine ⟨dest, final, later, hlater, by rw [hfinal]; simp, ?_⟩
    intro message hmem
    obtain ⟨info, _, hpacket⟩ := hprovenance.sent message (by rw [hlater]; simp [hmem])
    refine ⟨info, ?_⟩
    rcases hactive message hmem with ⟨hsender, hnot⟩ | ⟨hsender, hnot⟩
    · exact Or.inl ⟨by rw [hpacket, hsender]; rfl, hnot⟩
    · exact Or.inr ⟨by rw [hpacket, hsender]; rfl, hnot⟩
  · rintro before after rfl
    rw [List.append_cons, run_append, Option.bind_eq_some_iff] at hrun
    obtain ⟨mid, hmid, hafter⟩ := hrun
    obtain ⟨pre, _, hstep⟩ := run_concat_eq_some.mp hmid
    exact run_exited (step_exited hstep) hafter

/-! ## An announcement behind the final byebye -/

def device : EndpointInfo where
  deviceType := mediaServer
  uniqueDeviceName := "uuid:minimal-device".toList
  server := "DLNAProxy/1.0".toList

def starting : Setup := ⟨sampleHelper, false, reference⟩

/-- The broadcaster has fetched the description when the process is told to stop. -/
def overtaken : List Event :=
  [.replied .main (.fetched device), .replied .main .sent, .broadcasterSpawned, .handlerSpawned,
    .listenerSpawned, .replied .broadcaster (.fetched device), .signalled,
    .replied .shutdown (.fetched device), .replied .shutdown .sent, .replied .broadcaster .sent, .exited]

def announcing : State where
  main := .awaiting
  broadcaster := .ticking
  listener := .receiving
  shutdown := .exiting
  exited := some .signal
  sent := [⟨.main, ssdpAddress, sampleHelper.byebye device⟩,
    ⟨.shutdown, ssdpAddress, sampleHelper.byebye device⟩,
    ⟨.broadcaster, ssdpAddress, sampleHelper.alive device⟩]

theorem run_overtaken : run (State.step starting) (.init starting) overtaken = some announcing := rfl

/-- The last message before the exit announces the device. -/
theorem overtaken_announces :
    run (State.step starting) (.init starting) overtaken = some announcing ∧
    announcing.exited = some .signal ∧
    announcing.sent.getLast? = some ⟨.broadcaster, ssdpAddress, sampleHelper.alive device⟩ :=
  ⟨run_overtaken, rfl, rfl⟩

theorem messages_ordered_overtaken :
    (starting.waitMode = false → ∀ before early, before <+: overtaken →
      run (State.step starting) (.init starting) before = some early → early.sent ≠ [] →
      Attempted before) ∧
    (∀ before after mid, overtaken = before ++ .replied .shutdown .sent :: after →
      run (State.step starting) (.init starting) (before ++ [.replied .shutdown .sent]) = some mid →
      ∃ dest info later,
        announcing.sent = mid.sent ++ later ∧
        mid.sent.getLast? = some ⟨.shutdown, dest, sampleHelper.byebye info⟩ ∧
        ∀ message ∈ later, ∃ info,
          (message.packet = sampleHelper.alive info ∧ ¬ BroadcasterIdle mid after) ∨
          (message.packet = sampleHelper.ok info ∧ ¬ ListenerIdle starting mid after)) ∧
    (∀ before after, overtaken = before ++ .exited :: after → after = []) :=
  messages_ordered run_overtaken

end DlnaProxy.Ssdp
