import DlnaProxy.Ssdp.MessageOrder

/-!
# Announcements and their withdrawal

A byebye is built from a fetch of its own. It withdraws what the remote server is
then, not what was announced before, and it is given up after two seconds.
-/
namespace DlnaProxy.Ssdp

open DlnaProxy.Lib.Transition DlnaProxy.Lib.Utf8 DlnaProxy.Net

def EndpointInfo.usn (info : EndpointInfo) : Str :=
  Ssdp.usn info.uniqueDeviceName info.deviceType

/-- The USN of an ssdp:alive. -/
def SSDPPacket.announces : SSDPPacket → Option Str
  | .alive _ _ uniqueDeviceName deviceType _ => some (usn uniqueDeviceName deviceType)
  | _ => none

/-- The USN of an ssdp:byebye. -/
def SSDPPacket.withdraws : SSDPPacket → Option Str
  | .byeBye uniqueDeviceName deviceType => some (usn uniqueDeviceName deviceType)
  | _ => none

/-- The actors whose packet is a byebye, the initial and the final one. -/
def SendsByebye (who : Actor) : Prop := who = .main ∨ who = .shutdown

def State.Announced (s : State) (u : Str) : Prop := ∃ message ∈ s.sent, message.packet.announces = some u

def State.Withdrawn (s : State) (u : Str) : Prop := ∃ message ∈ s.sent, message.packet.withdraws = some u

variable {setup : Setup} {s s' : State} {e : Event} {past events : List Event} {who : Actor}

theorem withdraws_packet {helper : InteractiveSSDP} {who : Actor} {info : EndpointInfo} {u : Str}
    (h : (helper.packet who info).withdraws = some u) : SendsByebye who ∧ info.usn = u := by
  cases who with
  | main => exact ⟨Or.inl rfl, Option.some.inj h⟩
  | shutdown => exact ⟨Or.inr rfl, Option.some.inj h⟩
  | _ => cases h

/-- A send that came to its end is among the messages. -/
theorem message_of_sent {who : Actor}
    (hrun : run (State.step setup) (.init setup) events = some s)
    (h : .replied who .sent ∈ events) : ∃ message ∈ s.sent, message.sender = who := by
  refine run_history (P := fun past s => .replied who .sent ∈ past →
    ∃ message ∈ s.sent, message.sender = who) ?_ nofun hrun h
  intro past s e s' ih hstep hmem
  obtain ⟨_, hsteps⟩ := step_cases hstep
  rcases List.mem_append.mp hmem with hold | hnew
  · obtain ⟨message, hmessage, hsender⟩ := ih hold
    exact ⟨message, hsteps.sent_prefix.subset hmessage, hsender⟩
  · obtain rfl := List.mem_singleton.mp hnew
    cases hsteps with
    | sends _ =>
      rw [sent_resume]
      exact ⟨_, List.mem_append_right _ List.mem_cons_self, rfl⟩
    | gives _ unsent => rcases unsent with h | h <;> cases h
    | moves move => cases move

/-! ## A byebye is fetched for once -/

/-- The fetch of the actor's byebye is in progress or still to come. -/
def State.MayFetch (s : State) : Actor → Prop
  | .main => ∃ dest, s.main = .byebye ⟨dest, .fetching⟩
  | .shutdown =>
    s.shutdown = .absent ∨ s.shutdown = .waiting ∨ ∃ dest, s.shutdown = .byebye ⟨dest, .fetching⟩
  | _ => False

theorem mayFetch_of_calling {who : Actor} (hwho : SendsByebye who) {dest : SocketAddr}
    (here : s.calling who = some ⟨dest, .fetching⟩) : s.MayFetch who := by
  rcases hwho with rfl | rfl
  · exact ⟨dest, main_of_calling here⟩
  · exact Or.inr (Or.inr ⟨dest, shutdown_of_calling here⟩)

/-- A fetch that may come after a step might have come before it, and is not that step. -/
theorem Steps.mayFetch (h : Steps setup s e s') (hordered : Ordered s) {who : Actor}
    (hmay : s'.MayFetch who) : s.MayFetch who ∧ ∀ info, e ≠ .replied who (.fetched info) := by
  cases h with
  | @fetches other dest info here =>
    by_cases hwho : who = other
    · subst hwho
      cases who with
      | main =>
        obtain ⟨_, hmain⟩ := hmay
        cases hmain
      | shutdown => rcases hmay with h | h | ⟨_, h⟩ <;> cases h
      | _ => exact hmay.elim
    · refine ⟨?_, fun info' heq => hwho (by cases heq; rfl)⟩
      cases other <;> cases who <;> first | exact hmay | exact absurd rfl hwho
  | @sends other dest packet here =>
    refine ⟨?_, nofun⟩
    cases other <;> cases who <;> first | exact hmay | skip
    · obtain ⟨_, hmain⟩ := hmay
      cases hmain
    · rcases hmay with h | h | ⟨_, h⟩ <;> cases h
  | @gives other call reply here unsent =>
    refine ⟨?_, fun info heq => by rcases unsent with rfl | rfl <;> cases heq⟩
    cases other <;> cases who <;> first | exact hmay | skip
    · obtain ⟨_, hmain⟩ := hmay
      cases hmain
    · rcases hmay with h | h | ⟨_, h⟩ <;> cases h
  | moves move =>
    refine ⟨?_, fun info heq => by subst heq; cases move⟩
    cases move with
    | spawnsBroadcaster _ => cases who <;> first | exact hmay | exact nomatch hmay.choose_spec
    | spawnsListener _ => cases who <;> first | exact hmay | exact nomatch hmay.choose_spec
    | spawnsHandler here =>
      cases who with
      | shutdown =>
        refine Or.inl ?_
        by_contra hhandled
        have hstarted := hordered.handled hhandled
        rw [here] at hstarted
        exact hstarted
      | _ => exact hmay
    | hears here =>
      cases who with
      | shutdown => exact Or.inr (Or.inl here)
      | _ => exact hmay
    | disables _ => cases who <;> first | exact hmay | (rcases hmay with h | h | ⟨_, h⟩ <;> cases h)
    | timesOut _ => cases who <;> first | exact hmay | (rcases hmay with h | h | ⟨_, h⟩ <;> cases h)
    | _ => cases who <;> exact hmay

theorem fetching_of_step (hwho : SendsByebye who) {info : EndpointInfo}
    (h : Steps setup s (.replied who (.fetched info)) s') : s.MayFetch who := by
  cases h with
  | fetches here => exact mayFetch_of_calling hwho here
  | gives _ unsent => rcases unsent with h | h <;> cases h
  | moves move => cases move

/-- **The description for a byebye is fetched once.** -/
theorem fetched_once (hrun : run (State.step setup) (.init setup) events = some s)
    (hwho : SendsByebye who) {info info' : EndpointInfo}
    (h : .replied who (.fetched info) ∈ events) (h' : .replied who (.fetched info') ∈ events) :
    info = info' := by
  have hall : Ordered s ∧ (s.MayFetch who → ∀ info, .replied who (.fetched info) ∉ events) ∧
      ∀ info info', .replied who (.fetched info) ∈ events → .replied who (.fetched info') ∈ events →
        info = info' := by
    refine run_history (P := fun past s => Ordered s ∧
      (s.MayFetch who → ∀ info, .replied who (.fetched info) ∉ past) ∧
      ∀ info info', .replied who (.fetched info) ∈ past → .replied who (.fetched info') ∈ past →
        info = info') ?_ ⟨.init, fun _ => nofun, nofun⟩ hrun
    intro past s e s' hbefore hstep
    obtain ⟨hordered, hnone, honce⟩ := hbefore
    have hsteps := (step_cases hstep).2
    refine ⟨hordered.of_step hstep, ?_, ?_⟩
    · intro hmay info hmem
      obtain ⟨hmay, hother⟩ := hsteps.mayFetch hordered hmay
      rcases List.mem_append.mp hmem with hold | hnew
      · exact hnone hmay info hold
      · exact hother info (List.mem_singleton.mp hnew).symm
    · intro info info' hmem hmem'
      rcases List.mem_append.mp hmem with hold | hnew <;>
        rcases List.mem_append.mp hmem' with hold' | hnew'
      · exact honce info info' hold hold'
      · obtain rfl := List.mem_singleton.mp hnew'
        exact absurd hold (hnone (fetching_of_step hwho hsteps) info)
      · obtain rfl := List.mem_singleton.mp hnew
        exact absurd hold' (hnone (fetching_of_step hwho hsteps) info')
      · cases (List.mem_singleton.mp hnew).trans (List.mem_singleton.mp hnew').symm
        rfl
  exact hall.2.2 info info' h h'

/-- A message in the state was sent by an event of the run. -/
theorem sent_of_message (hrun : run (State.step setup) (.init setup) events = some s) :
    ∀ message ∈ s.sent, .replied message.sender .sent ∈ events := by
  refine run_history (P := fun past s => ∀ message ∈ s.sent, .replied message.sender .sent ∈ past)
    ?_ nofun hrun
  intro past s e s' ih hstep message hmem
  obtain ⟨_, hsteps⟩ := step_cases hstep
  cases hsteps with
  | fetches _ =>
    rw [sent_recall] at hmem
    exact List.mem_append_left _ (ih message hmem)
  | sends _ =>
    rw [sent_resume] at hmem
    rcases List.mem_append.mp hmem with hold | hnew
    · exact List.mem_append_left _ (ih message hold)
    · obtain rfl := List.mem_singleton.mp hnew
      exact List.mem_append_right _ List.mem_cons_self
  | gives _ _ =>
    rw [sent_resume] at hmem
    exact List.mem_append_left _ (ih message hmem)
  | moves move =>
    rw [move.sent_eq] at hmem
    exact List.mem_append_left _ (ih message hmem)

def before : EndpointInfo where
  deviceType := mediaServer
  uniqueDeviceName := "uuid:before".toList
  server := "DLNAProxy/1.0".toList

def after : EndpointInfo := { before with uniqueDeviceName := "uuid:after".toList }

def waiting : Setup := ⟨sampleHelper, true, reference⟩

/-- The device is announced, then replaced, and the process is told to stop. -/
def replaced : List Event :=
  [.broadcasterSpawned, .handlerSpawned, .replied .broadcaster (.fetched before),
    .replied .broadcaster .sent, .listenerSpawned, .signalled, .replied .shutdown (.fetched after),
    .replied .shutdown .sent, .exited]

def stopped : State where
  main := .awaiting
  broadcaster := .ticking
  listener := .receiving
  shutdown := .exiting
  exited := some .signal
  sent := [⟨.broadcaster, ssdpAddress, sampleHelper.alive before⟩,
    ⟨.shutdown, ssdpAddress, sampleHelper.byebye after⟩]

theorem run_replaced : run (State.step waiting) (.init waiting) replaced = some stopped := rfl

end DlnaProxy.Ssdp
