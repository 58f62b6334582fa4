import DlnaProxy.Lib.Transition
import DlnaProxy.Ssdp.Listener

/-!
# The tasks and their messages

`main_task`, `broadcast_task`, `listen_task` and `shutdown_handler` side by side. A
task stands at one of its awaits, and a step is what one of them sees: its fetch or its
send comes to an end, a tick, a packet, a signal. The state keeps what has been sent,
in order. The period of the ticks is not zero, a value at which `interval` panics.
-/
namespace DlnaProxy.Ssdp

open DlnaProxy.Lib.Transition DlnaProxy.Lib.Utf8 DlnaProxy.Net

/-! ## Calls of the helper -/

inductive Actor where
  | main
  | broadcaster
  | listener
  | shutdown
  deriving DecidableEq

/-- The packet that an actor sends for a description: `send_byebye`, `send_alive` or
`send_ok`. -/
def InteractiveSSDP.packet (helper : InteractiveSSDP) : Actor → EndpointInfo → SSDPPacket
  | .main => helper.byebye
  | .broadcaster => helper.alive
  | .listener => helper.ok
  | .shutdown => helper.byebye

inductive Stage where
  | fetching
  | sending (packet : SSDPPacket)

/-- A call in progress and where its packet goes. -/
structure Call where
  dest : SocketAddr
  stage : Stage

def Call.new (dest : SocketAddr) : Call := ⟨dest, .fetching⟩

/-- How an await of a call ends. -/
inductive Reply where
  | fetched (info : EndpointInfo)
  | fetchFailed
  | sent
  | sendFailed

structure Message where
  sender : Actor
  dest : SocketAddr
  packet : SSDPPacket

/-- The call after a reply: it goes on, or it returns and has sent its packet or not. -/
inductive Progress where
  | next (call : Call)
  | returned (packet : Option SSDPPacket)

def Call.advance (build : EndpointInfo → SSDPPacket) (call : Call) : Reply → Option Progress
  | .fetched info =>
    match call.stage with
    | .fetching => some (.next { call with stage := .sending (build info) })
    | .sending _ => none
  | .fetchFailed =>
    match call.stage with
    | .fetching => some (.returned none)
    | .sending _ => none
  | .sent =>
    match call.stage with
    | .fetching => none
    | .sending packet => some (.returned (some packet))
  | .sendFailed =>
    match call.stage with
    | .fetching => none
    | .sending _ => some (.returned none)

/-! ## Where the tasks stand -/

/-- `main_task`: the initial byebye, the two spawns, the wait for the listener. -/
inductive Main where
  | byebye (call : Call)
  | spawningBroadcaster
  | spawningListener
  | awaiting

inductive Broadcaster where
  | absent
  | spawningHandler
  | alive (call : Call)
  | ticking

inductive Listener where
  | absent
  | receiving
  | answering (call : Call)
  | panicked

/-- `shutdown_handler` until `process::exit`. -/
inductive Shutdown where
  | absent
  | waiting
  | disabled
  | byebye (call : Call)
  | exiting

/-- How the process ends. -/
inductive Exit where
  | signal
  | listenerEnded
  deriving DecidableEq

structure State where
  main : Main
  broadcaster : Broadcaster
  listener : Listener
  shutdown : Shutdown
  exited : Option Exit
  sent : List Message

/-- What the tasks are given. -/
structure Setup where
  helper : InteractiveSSDP
  waitMode : Bool
  parser : Httparse

/-- `SSDP_ADDRESS`, 239.255.255.250:1900. -/
def ssdpAddress : SocketAddr := ⟨.v4 ⟨[239, 255, 255, 250], rfl⟩, 1900⟩

/-- `main_task` is entered. In wait mode there is no initial byebye. -/
def State.init (setup : Setup) : State where
  main := if setup.waitMode then .spawningBroadcaster else .byebye (.new ssdpAddress)
  broadcaster := .absent
  listener := .absent
  shutdown := .absent
  exited := none
  sent := []

/-- The call an actor is in. -/
def State.calling (s : State) : Actor → Option Call
  | .main => match s.main with
    | .byebye call => some call
    | _ => none
  | .broadcaster => match s.broadcaster with
    | .alive call => some call
    | _ => none
  | .listener => match s.listener with
    | .answering call => some call
    | _ => none
  | .shutdown => match s.shutdown with
    | .byebye call => some call
    | _ => none

/-- The actor goes on with its call. -/
def State.recall (s : State) (call : Call) : Actor → State
  | .main => { s with main := .byebye call }
  | .broadcaster => { s with broadcaster := .alive call }
  | .listener => { s with listener := .answering call }
  | .shutdown => { s with shutdown := .byebye call }

/-- The actor goes on behind its call, whatever came of it. -/
def State.resume (s : State) : Actor → State
  | .main => { s with main := .spawningBroadcaster }
  | .broadcaster => { s with broadcaster := .ticking }
  | .listener => { s with listener := .receiving }
  | .shutdown => { s with shutdown := .exiting }

def State.log (s : State) (who : Actor) (call : Call) : Option SSDPPacket → State
  | none => s
  | some packet => { s with sent := s.sent ++ [⟨who, call.dest, packet⟩] }

inductive Event where
  | replied (who : Actor) (reply : Reply)
  | broadcasterSpawned
  | handlerSpawned
  | listenerSpawned
  | ticked
  | received (received : Received)
  | signalled
  | noSignals
  | timedOut
  | exited
  | mainReturned

/-- An await of a call ends. -/
def State.reply (setup : Setup) (s : State) (who : Actor) (reply : Reply) : Option State :=
  match s.calling who with
  | none => none
  | some call =>
    match call.advance (setup.helper.packet who) reply with
    | none => none
    | some (.next call) => some (s.recall call who)
    | some (.returned packet) => some ((s.log who call packet).resume who)

/-- A task goes on from where it stands outside a call. -/
def State.move (setup : Setup) (s : State) : Event → Option State
  | .replied _ _ => none
  | .broadcasterSpawned =>
    match s.main with
    | .spawningBroadcaster => some { s with main := .spawningListener, broadcaster := .spawningHandler }
    | _ => none
  | .handlerSpawned =>
    match s.broadcaster with
    | .spawningHandler => some { s with broadcaster := .alive (.new ssdpAddress), shutdown := .waiting }
    | _ => none
  | .listenerSpawned =>
    match s.main with
    | .spawningListener => some { s with main := .awaiting, listener := .receiving }
    | _ => none
  | .ticked =>
    match s.broadcaster with
    | .ticking => some { s with broadcaster := .alive (.new ssdpAddress) }
    | _ => none
  | .received received =>
    match s.listener with
    | .receiving =>
      match listenPass setup.parser received with
      | .ignored => some s
      | .answered _ dest => some { s with listener := .answering (.new dest) }
      | .panicked => some { s with listener := .panicked }
    | _ => none
  | .signalled =>
    match s.shutdown with
    | .waiting => some { s with shutdown := .byebye (.new ssdpAddress) }
    | _ => none
  | .noSignals =>
    match s.shutdown with
    | .waiting => some { s with shutdown := .disabled }
    | _ => none
  | .timedOut =>
    match s.shutdown with
    | .byebye _ => some { s with shutdown := .exiting }
    | _ => none
  | .exited =>
    match s.shutdown with
    | .exiting => some { s with exited := some .signal }
    | _ => none
  | .mainReturned =>
    match s.main with
    | .awaiting =>
      match s.listener with
      | .panicked => some { s with exited := some .listenerEnded }
      | _ => none
    | _ => none

/-- No task takes a step once the process has ended. -/
def State.step (setup : Setup) (s : State) (e : Event) : Option State :=
  if s.exited.isSome then none
  else match e with
    | .replied who reply => s.reply setup who reply
    | e => s.move setup e

/-! ## What a step can do -/

/-- The moves outside calls, one constructor for each. -/
inductive Moves (setup : Setup) (s : State) : Event → State → Prop
  | spawnsBroadcaster (here : s.main = .spawningBroadcaster) :
      Moves setup s .broadcasterSpawned
        { s with main := .spawningListener, broadcaster := .spawningHandler }
  | spawnsHandler (here : s.broadcaster = .spawningHandler) :
      Moves setup s .handlerSpawned
        { s with broadcaster := .alive (.new ssdpAddress), shutdown := .waiting }
  | spawnsListener (here : s.main = .spawningListener) :
      Moves setup s .listenerSpawned { s with main := .awaiting, listener := .receiving }
  | ticks (here : s.broadcaster = .ticking) :
      Moves setup s .ticked { s with broadcaster := .alive (.new ssdpAddress) }
  | ignores {received : Received} (here : s.listener = .receiving) :
      Moves setup s (.received received) s
  | answers {received : Received} {st : Str} {dest : SocketAddr} (here : s.listener = .receiving)
      (pass : listenPass setup.parser received = .answered st dest) :
      Moves setup s (.received received) { s with listener := .answering (.new dest) }
  | panics {received : Received} (here : s.listener = .receiving) :
      Moves setup s (.received received) { s with listener := .panicked }
  | hears (here : s.shutdown = .waiting) :
      Moves setup s .signalled { s with shutdown := .byebye (.new ssdpAddress) }
  | disables (here : s.shutdown = .waiting) : Moves setup s .noSignals { s with shutdown := .disabled }
  | timesOut {call : Call} (here : s.shutdown = .byebye call) :
      Moves setup s .timedOut { s with shutdown := .exiting }
  | exits (here : s.shutdown = .exiting) : Moves setup s .exited { s with exited := some .signal }
  | returns (here : s.main = .awaiting) (ended : s.listener = .panicked) :
      Moves setup s .mainReturned { s with exited := some .listenerEnded }

/-- A step ends the fetch of a call, sends its packet, gives the call up, or moves a
task outside its calls. -/
inductive Steps (setup : Setup) (s : State) : Event → State → Prop
  | fetches {who : Actor} {dest : SocketAddr} {info : EndpointInfo}
      (here : s.calling who = some ⟨dest, .fetching⟩) :
      Steps setup s (.replied who (.fetched info))
        (s.recall ⟨dest, .sending (setup.helper.packet who info)⟩ who)
  | sends {who : Actor} {dest : SocketAddr} {packet : SSDPPacket}
      (here : s.calling who = some ⟨dest, .sending packet⟩) :
      Steps setup s (.replied who .sent)
        (State.resume { s with sent := s.sent ++ [⟨who, dest, packet⟩] } who)
  | gives {who : Actor} {call : Call} {reply : Reply} (here : s.calling who = some call)
      (unsent : reply = .fetchFailed ∨ reply = .sendFailed) :
      Steps setup s (.replied who reply) (s.resume who)
  | moves {e : Event} {s' : State} (move : Moves setup s e s') : Steps setup s e s'

variable {setup : Setup} {s s' : State} {e : Event}

theorem reply_cases {who : Actor} {reply : Reply} (h : s.reply setup who reply = some s') :
    Steps setup s (.replied who reply) s' := by
  unfold State.reply at h
  split at h
  · cases h
  · next call hcall =>
    obtain ⟨dest, stage⟩ := call
    cases reply <;> cases stage <;> simp only [Call.advance, reduceCtorEq] at h <;>
      obtain rfl := Option.some.inj h
    · exact .fetches hcall
    · exact .gives hcall (Or.inl rfl)
    · exact .sends hcall
    · exact .gives hcall (Or.inr rfl)

theorem received_cases {received : Received} (h : s.move setup (.received received) = some s') :
    Moves setup s (.received received) s' := by
  simp only [State.move] at h
  split at h
  · next hreceiving =>
    split at h <;> obtain rfl := Option.some.inj h
    · exact .ignores hreceiving
    · next hpass => exact .answers hreceiving hpass
    · exact .panics hreceiving
  · cases h

theorem move_cases (h : s.move setup e = some s') : Moves setup s e s' := by
  cases e
  case replied who reply => cases h
  case received received => exact received_cases h
  case mainReturned =>
    simp only [State.move] at h
    split at h
    · next hmain =>
      split at h
      · next hlistener =>
        obtain rfl := Option.some.inj h
        exact .returns hmain hlistener
      · cases h
    · cases h
  all_goals
    simp only [State.move] at h
    split at h
    · next here =>
      obtain rfl := Option.some.inj h
      constructor
      exact here
    · cases h

theorem step_cases (h : s.step setup e = some s') : s.exited = none ∧ Steps setup s e s' := by
  unfold State.step at h
  split at h
  · cases h
  · next hrunning =>
    refine ⟨by simpa using hrunning, ?_⟩
    split at h
    · exact reply_cases h
    · exact .moves (move_cases h)

/-! ### Calls -/

/-- A state is where its calls are. -/
theorem recall_of_calling {who : Actor} {call : Call} (h : s.calling who = some call) :
    s.recall call who = s := by
  obtain ⟨main, broadcaster, listener, shutdown, exited, sent⟩ := s
  cases who with
  | main =>
    cases main <;> cases h
    rfl
  | broadcaster =>
    cases broadcaster <;> cases h
    rfl
  | listener =>
    cases listener <;> cases h
    rfl
  | shutdown =>
    cases shutdown <;> cases h
    rfl

theorem main_of_calling {call : Call} (h : s.calling .main = some call) : s.main = .byebye call :=
  congrArg State.main (recall_of_calling h).symm

theorem broadcaster_of_calling {call : Call} (h : s.calling .broadcaster = some call) :
    s.broadcaster = .alive call :=
  congrArg State.broadcaster (recall_of_calling h).symm

theorem listener_of_calling {call : Call} (h : s.calling .listener = some call) :
    s.listener = .answering call :=
  congrArg State.listener (recall_of_calling h).symm

theorem shutdown_of_calling {call : Call} (h : s.calling .shutdown = some call) :
    s.shutdown = .byebye call :=
  congrArg State.shutdown (recall_of_calling h).symm

@[simp] theorem calling_recall_self (call : Call) (who : Actor) :
    (s.recall call who).calling who = some call := by
  cases who <;> rfl

theorem calling_recall_of_ne (call : Call) {who other : Actor} (h : other ≠ who) :
    (s.recall call who).calling other = s.calling other := by
  cases who <;> cases other <;> first | rfl | exact absurd rfl h

@[simp] theorem calling_resume_self (who : Actor) : (s.resume who).calling who = none := by
  cases who <;> rfl

theorem calling_resume_of_ne {who other : Actor} (h : other ≠ who) :
    (s.resume who).calling other = s.calling other := by
  cases who <;> cases other <;> first | rfl | exact absurd rfl h

@[simp] theorem sent_recall (call : Call) (who : Actor) : (s.recall call who).sent = s.sent := by
  cases who <;> rfl

@[simp] theorem sent_resume (who : Actor) : (s.resume who).sent = s.sent := by
  cases who <;> rfl

theorem calling_sent (s : State) (sent : List Message) (who : Actor) :
    State.calling { s with sent } who = s.calling who := by
  cases who <;> rfl

/-- A move sends nothing. -/
theorem Moves.sent_eq (h : Moves setup s e s') : s'.sent = s.sent := by
  cases h <;> rfl

/-- A call that a move begins is at its fetch. -/
theorem Moves.calling (h : Moves setup s e s') {who : Actor} {call : Call}
    (hcall : s'.calling who = some call) : s.calling who = some call ∨ call.stage = .fetching := by
  have hnew {dest : SocketAddr} (h : some (Call.new dest) = some call) : call.stage = .fetching := by
    obtain rfl := Option.some.inj h
    rfl
  cases h <;> cases who <;> first | exact Or.inl hcall | exact Or.inr (hnew hcall) | cases hcall

/-- Nothing that has been sent is taken back. -/
theorem Steps.sent_prefix (h : Steps setup s e s') : s.sent <+: s'.sent := by
  cases h with
  | fetches _ => rw [sent_recall]
  | sends _ =>
    rw [sent_resume]
    exact List.prefix_append _ _
  | gives _ _ => rw [sent_resume]
  | moves move => rw [move.sent_eq]

/-! ## Where packets come from -/

/-- Every packet that is sent, or about to be, was built from what its sender fetched. -/
structure Provenance (setup : Setup) (past : List Event) (s : State) : Prop where
  calling : ∀ {who dest packet}, s.calling who = some ⟨dest, .sending packet⟩ →
    ∃ info, .replied who (.fetched info) ∈ past ∧ packet = setup.helper.packet who info
  sent : ∀ message ∈ s.sent, ∃ info, .replied message.sender (.fetched info) ∈ past ∧
    message.packet = setup.helper.packet message.sender info

namespace Provenance

variable {past : List Event}

theorem init : Provenance setup [] (.init setup) where
  calling := by
    intro who dest packet h
    cases who <;> simp only [State.calling, State.init] at h
    · split at h
      · next call hmain =>
        obtain rfl := Option.some.inj h
        split at hmain <;> cases hmain
      · cases h
    all_goals cases h
  sent := nofun

theorem mono_calling (h : Provenance setup past s) {who : Actor} {dest : SocketAddr}
    {packet : SSDPPacket} (hcall : s.calling who = some ⟨dest, .sending packet⟩) (e : Event) :
    ∃ info, .replied who (.fetched info) ∈ past ++ [e] ∧ packet = setup.helper.packet who info := by
  obtain ⟨info, hmem, hpacket⟩ := h.calling hcall
  exact ⟨info, List.mem_append_left _ hmem, hpacket⟩

theorem mono_sent (h : Provenance setup past s) (e : Event) :
    ∀ message ∈ s.sent, ∃ info, .replied message.sender (.fetched info) ∈ past ++ [e] ∧
      message.packet = setup.helper.packet message.sender info := by
  intro message hmem
  obtain ⟨info, hfetched, hpacket⟩ := h.sent message hmem
  exact ⟨info, List.mem_append_left _ hfetched, hpacket⟩

theorem of_resume (h : Provenance setup past s) {who other : Actor} {dest : SocketAddr}
    {packet : SSDPPacket} (hcall : (s.resume who).calling other = some ⟨dest, .sending packet⟩)
    (e : Event) : ∃ info, .replied other (.fetched info) ∈ past ++ [e] ∧
      packet = setup.helper.packet other info := by
  by_cases hwho : other = who
  · subst hwho
    rw [calling_resume_self] at hcall
    cases hcall
  · rw [calling_resume_of_ne hwho] at hcall
    exact h.mono_calling hcall e

theorem of_step (h : Provenance setup past s) (hstep : s.step setup e = some s') :
    Provenance setup (past ++ [e]) s' := by
  obtain ⟨_, hsteps⟩ := step_cases hstep
  cases hsteps with
  | @fetches who dest info here =>
    constructor
    · intro other dest' packet hcall
      by_cases hwho : other = who
      · subst hwho
        rw [calling_recall_self] at hcall
        cases hcall
        exact ⟨info, by simp, rfl⟩
      · rw [calling_recall_of_ne _ hwho] at hcall
        exact h.mono_calling hcall _
    · rw [sent_recall]
      exact h.mono_sent _
  | @sends who dest packet here =>
    constructor
    · intro other dest' packet' hcall
      by_cases hwho : other = who
      · subst hwho
        rw [calling_resume_self] at hcall
        cases hcall
      · rw [calling_resume_of_ne hwho, calling_sent] at hcall
        exact h.mono_calling hcall _
    · rw [sent_resume]
      intro message hmem
      rcases List.mem_append.mp hmem with hold | hnew
      · exact h.mono_sent _ message hold
      · obtain rfl := List.mem_singleton.mp hnew
        exact h.mono_calling here _
  | gives here unsent =>
    exact ⟨fun hcall => h.of_resume hcall _, by rw [sent_resume]; exact h.mono_sent _⟩
  | moves move =>
    constructor
    · intro who dest packet hcall
      rcases move.calling hcall with hold | hfetching
      · exact h.mono_calling hold _
      · cases hfetching
    · rw [move.sent_eq]
      exact h.mono_sent _

theorem of_run {events : List Event} (h : run (State.step setup) (.init setup) events = some s) :
    Provenance setup events s :=
  run_history of_step init h

end Provenance

end DlnaProxy.Ssdp
