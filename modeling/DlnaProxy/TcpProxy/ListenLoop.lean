import DlnaProxy.Lib.Transition
import DlnaProxy.Net
import DlnaProxy.Lib.ByteIo

/-!
# Connections and their permits

`listen_loop` waits at one of its three awaits while the handler tasks it has
spawned run beside it. A state holds the semaphore, the place of the loop and the
live handlers, each with its permit. What a handler does to its connection is a
parameter, so that what holds here holds of any handler.
-/
namespace DlnaProxy.TcpProxy.ListenLoop

open DlnaProxy.Lib.Transition DlnaProxy.Lib.ByteIo DlnaProxy.Net

/-- Maximum number of concurrent proxy connections. -/
def maxConcurrentConnections : Nat := 100

/-! ## The semaphore -/

/-- The right to one connection. A drop of it gives it back. -/
structure OwnedSemaphorePermit where
  deriving DecidableEq

structure Semaphore where
  permits : Nat
  closed : Bool
  deriving DecidableEq

/-- What `acquire_owned` comes to when it is polled. -/
inductive Acquire where
  | pending
  | ready (permit : OwnedSemaphorePermit) (rest : Semaphore)
  | closed

namespace Semaphore

def new (permits : Nat) : Semaphore := ⟨permits, false⟩

def acquireOwned (semaphore : Semaphore) : Acquire :=
  if semaphore.closed then .closed
  else if semaphore.permits = 0 then .pending
  else .ready ⟨⟩ { semaphore with permits := semaphore.permits - 1 }

/-- An owned permit is dropped. -/
def release (semaphore : Semaphore) (_permit : OwnedSemaphorePermit) : Semaphore :=
  { semaphore with permits := semaphore.permits + 1 }

@[simp] theorem permits_release (semaphore : Semaphore) (permit : OwnedSemaphorePermit) :
    (semaphore.release permit).permits = semaphore.permits + 1 := rfl

@[simp] theorem closed_release (semaphore : Semaphore) (permit : OwnedSemaphorePermit) :
    (semaphore.release permit).closed = semaphore.closed := rfl

theorem acquireOwned_ready {semaphore rest : Semaphore} {permit : OwnedSemaphorePermit}
    (h : semaphore.acquireOwned = .ready permit rest) :
    rest.permits + 1 = semaphore.permits ∧ rest.closed = semaphore.closed := by
  unfold acquireOwned at h
  split at h
  · cases h
  · split at h
    · cases h
    · next hfree =>
      obtain ⟨_, rfl⟩ := Acquire.ready.inj h
      exact ⟨by simp only; omega, rfl⟩

theorem acquireOwned_closed {semaphore : Semaphore} (h : semaphore.acquireOwned = .closed) :
    semaphore.closed = true := by
  unfold acquireOwned at h
  split at h
  · assumption
  · split at h <;> cases h

end Semaphore

/-! ## The loop -/

/-- What a handler task does with its connection: `move` an event of its streams,
`tick` the passing of time. It can return once the connection has `ended`. -/
structure Behaviour (κ μ : Type) where
  start : κ
  move : κ → μ → Option κ
  tick : κ → κ
  ended : κ → Bool

/-- A spawned task: `handle_conn`, then the drop of the permit. -/
structure Handler (κ : Type) where
  conn : κ
  permit : OwnedSemaphorePermit

/-- The await the loop has reached, with the values it holds there. -/
inductive Phase where
  | accept
  | acquireOwned (peerAddr : SocketAddr)
  | connect (peerAddr : SocketAddr) (permit : OwnedSemaphorePermit)
  | stopped

/-- The permits the loop holds. -/
def Phase.held : Phase → Nat
  | .connect _ _ => 1
  | _ => 0

@[simp] theorem Phase.held_accept : Phase.accept.held = 0 := rfl

structure State (κ : Type) where
  semaphore : Semaphore
  phase : Phase
  handlers : List (Handler κ)

inductive Event (μ : Type) where
  | accepted (peerAddr : SocketAddr)
  | acceptFailed (e : IoError)
  | acquired
  | connected
  | connectFailed (e : IoError)
  | connectTimedOut
  | moved (i : Nat) (m : μ)
  | finished (i : Nat)
  | panicked (i : Nat)
  | ticked

section Loop

variable {κ μ : Type} (b : Behaviour κ μ)

def State.init : State κ := ⟨.new maxConcurrentConnections, .accept, []⟩

/-- The task ends and its permit is dropped, when it returns as when it unwinds. -/
def State.reap (s : State κ) (i : Nat) (handler : Handler κ) : State κ :=
  { s with semaphore := s.semaphore.release handler.permit, handlers := s.handlers.eraseIdx i }

/-- One step of the loop or of a handler. Time passes when no task is ready. The
stream timeout is a parameter of `listen_loop` that its body does not use. -/
def step (_streamTimeout : Nat) (s : State κ) : Event μ → Option (State κ)
  | .accepted peerAddr =>
    match s.phase with
    | .accept => some { s with phase := .acquireOwned peerAddr }
    | _ => none
  | .acceptFailed _ =>
    match s.phase with
    | .accept => some s
    | _ => none
  | .acquired =>
    match s.phase with
    | .acquireOwned peerAddr =>
      match s.semaphore.acquireOwned with
      | .pending => none
      | .ready permit rest => some { s with semaphore := rest, phase := .connect peerAddr permit }
      | .closed => some { s with phase := .stopped }
    | _ => none
  | .connected =>
    match s.phase with
    | .connect _ permit => some { s with phase := .accept, handlers := s.handlers ++ [⟨b.start, permit⟩] }
    | _ => none
  | .connectFailed _ =>
    match s.phase with
    | .connect _ permit => some { s with semaphore := s.semaphore.release permit, phase := .accept }
    | _ => none
  | .connectTimedOut =>
    match s.phase with
    | .connect _ permit => some { s with semaphore := s.semaphore.release permit, phase := .accept }
    | _ => none
  | .moved i m =>
    match s.handlers[i]? with
    | some handler =>
      match b.move handler.conn m with
      | some conn => some { s with handlers := s.handlers.set i { handler with conn } }
      | none => none
    | none => none
  | .finished i =>
    match s.handlers[i]? with
    | some handler => if b.ended handler.conn then some (s.reap i handler) else none
    | none => none
  | .panicked i =>
    match s.handlers[i]? with
    | some handler => some (s.reap i handler)
    | none => none
  | .ticked =>
    if s.handlers.any fun handler => b.ended handler.conn then none
    else some { s with handlers := s.handlers.map fun handler => { handler with conn := b.tick handler.conn } }

/-! ## What a step can do -/

variable {b} {streamTimeout : Nat} {s s' : State κ} {e : Event μ}

/-- The steps, with what each moves: nothing but the place of the loop, a permit to
the loop, on to a new handler or back, one connection, a task's end, or all
connections by time. -/
inductive Steps (b : Behaviour κ μ) (s : State κ) : Event μ → State κ → Prop
  | waits {e : Event μ} {phase : Phase} (held : phase.held = s.phase.held)
      (running : phase ≠ .stopped) : Steps b s e { s with phase }
  | acquires {phase : Phase} {rest : Semaphore} (idle : s.phase.held = 0) (held : phase.held = 1)
      (free : rest.permits + 1 = s.semaphore.permits) (opened : rest.closed = s.semaphore.closed) :
      Steps b s .acquired { s with semaphore := rest, phase }
  | stops (idle : s.phase.held = 0) (closed : s.semaphore.closed = true) :
      Steps b s .acquired { s with phase := .stopped }
  | spawns {permit : OwnedSemaphorePermit} (held : s.phase.held = 1) :
      Steps b s .connected
        { s with phase := .accept, handlers := s.handlers ++ [⟨b.start, permit⟩] }
  | drops {e : Event μ} {permit : OwnedSemaphorePermit} (held : s.phase.held = 1) :
      Steps b s e { s with semaphore := s.semaphore.release permit, phase := .accept }
  | moves {i : Nat} {m : μ} {handler : Handler κ} {conn : κ} (here : s.handlers[i]? = some handler)
      (move : b.move handler.conn m = some conn) :
      Steps b s (.moved i m) { s with handlers := s.handlers.set i { handler with conn } }
  | reaps {e : Event μ} {i : Nat} {handler : Handler κ} (here : s.handlers[i]? = some handler) :
      Steps b s e (s.reap i handler)
  | passes (busy : ∀ handler ∈ s.handlers, b.ended handler.conn = false) :
      Steps b s .ticked
        { s with handlers := s.handlers.map fun handler =>
            { handler with conn := b.tick handler.conn } }

theorem step_connect_error {peerAddr : SocketAddr} {permit : OwnedSemaphorePermit}
    (hphase : s.phase = .connect peerAddr permit) :
    Steps b s e { s with semaphore := s.semaphore.release permit, phase := .accept } :=
  .drops (by rw [hphase]; rfl)

theorem step_cases (h : step b streamTimeout s e = some s') : Steps b s e s' := by
  cases e <;> simp only [step] at h
  case accepted peerAddr =>
    split at h
    · next hphase =>
      obtain rfl := Option.some.inj h
      exact .waits (by rw [hphase]; rfl) nofun
    · cases h
  case acceptFailed e =>
    split at h
    · next hphase =>
      obtain rfl := Option.some.inj h
      exact .waits rfl (by rw [hphase]; nofun)
    · cases h
  case acquired =>
    split at h
    · next peerAddr hphase =>
      split at h
      · cases h
      · next permit rest hready =>
        obtain ⟨hfree, hopen⟩ := Semaphore.acquireOwned_ready hready
        obtain rfl := Option.some.inj h
        exact .acquires (by rw [hphase]; rfl) rfl hfree hopen
      · next hclosed =>
        obtain rfl := Option.some.inj h
        exact .stops (by rw [hphase]; rfl) (Semaphore.acquireOwned_closed hclosed)
    · cases h
  case connected =>
    split at h
    · next hphase =>
      obtain rfl := Option.some.inj h
      exact .spawns (by rw [hphase]; rfl)
    · cases h
  case connectFailed e =>
    split at h
    · next hphase =>
      obtain rfl := Option.some.inj h
      exact step_connect_error hphase
    · cases h
  case connectTimedOut =>
    split at h
    · next hphase =>
      obtain rfl := Option.some.inj h
      exact step_connect_error hphase
    · cases h
  case moved i m =>
    split at h
    · next handler hhere =>
      split at h
      · next conn hmove =>
        obtain rfl := Option.some.inj h
        exact .moves hhere hmove
      · cases h
    · cases h
  case finished i =>
    split at h
    · next handler hhere =>
      split at h
      · obtain rfl := Option.some.inj h
        exact .reaps hhere
      · cases h
    · cases h
  case panicked i =>
    split at h
    · next handler hhere =>
      obtain rfl := Option.some.inj h
      exact .reaps hhere
    · cases h
  case ticked =>
    split at h
    · cases h
    · next hbusy =>
      obtain rfl := Option.some.inj h
      exact .passes (by simpa using hbusy)

/-! ## Conservation -/

/-- The permits wherever they are: free, held by the loop, or with a handler. -/
def State.slots (s : State κ) : Nat := s.semaphore.permits + s.phase.held + s.handlers.length

theorem slots_reap {i : Nat} {handler : Handler κ} (h : s.handlers[i]? = some handler) :
    (s.reap i handler).slots = s.slots := by
  obtain ⟨hi, _⟩ := List.getElem?_eq_some_iff.mp h
  simp only [State.slots, State.reap, Semaphore.permits_release, List.length_eraseIdx_of_lt hi]
  omega

/-- Where a permit leaves one place, it arrives at another. -/
theorem Steps.slots (h : Steps b s e s') : s'.slots = s.slots := by
  cases h with
  | waits held _ => simp only [State.slots, held]
  | acquires idle held free _ =>
    simp only [State.slots]
    omega
  | stops idle _ =>
    show s.semaphore.permits + 0 + s.handlers.length = s.slots
    rw [State.slots, idle]
  | spawns held =>
    simp only [State.slots, List.length_append, List.length_singleton, held, Phase.held_accept]
    omega
  | drops held =>
    simp only [State.slots, Semaphore.permits_release, held, Phase.held_accept]
  | moves here _ => simp only [State.slots, List.length_set]
  | reaps here => exact slots_reap here
  | passes _ => simp only [State.slots, List.length_map]

/-- The semaphore is open, so the loop goes on, and every permit is somewhere. -/
structure Conserved (s : State κ) : Prop where
  slots : s.slots = maxConcurrentConnections
  opened : s.semaphore.closed = false
  running : s.phase ≠ .stopped

namespace Conserved

theorem init : Conserved (State.init : State κ) := ⟨rfl, rfl, nofun⟩

theorem of_step (h : Conserved s) (hstep : step b streamTimeout s e = some s') : Conserved s' := by
  have hsteps := step_cases hstep
  have hslots := hsteps.slots.trans h.slots
  cases hsteps with
  | waits _ running => exact ⟨hslots, h.opened, running⟩
  | acquires _ held _ opened =>
    refine ⟨hslots, opened.trans h.opened, ?_⟩
    rintro rfl
    cases held
  | stops _ closed => exact absurd (closed.symm.trans h.opened) nofun
  | spawns _ => exact ⟨hslots, h.opened, nofun⟩
  | drops _ => exact ⟨hslots, h.opened, nofun⟩
  | moves _ _ => exact ⟨hslots, h.opened, h.running⟩
  | reaps _ => exact ⟨hslots, h.opened, h.running⟩
  | passes _ => exact ⟨hslots, h.opened, h.running⟩

theorem of_run {events : List (Event μ)}
    (h : run (step b streamTimeout) State.init events = some s) : Conserved s :=
  run_invariant of_step init h

theorem length_le (h : Conserved s) : s.handlers.length ≤ maxConcurrentConnections := by
  have hslots := h.slots
  simp only [State.slots] at hslots
  omega

end Conserved

/-- **Permits are conserved**, whatever the handlers do and in whatever order the
loop and the handlers take their steps. -/
theorem listenLoop_permits {events : List (Event μ)}
    (h : run (step b streamTimeout) State.init events = some s) :
    s.semaphore.permits + s.phase.held + s.handlers.length = maxConcurrentConnections ∧
      s.phase.held ≤ 1 ∧ s.handlers.length ≤ maxConcurrentConnections := by
  have hconserved := Conserved.of_run h
  refine ⟨hconserved.slots, ?_, hconserved.length_le⟩
  cases s.phase <;> simp only [Phase.held] <;> omega

end Loop

/-- A handler that may return at any time. -/
def anyTime : Behaviour Unit Unit := ⟨(), fun _ _ => some (), id, fun _ => true⟩

def peer : SocketAddr := ⟨.v4 ⟨[192, 168, 1, 7], rfl⟩, 40000⟩

/-- Of three connections one is not made, one handler panics and one is live. -/
def threeClients : List (Event Unit) :=
  [.accepted peer, .acquired, .connectTimedOut, .accepted peer, .acquired, .connected,
    .accepted peer, .acquired, .connected, .panicked 0]

theorem listenLoop_permits_threeClients : ∃ s,
    run (step anyTime 300) State.init threeClients = some s ∧ s.semaphore.permits = 99 ∧
    (s.semaphore.permits + s.phase.held + s.handlers.length = maxConcurrentConnections ∧
      s.phase.held ≤ 1 ∧ s.handlers.length ≤ maxConcurrentConnections) :=
  ⟨⟨⟨99, false⟩, .accept, [⟨(), ⟨⟩⟩]⟩, rfl, rfl, @listenLoop_permits _ _ anyTime 300 _ threeClients rfl⟩

end DlnaProxy.TcpProxy.ListenLoop
