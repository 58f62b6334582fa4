import DlnaProxy.TcpProxy.ListenLoop

/-!
# The clients of the listen loop

Every client that is accepted gets a handler, is turned away for its origin, or is the one
that the loop is about. It waits for a permit just while as many handlers as there are
permits are live, and the end of any of them lets it through.
-/
namespace DlnaProxy.TcpProxy.ListenLoop

open DlnaProxy.Lib.Transition DlnaProxy.Net

variable {κ μ : Type} {b : Behaviour κ μ} {streamTimeout : Nat} {s s' : State κ} {e : Event μ}
  {past events : List (Event μ)}

def Event.isAccepted : Event μ → Bool
  | .accepted _ => true
  | _ => false

/-- A client gets its handler. -/
def Event.isConnected : Event μ → Bool
  | .connected => true
  | _ => false

/-- A client is dropped, as its origin cannot be reached. -/
def Event.isRefused : Event μ → Bool
  | .connectFailed _ => true
  | .connectTimedOut => true
  | _ => false

/-- A handler ends. -/
def Event.isEnded : Event μ → Bool
  | .finished _ => true
  | .panicked _ => true
  | _ => false

/-- The clients that the loop is about. -/
def Phase.clients : Phase → Nat
  | .accept => 0
  | .acquireOwned _ => 1
  | .connect _ _ => 1
  | .stopped => 1

/-- Where the clients and the handlers have gone. -/
structure Accounted (past : List (Event μ)) (s : State κ) : Prop where
  clients : past.countP Event.isAccepted =
    past.countP Event.isConnected + past.countP Event.isRefused + s.phase.clients
  handlers : past.countP Event.isConnected = s.handlers.length + past.countP Event.isEnded

namespace Accounted

theorem init : Accounted ([] : List (Event μ)) (State.init : State κ) := ⟨rfl, rfl⟩

/-- What an event adds to one side of the account it adds to the other. -/
theorem concat (h : Accounted past s)
    (hclients : e.isAccepted.toNat + s.phase.clients =
      e.isConnected.toNat + e.isRefused.toNat + s'.phase.clients)
    (hhandlers : e.isConnected.toNat + s.handlers.length = s'.handlers.length + e.isEnded.toNat) :
    Accounted (past ++ [e]) s' := by
  obtain ⟨hbefore, hlive⟩ := h
  constructor
  · rw [countP_concat, countP_concat, countP_concat]
    omega
  · rw [countP_concat, countP_concat]
    omega

theorem of_reap (h : Accounted past s) {i : Nat} {handler : Handler κ}
    (here : s.handlers[i]? = some handler) (hkind : e.isAccepted = false ∧ e.isConnected = false ∧
      e.isRefused = false ∧ e.isEnded = true) : Accounted (past ++ [e]) (s.reap i handler) := by
  obtain ⟨haccepted, hconnected, hrefused, hended⟩ := hkind
  obtain ⟨hi, _⟩ := List.getElem?_eq_some_iff.mp here
  have hlength : (s.reap i handler).handlers.length = s.handlers.length - 1 :=
    List.length_eraseIdx_of_lt hi
  apply h.concat
  · rw [haccepted, hconnected, hrefused]
    rfl
  · rw [hconnected, hended, hlength, Bool.toNat_false, Bool.toNat_true]
    omega

theorem of_step (h : Accounted past s) (hconserved : Conserved s)
    (hstep : step b streamTimeout s e = some s') : Accounted (past ++ [e]) s' := by
  have hrunning := (hconserved.of_step hstep).running
  cases e <;> simp only [step] at hstep
  case accepted peerAddr =>
    split at hstep
    · next hphase =>
      obtain rfl := Option.some.inj hstep
      exact h.concat (by rw [hphase]; rfl) (Nat.zero_add _)
    · cases hstep
  case acceptFailed e =>
    split at hstep
    · obtain rfl := Option.some.inj hstep
      exact h.concat rfl (Nat.zero_add _)
    · cases hstep
  case acquired =>
    split at hstep
    · next peerAddr hphase =>
      split at hstep
      · cases hstep
      · obtain rfl := Option.some.inj hstep
        exact h.concat (by rw [hphase]; rfl) (Nat.zero_add _)
      · obtain rfl := Option.some.inj hstep
        exact absurd rfl hrunning
    · cases hstep
  case connected =>
    split at hstep
    · next hphase =>
      obtain rfl := Option.some.inj hstep
      refine h.concat (by rw [hphase]; rfl) ?_
      rw [List.length_append, List.length_singleton, Nat.add_comm]
      rfl
    · cases hstep
  case connectFailed e =>
    split at hstep
    · next hphase =>
      obtain rfl := Option.some.inj hstep
      exact h.concat (by rw [hphase]; rfl) (Nat.zero_add _)
    · cases hstep
  case connectTimedOut =>
    split at hstep
    · next hphase =>
      obtain rfl := Option.some.inj hstep
      exact h.concat (by rw [hphase]; rfl) (Nat.zero_add _)
    · cases hstep
  case moved i m =>
    split at hstep
    · split at hstep
      · obtain rfl := Option.some.inj hstep
        exact h.concat rfl (by rw [List.length_set]; exact Nat.zero_add _)
      · cases hstep
    · cases hstep
  case finished i =>
    split at hstep
    · next handler hhere =>
      split at hstep
      · obtain rfl := Option.some.inj hstep
        exact h.of_reap hhere ⟨rfl, rfl, rfl, rfl⟩
      · cases hstep
    · cases hstep
  case panicked i =>
    split at hstep
    · next handler hhere =>
      obtain rfl := Option.some.inj hstep
      exact h.of_reap hhere ⟨rfl, rfl, rfl, rfl⟩
    · cases hstep
  case ticked =>
    split at hstep
    · cases hstep
    · obtain rfl := Option.some.inj hstep
      exact h.concat rfl (by rw [List.length_map]; exact Nat.zero_add _)

theorem of_run (h : run (step b streamTimeout) State.init events = some s) :
    Accounted events s ∧ Conserved s := by
  refine run_history (P := fun past s => Accounted past s ∧ Conserved s) ?_ ⟨init, .init⟩ h
  intro past s e s' hbefore hstep
  exact ⟨hbefore.1.of_step hbefore.2 hstep, hbefore.2.of_step hstep⟩

end Accounted

/-! ## Waiting for a permit -/

theorem step_acquired {peerAddr : SocketAddr} (hopened : s.semaphore.closed = false)
    (hphase : s.phase = .acquireOwned peerAddr) : step b streamTimeout s .acquired =
      if s.semaphore.permits = 0 then none
      else some { s with
        semaphore := { s.semaphore with permits := s.semaphore.permits - 1 }
        phase := .connect peerAddr ⟨⟩ } := by
  simp only [step, hphase, Semaphore.acquireOwned, hopened, Bool.false_eq_true, if_false]
  by_cases hfree : s.semaphore.permits = 0
  · rw [if_pos hfree, if_pos hfree]
  · rw [if_neg hfree, if_neg hfree]

/-- A waiting client waits for one of as many live handlers as there are permits. -/
theorem step_acquired_eq_none_iff {peerAddr : SocketAddr} (h : Conserved s)
    (hphase : s.phase = .acquireOwned peerAddr) :
    step b streamTimeout s .acquired = none ↔ s.handlers.length = maxConcurrentConnections := by
  have hslots := h.slots
  rw [State.slots, hphase] at hslots
  have hheld : (Phase.acquireOwned peerAddr).held = 0 := rfl
  rw [step_acquired h.opened hphase]
  split
  · simp only [true_iff]
    omega
  · simp only [reduceCtorEq, false_iff]
    omega

/-- A handler that ends gives its permit back. -/
theorem step_ended (hended : e.isEnded) (hstep : step b streamTimeout s e = some s') :
    s'.phase = s.phase ∧ s'.semaphore.permits = s.semaphore.permits + 1 := by
  cases e <;> simp only [Event.isEnded, Bool.false_eq_true] at hended
  case finished i =>
    simp only [step] at hstep
    split at hstep
    · split at hstep
      · obtain rfl := Option.some.inj hstep
        exact ⟨rfl, rfl⟩
      · cases hstep
    · cases hstep
  case panicked i =>
    simp only [step] at hstep
    split at hstep
    · obtain rfl := Option.some.inj hstep
      exact ⟨rfl, rfl⟩
    · cases hstep

/-- **Every client is accounted for.** Those that were accepted have got a handler, have
been turned away or are the one that the loop is about, and those handlers are live or have
ended. A client waits for a permit just while all of them are with live handlers, and any
that ends lets it through. -/
theorem clients_accounted (h : run (step b streamTimeout) State.init events = some s) :
    events.countP Event.isAccepted = events.countP Event.isConnected +
        events.countP Event.isRefused + s.phase.clients ∧
      events.countP Event.isConnected = s.handlers.length + events.countP Event.isEnded ∧
      ∀ peerAddr, s.phase = .acquireOwned peerAddr →
        (step b streamTimeout s .acquired = none ↔ s.handlers.length = maxConcurrentConnections) ∧
        ∀ e s', e.isEnded → step b streamTimeout s e = some s' →
          ∃ s'' permit, step b streamTimeout s' .acquired = some s'' ∧
            s''.phase = .connect peerAddr permit := by
  obtain ⟨haccounted, hconserved⟩ := Accounted.of_run h
  refine ⟨haccounted.clients, haccounted.handlers, ?_⟩
  intro peerAddr hphase
  refine ⟨step_acquired_eq_none_iff hconserved hphase, ?_⟩
  intro e s' hended hstep
  obtain ⟨hsame, hfree⟩ := step_ended hended hstep
  have hnext := @step_acquired _ _ b streamTimeout _ _ (hconserved.of_step hstep).opened
    (hsame.trans hphase)
  rw [if_neg (by omega)] at hnext
  exact ⟨_, _, hnext, rfl⟩

/-- A fourth client waits for its permit beside one live handler. -/
def fourClients : List (Event Unit) := threeClients ++ [.accepted peer]

def fourClientsState : State Unit := ⟨⟨99, false⟩, .acquireOwned peer, [⟨(), ⟨⟩⟩]⟩

theorem run_fourClients : run (step anyTime 300) State.init fourClients = some fourClientsState := rfl

theorem clients_accounted_fourClients :
    fourClients.countP Event.isAccepted = fourClients.countP Event.isConnected +
      fourClients.countP Event.isRefused + 1 ∧
    fourClients.countP Event.isConnected = 1 + fourClients.countP Event.isEnded ∧
    (step anyTime 300 fourClientsState .acquired = none ↔ 1 = maxConcurrentConnections) ∧
    ∃ s s' permit, step anyTime 300 fourClientsState (.panicked 0) = some s ∧
      step anyTime 300 s .acquired = some s' ∧ s'.phase = .connect peer permit := by
  obtain ⟨hclients, hhandlers, hwaits⟩ := clients_accounted run_fourClients
  obtain ⟨hblocked, hends⟩ := hwaits peer rfl
  obtain ⟨s', permit, hacquired, hphase⟩ := hends (.panicked 0) ⟨⟨100, false⟩, .acquireOwned peer, []⟩ rfl rfl
  exact ⟨hclients, hhandlers, hblocked, _, s', permit, rfl, hacquired, hphase⟩

end DlnaProxy.TcpProxy.ListenLoop
