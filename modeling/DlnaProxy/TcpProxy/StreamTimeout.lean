import DlnaProxy.Lib.Lawful
import DlnaProxy.TcpProxy.Code
import DlnaProxy.TcpProxy.ListenLoop

/-!
# Idle connections

`handle_conn` as a handler of the listen loop. A copy task lives as long as its run
over what has arrived is pending, in whichever of its reads it waits, and the
handler returns when both have ended. Time is counted in the unit of the configured
timeout, and it passes only when no task is ready.
-/
namespace DlnaProxy.TcpProxy.StreamTimeout

open DlnaProxy.Lib.Transition DlnaProxy.Lib.ByteIo DlnaProxy.Net
open DlnaProxy.TcpProxy.ListenLoop

/-! ## A connection -/

def isPending {α : Type} : Except Halt α → Bool
  | .error .pending => true
  | _ => false

/-- Both directions of a connection: what each has read and whether its source has
closed, and whether its reads or writes have failed. `idle` is the time since a
byte moved. -/
structure Connection where
  clientRead : OwnedReadHalf
  originRead : OwnedReadHalf
  clientFailed : Bool
  originFailed : Bool
  idle : Nat

namespace Connection

def start : Connection := ⟨⟨[], false⟩, ⟨[], false⟩, false, false, 0⟩

variable (t : Target) (proxy : TCPProxy) (conn : Connection)

/-- `client_to_origin` waits for its client. -/
def clientToOrigin : Bool := !conn.clientFailed && isPending (copy conn.clientRead.reader).outcome

/-- `origin_to_client` waits for the origin. -/
def originToClient : Bool :=
  !conn.originFailed && isPending (proxyResponseWithRewrite t proxy conn.originRead).outcome

/-- `handle_conn` has joined both tasks. -/
def ended : Bool := !conn.clientToOrigin && !conn.originToClient t proxy

variable {conn}

theorem clientToOrigin_of_open (hopen : conn.clientRead.closed = false)
    (hworks : conn.clientFailed = false) : conn.clientToOrigin = true := by
  have hcopy := (Simulates.copy (R := BufReader)).outcome conn.clientRead.reader
  have hview : view conn.clientRead.reader = ⟨conn.clientRead.bytes, false⟩ := by
    rw [← hopen]
    exact conn.clientRead.stream_reader
  rw [hview, copy_eq] at hcopy
  rw [clientToOrigin, hworks, hcopy]
  rfl

/-- A client that keeps its side open keeps the connection, whatever the origin does. -/
theorem ended_of_open (hopen : conn.clientRead.closed = false) (hworks : conn.clientFailed = false) :
    conn.ended t proxy = false := by
  rw [ended, clientToOrigin_of_open hopen hworks]
  rfl

end Connection

inductive Move where
  | clientBytes (piece : Piece)
  | originBytes (piece : Piece)
  | clientCloses
  | originCloses
  | clientFails
  | originFails

/-- What happens on a stream reaches the task that waits at it. -/
def Connection.move (t : Target) (proxy : TCPProxy) (conn : Connection) : Move → Option Connection
  | .clientBytes piece =>
    if conn.clientToOrigin then
      some { conn with clientRead := ⟨conn.clientRead.arrivals ++ [piece], false⟩, idle := 0 }
    else none
  | .originBytes piece =>
    if conn.originToClient t proxy then
      some { conn with originRead := ⟨conn.originRead.arrivals ++ [piece], false⟩, idle := 0 }
    else none
  | .clientCloses =>
    if conn.clientToOrigin then some { conn with clientRead := ⟨conn.clientRead.arrivals, true⟩ }
    else none
  | .originCloses =>
    if conn.originToClient t proxy then some { conn with originRead := ⟨conn.originRead.arrivals, true⟩ }
    else none
  | .clientFails => if conn.clientToOrigin then some { conn with clientFailed := true } else none
  | .originFails => if conn.originToClient t proxy then some { conn with originFailed := true } else none

def Connection.tick (conn : Connection) : Connection := { conn with idle := conn.idle + 1 }

def handleConn (t : Target) (proxy : TCPProxy) : Behaviour Connection Move where
  start := .start
  move := Connection.move t proxy
  tick := Connection.tick
  ended := Connection.ended t proxy

/-! ## Silence -/

/-- A byte moves on a connection. -/
def Move.Bytes : Move → Bool
  | .clientBytes _ => true
  | .originBytes _ => true
  | _ => false

/-- The place of a handler among the live ones after an event, while it is silent: not
when a byte moves on its connection, and not when its task ends. -/
def follow (i : Nat) : Event Move → Option Nat
  | .moved k m => if k = i ∧ m.Bytes then none else some i
  | .finished k => if k = i then none else if k < i then some (i - 1) else some i
  | .panicked k => if k = i then none else if k < i then some (i - 1) else some i
  | _ => some i

def isTick : Event Move → Bool
  | .ticked => true
  | _ => false

/-- How long each connection that is live after an event has been silent. -/
def silences (ages : List Nat) : Event Move → List Nat
  | .connected => ages ++ [0]
  | .moved i m => if m.Bytes then ages.set i 0 else ages
  | .finished i => ages.eraseIdx i
  | .panicked i => ages.eraseIdx i
  | .ticked => ages.map (· + 1)
  | _ => ages

section Silences

variable {ages : List Nat} {e : Event Move} {i j n : Nat}

theorem getElem?_erased {k : Nat} (hi : ages[i]? = some n)
    (hfollow : (if k = i then none else if k < i then some (i - 1) else some i) = some j) :
    (ages.eraseIdx k)[j]? = some n := by
  split at hfollow
  · cases hfollow
  · next hne =>
    split at hfollow <;> cases hfollow
    · next hlt =>
      rw [List.getElem?_eraseIdx_of_ge (by omega), Nat.sub_add_cancel (by omega), hi]
    · next hge => rw [List.getElem?_eraseIdx_of_lt (by omega), hi]

/-- A connection that stays silent is older by the ticks. -/
theorem silences_follow (hi : ages[i]? = some n) (hfollow : follow i e = some j) :
    (silences ages e)[j]? = some (n + (isTick e).toNat) := by
  cases e with
  | moved k m =>
    simp only [follow] at hfollow
    split at hfollow
    · cases hfollow
    · next hnot =>
      cases hfollow
      simp only [silences, isTick, Bool.toNat_false, Nat.add_zero]
      split
      · next hbytes =>
        rw [List.getElem?_set_ne (fun h => hnot ⟨h, hbytes⟩), hi]
      · exact hi
  | finished k => exact getElem?_erased hi hfollow
  | panicked k => exact getElem?_erased hi hfollow
  | ticked =>
    cases hfollow
    simp only [silences, List.getElem?_map, hi]
    rfl
  | connected =>
    cases hfollow
    obtain ⟨hlt, _⟩ := List.getElem?_eq_some_iff.mp hi
    rw [silences, List.getElem?_append_left hlt, hi]
    rfl
  | _ =>
    cases hfollow
    exact hi

theorem exists_of_erased {k : Nat} (hj : (ages.eraseIdx k)[j]? = some n) : ∃ i, ages[i]? = some n ∧
    (if k = i then none else if k < i then some (i - 1) else some i) = some j := by
  by_cases hlt : j < k
  · rw [List.getElem?_eraseIdx_of_lt hlt] at hj
    exact ⟨j, hj, by rw [if_neg (by omega), if_neg (by omega)]⟩
  · rw [List.getElem?_eraseIdx_of_ge (by omega)] at hj
    exact ⟨j + 1, hj, by rw [if_neg (by omega), if_pos (by omega)]; simp⟩

/-- One that has been silent is fresh, or was silent before the event. -/
theorem silences_back (hj : (silences ages e)[j]? = some n) :
    n = 0 ∨ ∃ i m, ages[i]? = some m ∧ follow i e = some j ∧ n = m + (isTick e).toNat := by
  cases e with
  | moved k m =>
    simp only [silences] at hj
    split at hj
    · next hbytes =>
      by_cases hk : k = j
      · subst hk
        obtain ⟨hlt, hset⟩ := List.getElem?_eq_some_iff.mp hj
        rw [List.getElem_set_self] at hset
        exact Or.inl hset.symm
      · rw [List.getElem?_set_ne hk] at hj
        exact Or.inr ⟨j, n, hj, if_neg fun h => hk h.1, rfl⟩
    · next hquiet => exact Or.inr ⟨j, n, hj, if_neg fun h => hquiet h.2, rfl⟩
  | finished k =>
    obtain ⟨i, hi, hfollow⟩ := exists_of_erased hj
    exact Or.inr ⟨i, n, hi, hfollow, rfl⟩
  | panicked k =>
    obtain ⟨i, hi, hfollow⟩ := exists_of_erased hj
    exact Or.inr ⟨i, n, hi, hfollow, rfl⟩
  | ticked =>
    simp only [silences, List.getElem?_map, Option.map_eq_some_iff] at hj
    obtain ⟨m, hm, rfl⟩ := hj
    exact Or.inr ⟨j, m, hm, rfl, rfl⟩
  | connected =>
    rw [silences, List.getElem?_append] at hj
    split at hj
    · exact Or.inr ⟨j, n, hj, rfl, rfl⟩
    · obtain ⟨_, hzero⟩ := List.getElem?_eq_some_iff.mp hj
      rw [List.getElem_singleton] at hzero
      exact Or.inl hzero.symm
  | _ => exact Or.inr ⟨j, n, hj, rfl, rfl⟩

/-- Over a window in which it is silent a connection gets older by the ticks of the window. -/
theorem silences_window {window : List (Event Move)} (hi : ages[i]? = some n)
    (hfollow : window.foldlM follow i = some j) :
    (window.foldl silences ages)[j]? = some (n + window.countP isTick) := by
  induction window generalizing ages i n with
  | nil =>
    cases hfollow
    exact hi
  | cons e window ih =>
    rw [List.foldlM_cons] at hfollow
    obtain ⟨k, hk, hfollow⟩ := Option.bind_eq_some_iff.mp hfollow
    rw [List.foldl_cons, ih (silences_follow hi hk) hfollow, List.countP_cons]
    cases isTick e <;> simp [Nat.add_comm, Nat.add_assoc]

/-- **An age is the ticks of a window of silence**, which reaches to the end. -/
theorem exists_window {events : List (Event Move)} (hj : (events.foldl silences [])[j]? = some n) :
    ∃ before window i, events = before ++ window ∧ i < (before.foldl silences []).length ∧
      window.foldlM follow i = some j ∧ n = window.countP isTick := by
  induction events using List.reverseRecOn generalizing j n with
  | nil => cases hj
  | append_singleton events e ih =>
    have hlt {n : Nat} (hj : ((events ++ [e]).foldl silences [])[j]? = some n) :
        j < ((events ++ [e]).foldl silences []).length := (List.getElem?_eq_some_iff.mp hj).1
    have hwhole := hlt hj
    rw [List.foldl_append, List.foldl_cons, List.foldl_nil] at hj
    rcases silences_back hj with rfl | ⟨k, m, hk, hfollow, rfl⟩
    · exact ⟨events ++ [e], [], j, (List.append_nil _).symm, hwhole, rfl, rfl⟩
    · obtain ⟨before, window, i, rfl, hi, hwindow, rfl⟩ := ih hk
      refine ⟨before, window ++ [e], i, List.append_assoc _ _ _, hi, ?_, ?_⟩
      · rw [List.foldlM_append, hwindow]
        simpa using hfollow
      · rw [List.countP_append, List.countP_singleton]
        cases isTick e <;> rfl

end Silences

/-! ## Overdue connections -/

/-- No connection that holds its permit has been idle for longer than the timeout. -/
def InTime (streamTimeout : Nat) (s : State Connection) : Prop :=
  ∀ handler ∈ s.handlers, handler.conn.idle ≤ streamTimeout

/-- From no moment of the run is a live connection silent for more ticks than the timeout. -/
def Talkative (t : Target) (proxy : TCPProxy) (streamTimeout : Nat) (events : List (Event Move)) :
    Prop :=
  ∀ before window after s i j, events = before ++ window ++ after →
    run (step (handleConn t proxy) streamTimeout) State.init before = some s → i < s.handlers.length →
    window.foldlM follow i = some j → window.countP isTick ≤ streamTimeout

variable {t : Target} {proxy : TCPProxy} {streamTimeout : Nat} {s s' : State Connection}
  {e : Event Move} {events : List (Event Move)}

def ages (s : State Connection) : List Nat := s.handlers.map fun handler => handler.conn.idle

theorem idle_move {conn conn' : Connection} {m : Move} (h : conn.move t proxy m = some conn') :
    conn'.idle = if m.Bytes then 0 else conn.idle := by
  cases m <;> simp only [Connection.move] at h <;> split at h <;> cases h <;> rfl

/-- The code resets an idle counter where a byte moves, and nowhere else. -/
theorem ages_step (hstep : step (handleConn t proxy) streamTimeout s e = some s') :
    ages s' = silences (ages s) e := by
  have hreap {i : Nat} {handler : Handler Connection} :
      ages (s.reap i handler) = (ages s).eraseIdx i := (List.eraseIdx_map _ _ _).symm
  cases e <;> simp only [step] at hstep
  case moved i m =>
    split at hstep
    · next handler hhere =>
      split at hstep
      · next conn hmove =>
        cases hstep
        show List.map _ (s.handlers.set i _) = _
        rw [List.map_set, idle_move hmove, silences]
        split
        · rfl
        · have hage : (ages s)[i]? = some handler.conn.idle := by
            rw [ages, List.getElem?_map, hhere]
            rfl
          obtain ⟨hlt, heq⟩ := List.getElem?_eq_some_iff.mp hage
          rw [← heq]
          exact List.set_getElem_self hlt
      · cases hstep
    · cases hstep
  case connected =>
    split at hstep <;> cases hstep
    exact List.map_append
  case finished i =>
    split at hstep
    · split at hstep <;> cases hstep
      exact hreap
    · cases hstep
  case panicked i =>
    split at hstep <;> cases hstep
    exact hreap
  case ticked =>
    split at hstep <;> cases hstep
    show List.map _ (s.handlers.map _) = (ages s).map _
    rw [ages, List.map_map, List.map_map]
    rfl
  case acquired =>
    split at hstep
    · split at hstep <;> cases hstep <;> rfl
    · cases hstep
  all_goals
    split at hstep <;> cases hstep
    rfl

theorem ages_run (hrun : run (step (handleConn t proxy) streamTimeout) State.init events = some s) :
    ages s = events.foldl silences [] := by
  refine run_history (P := fun past s => ages s = past.foldl silences []) ?_ rfl hrun
  intro past s e s' ih hstep
  rw [ages_step hstep, ih, List.foldl_append, List.foldl_cons, List.foldl_nil]

/-! ## Silent peers -/

/-- No handler is ready to return. -/
def Busy (t : Target) (proxy : TCPProxy) (s : State Connection) : Prop :=
  ∀ handler ∈ s.handlers, handler.conn.ended t proxy = false

/-- The state after `n` units of time. -/
def later (n : Nat) (s : State Connection) : State Connection :=
  { s with handlers := s.handlers.map fun handler =>
      { handler with conn := { handler.conn with idle := handler.conn.idle + n } } }

theorem later_zero (s : State Connection) : later 0 s = s := by simp [later]

theorem step_ticked (h : Busy t proxy s) :
    step (handleConn t proxy) streamTimeout s .ticked = some (later 1 s) := by
  have hready : ¬ (s.handlers.any fun handler => handler.conn.ended t proxy) = true := by
    rw [List.any_eq_true]
    rintro ⟨handler, hmem, hended⟩
    exact absurd (hended.symm.trans (h handler hmem)) nofun
  exact if_neg hready

theorem Busy.later (h : Busy t proxy s) (n : Nat) : Busy t proxy (later n s) := by
  intro handler hmem
  obtain ⟨old, hold, rfl⟩ := List.mem_map.mp hmem
  exact h old hold

theorem later_later (n m : Nat) (s : State Connection) : later n (later m s) = later (m + n) s := by
  simp [later, Nat.add_assoc]

/-- Time releases no connection, whatever its copy tasks wait for. -/
theorem run_ticked (h : Busy t proxy s) (n : Nat) :
    run (step (handleConn t proxy) streamTimeout) s (List.replicate n .ticked) =
      some (later n s) := by
  induction n generalizing s with
  | zero => rw [List.replicate_zero, run_nil, later_zero]
  | succ n ih =>
    rw [List.replicate_succ, run_cons, step_ticked h, Option.bind_some, ih (h.later 1), later_later,
      Nat.add_comm]

theorem not_inTime_later (hlive : s.handlers ≠ []) : ¬ InTime streamTimeout (later (streamTimeout + 1) s) := by
  obtain ⟨handler, handlers, hhandlers⟩ := List.exists_cons_of_ne_nil hlive
  intro h
  have hidle := h { handler with conn := { handler.conn with idle := _ } }
    (List.mem_map_of_mem (by rw [hhandlers]; exact List.mem_cons_self))
  simp only at hidle
  omega

theorem inTime_iff : InTime streamTimeout s ↔ ∀ age ∈ ages s, age ≤ streamTimeout := by
  rw [InTime, ages, List.forall_mem_map]

/-- A connection is in time where each window of its silence has few ticks. -/
theorem Talkative.inTime (h : Talkative t proxy streamTimeout events)
    {seen : List (Event Move)} (hseen : seen <+: events)
    (hrun : run (step (handleConn t proxy) streamTimeout) State.init seen = some s) :
    InTime streamTimeout s := by
  rw [inTime_iff, ages_run hrun]
  intro age hmem
  obtain ⟨j, hj⟩ := List.mem_iff_getElem?.mp hmem
  obtain ⟨before, window, i, rfl, hi, hwindow, rfl⟩ := exists_window hj
  obtain ⟨after, rfl⟩ := hseen
  rw [run_append, Option.bind_eq_some_iff] at hrun
  obtain ⟨mid, hbefore, _⟩ := hrun
  rw [← ages_run hbefore, ages, List.length_map] at hi
  exact h before window after mid i j rfl hbefore hi hwindow

/-- Where one has more ticks the connection is overdue at its end. -/
theorem talkative_of_always
    (hrun : run (step (handleConn t proxy) streamTimeout) State.init events = some s)
    (halways : Always (step (handleConn t proxy) streamTimeout) (InTime streamTimeout) State.init
      events) : Talkative t proxy streamTimeout events := by
  intro before window after mid i j hevents hbefore hi hwindow
  rw [hevents, run_append, Option.bind_eq_some_iff] at hrun
  obtain ⟨last, hlast, _⟩ := hrun
  have hin := halways (before ++ window) last ⟨after, hevents.symm⟩ hlast
  rw [inTime_iff, ages_run hlast, List.foldl_append, ← ages_run hbefore] at hin
  have hage : (ages mid)[i]? = some (mid.handlers[i]).conn.idle := by
    rw [ages, List.getElem?_map, List.getElem?_eq_getElem hi]
    rfl
  have hle := hin _ (List.mem_of_getElem? (silences_window hage hwindow))
  omega

def urlBases : TCPProxy := ⟨"http://192.168.1.41:55555".toList, "http://192.168.1.52:8100".toList⟩

/-- A client that connects and then sends nothing. -/
def connects : List (Event Move) := [.accepted peer, .acquired, .connected]

def connected : State Connection := ⟨⟨99, false⟩, .accept, [⟨.start, ⟨⟩⟩]⟩

theorem run_connects (streamTimeout : Nat) :
    run (step (handleConn release64 urlBases) streamTimeout) State.init connects = some connected := rfl

theorem busy_connected : Busy release64 urlBases connected := by
  intro handler hmem
  obtain rfl := List.mem_singleton.mp hmem
  exact Connection.ended_of_open _ _ rfl rfl

end DlnaProxy.TcpProxy.StreamTimeout
