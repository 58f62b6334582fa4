import Mathlib

/-!
# A timer at an interval

The ticks of the timer are due at fixed instants, the first of them at once, and none is
skipped. A loop that acts and then waits for its next tick keeps to these instants within
the delay of a single pass, however long it runs. So what each act grants for a time is
granted throughout where that time covers the acts that may fail and twice the delay.
-/
namespace DlnaProxy.Lib.Timer

structure Interval where
  deadline : Nat
  period : Nat

def Interval.new (now period : Nat) : Interval := ⟨now, period⟩

/-- When a wait from `now` on ends, if it ends that late, and the timer behind it. A tick
that was missed leaves the following where they are. -/
def Interval.tick (interval : Interval) (now late : Nat) : Nat × Interval :=
  (max now interval.deadline + late, { interval with deadline := interval.deadline + interval.period })

/-- A pass of the loop: when in it the loop acts, how long it lasts, and how late the wait
behind it ends. -/
structure Pass where
  acts : Nat
  lasts : Nat
  late : Nat
  acts_le : acts ≤ lasts

/-- Where the pass begins, and the timer there. -/
def loop (start period : Nat) (passes : Nat → Pass) : Nat → Nat × Interval
  | 0 => (start, .new start period)
  | n + 1 =>
    let (now, interval) := loop start period passes n
    interval.tick (now + (passes n).lasts) (passes n).late

def begins (start period : Nat) (passes : Nat → Pass) (n : Nat) : Nat :=
  (loop start period passes n).1

/-- When the pass acts. -/
def acts (start period : Nat) (passes : Nat → Pass) (n : Nat) : Nat :=
  begins start period passes n + (passes n).acts

/-- No pass is delayed by more than that, in itself and by the wait behind it. -/
def Delayed (passes : Nat → Pass) (delay : Nat) : Prop :=
  ∀ n, (passes n).lasts + (passes n).late ≤ delay

section Loop

variable {start period delay : Nat} {passes : Nat → Pass}

theorem loop_interval (n : Nat) :
    (loop start period passes n).2 = ⟨start + n * period, period⟩ := by
  induction n with
  | zero => simp [loop, Interval.new]
  | succ n ih =>
    simp only [loop, Interval.tick, ih]
    congr 1
    ring

theorem begins_succ (n : Nat) : begins start period passes (n + 1) =
    max (begins start period passes n + (passes n).lasts) (start + n * period) + (passes n).late := by
  simp only [begins, loop, Interval.tick, loop_interval]

/-- **The loop does not drift.** The pass behind a tick begins between the instant it is due
and the delay of one pass later. -/
theorem begins_bounds (hdelayed : Delayed passes delay) (hdelay : delay ≤ period) (start n : Nat) :
    start + n * period ≤ begins start period passes (n + 1) ∧
      begins start period passes (n + 1) ≤ start + n * period + delay := by
  induction n with
  | zero =>
    have hfirst := hdelayed 0
    have hbegin : begins start period passes 0 = start := rfl
    rw [begins_succ, hbegin]
    omega
  | succ n ih =>
    have hpass := hdelayed (n + 1)
    rw [begins_succ, Nat.succ_mul]
    omega

theorem acts_le_acts_succ (n : Nat) :
    acts start period passes n ≤ acts start period passes (n + 1) := by
  have hle := (passes n).acts_le
  rw [acts, acts, begins_succ]
  omega

theorem acts_mono : Monotone (acts start period passes) := monotone_nat_of_le_succ acts_le_acts_succ

/-- Two acts are apart by what is due between them and the delays of two passes. -/
theorem acts_add_le (hdelayed : Delayed passes delay) (hdelay : delay ≤ period) (start n k : Nat) :
    acts start period passes (n + k + 1) ≤
      acts start period passes n + (k + 1) * period + 2 * delay := by
  obtain ⟨_, hlast⟩ := begins_bounds hdelayed hdelay start (n + k)
  have hacts := (passes (n + k + 1)).acts_le
  have hpass := hdelayed (n + k + 1)
  cases n with
  | zero =>
    have hbegin : begins start period passes 0 = start := rfl
    rw [acts, acts, hbegin, Nat.succ_mul]
    rw [Nat.zero_add] at hlast hacts hpass ⊢
    omega
  | succ n =>
    obtain ⟨hfirst, _⟩ := begins_bounds hdelayed hdelay start n
    have hdue : (n + 1 + k) * period = n * period + (k + 1) * period := by ring
    rw [acts, acts]
    rw [hdue] at hlast
    omega

/-- A pass that has acted by then is one of the first. -/
theorem lt_of_acts_le (hdelayed : Delayed passes delay) (hdelay : delay ≤ period)
    (hperiod : 0 < period) {n t : Nat} (h : acts start period passes n ≤ t) : n < t + 2 := by
  by_contra hlt
  obtain ⟨hbegin, _⟩ := begins_bounds hdelayed hdelay start (t + 1)
  have hdue : t + 1 ≤ (t + 1) * period := Nat.le_mul_of_pos_right _ hperiod
  have hfirst : begins start period passes (t + 1 + 1) ≤ acts start period passes (t + 2) :=
    Nat.le_add_right _ _
  have hmono : acts start period passes (t + 2) ≤ acts start period passes n :=
    acts_mono (not_lt.mp hlt)
  omega

end Loop

/-! ## What the acts grant -/

/-- Not more than that many passes in a row fail to grant. -/
def Losing (granted : Nat → Bool) (losses : Nat) : Prop :=
  ∀ n, granted n → ∃ k ≤ losses, granted (n + k + 1)

/-- Something is granted at that instant. -/
def Covered (start period : Nat) (passes : Nat → Pass) (granted : Nat → Bool) (life t : Nat) : Prop :=
  ∃ n, granted n ∧ acts start period passes n ≤ t ∧ t < acts start period passes n + life

section Grants

variable {start period delay losses life : Nat} {passes : Nat → Pass} {granted : Nat → Bool}

/-- From the first grant on each lasts until the next. -/
theorem covered (hdelayed : Delayed passes delay) (hdelay : delay ≤ period) (hperiod : 0 < period)
    (hlosing : Losing granted losses) (hlife : (losses + 1) * period + 2 * delay ≤ life) {n t : Nat}
    (hgranted : granted n) (ht : acts start period passes n ≤ t) :
    Covered start period passes granted life t := by
  have hmany := lt_of_acts_le hdelayed hdelay hperiod ht
  -- There are finitely many passes before `t`, and the last one that granted covers it.
  induction hleft : t + 2 - n using Nat.strong_induction_on generalizing n with
  | h left ih =>
    obtain ⟨k, hk, hnext⟩ := hlosing n hgranted
    by_cases hlater : acts start period passes (n + k + 1) ≤ t
    · have hroom := lt_of_acts_le hdelayed hdelay hperiod hlater
      exact ih (t + 2 - (n + k + 1)) (by omega) hnext hlater hroom rfl
    · have hgap := acts_add_le hdelayed hdelay start n k
      have hdue : (k + 1) * period ≤ (losses + 1) * period := Nat.mul_le_mul_right _ (by omega)
      exact ⟨n, hgranted, ht, by omega⟩

/-- The passes that are apart the furthest: the last that fails wakes late, and the one
behind it acts late. -/
def furthest (losses delay : Nat) (n : Nat) : Pass :=
  if n = losses + 1 then ⟨0, 0, delay, Nat.le_refl _⟩
  else if n = losses + 2 then ⟨delay, delay, 0, Nat.le_refl _⟩
  else ⟨0, 0, 0, Nat.le_refl _⟩

/-- All grant but so many behind the second. -/
def grantedBut (losses : Nat) (n : Nat) : Bool := n ≤ 1 || losses + 2 ≤ n

theorem furthest_delayed (losses delay : Nat) : Delayed (furthest losses delay) delay := by
  intro n
  unfold furthest
  split
  · exact Nat.le_of_eq (Nat.zero_add delay)
  · split
    · exact Nat.le_refl delay
    · exact Nat.zero_le delay

theorem grantedBut_losing (losses : Nat) : Losing (grantedBut losses) losses := by
  intro n hn
  simp only [grantedBut, Bool.or_eq_true, decide_eq_true_iff] at hn ⊢
  by_cases hone : n = 1
  · exact ⟨losses, Nat.le_refl _, by omega⟩
  · exact ⟨0, Nat.zero_le _, by omega⟩

theorem furthest_not_covered (hlife : life < (losses + 1) * period + 2 * delay) :
    ¬ Covered start period (furthest losses delay) (grantedBut losses) life (start + life) := by
  intro ⟨n, hgranted, hbefore, hlife'⟩
  simp only [grantedBut, Bool.or_eq_true, decide_eq_true_iff] at hgranted
  have hzero : acts start period (furthest losses delay) 0 = start := by
    simp [acts, begins, loop, furthest]
  have hone : acts start period (furthest losses delay) 1 = start := by
    have hacts : (furthest losses delay 1).acts = 0 := by
      unfold furthest
      split <;> simp
    rw [acts, begins_succ, hacts]
    simp [begins, loop, furthest]
  have hlate : acts start period (furthest losses delay) (losses + 2) ≥
      start + (losses + 1) * period + 2 * delay := by
    have hlast : (furthest losses delay (losses + 1)).late = delay := by simp [furthest]
    have hacts : (furthest losses delay (losses + 2)).acts = delay := by simp [furthest]
    rw [acts, begins_succ, hlast, hacts]
    omega
  rcases hgranted with hfirst | hmore
  · have hstart : acts start period (furthest losses delay) n = start := by
      interval_cases n
      · exact hzero
      · exact hone
    omega
  · have hmono : acts start period (furthest losses delay) (losses + 2) ≤
        acts start period (furthest losses delay) n := acts_mono hmore
    omega

end Grants

end DlnaProxy.Lib.Timer
