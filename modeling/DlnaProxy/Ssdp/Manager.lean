import DlnaProxy.Config
import DlnaProxy.Ssdp.Packet
import DlnaProxy.TcpProxy.Code

/-!
# The SSDP manager

`SSDPManager::new` computes from the broadcast period how long an announcement is
valid, and the broadcaster's timer takes that period. An announcement outlives the
interval where twice the period fits, and there is a timer where it is not zero.
-/
namespace DlnaProxy.Ssdp

open DlnaProxy.Lib.Utf8 DlnaProxy.Configuration DlnaProxy.TcpProxy

/-- `a * b` on `u64`, and `none` for a panic. -/
def u64Mul (t : Target) (a b : UInt64) : Option UInt64 :=
  if a.toNat * b.toNat < 2 ^ 64 then some (a * b)
  else if t.overflowChecks then none
  else some (a * b)

/-- `n as usize`. -/
def asUsize (t : Target) (n : UInt64) : Nat := n.toNat % 2 ^ t.bits

def cacheMaxAge (t : Target) (broadcastPeriod : Duration) : Option Nat :=
  let n := broadcastPeriod.secs
  (if n < 20 then some 20 else u64Mul t n 2).map (asUsize t)

structure SSDPManager where
  broadcastPeriod : Duration
  interactiveSsdp : InteractiveSSDP

/-- What `SSDPManager::new` comes to. -/
inductive Created where
  | ok (manager : SSDPManager)
  | err (message : Str)
  | panic

/-- `httpClient` and `sockets` say whether the client and the sockets could be made. -/
def SSDPManager.new (t : Target) (httpClient sockets : Except Str Unit) (endpointDescUrl : Str)
    (broadcastPeriod : Duration) : Created :=
  match context "Failed to build HTTP client".toList httpClient with
  | .error e => .err e
  | .ok _ =>
    match sockets with
    | .error e => .err e
    | .ok _ =>
      match cacheMaxAge t broadcastPeriod with
      | some maxAge => .ok ⟨broadcastPeriod, ⟨endpointDescUrl, maxAge⟩⟩
      | none => .panic

/-- What the timer of `broadcast_task` requires of its period, and else panics. -/
def IntervalPrecondition (period : Duration) : Prop := period.secs ≠ 0

instance (period : Duration) : Decidable (IntervalPrecondition period) := instDecidableNot

/-! ## The validity of an announcement -/

/-- The validity in seconds that is meant. -/
def intendedMaxAge (period : Duration) : Nat :=
  if period.secs.toNat < 20 then 20 else 2 * period.secs.toNat

theorem lt_two_pow_min_iff {n a b : Nat} : n < 2 ^ min a b ↔ n < 2 ^ a ∧ n < 2 ^ b := by
  have hmono {a b : Nat} (hle : a ≤ b) (h : n < 2 ^ a) : n < 2 ^ b :=
    Nat.lt_of_lt_of_le h (Nat.pow_le_pow_right (by decide) hle)
  rcases Nat.le_total a b with hle | hle
  · rw [Nat.min_eq_left hle]
    exact (and_iff_left_of_imp (hmono hle)).symm
  · rw [Nat.min_eq_right hle]
    exact (and_iff_right_of_imp (hmono hle)).symm

theorem small_fits (t : Target) {n : Nat} (h : n < 2 ^ 32) : n < 2 ^ t.bits :=
  Nat.lt_of_lt_of_le h (Nat.pow_le_pow_right (by decide) t.wide)

theorem cacheMaxAge_short (t : Target) {period : Duration} (h : period.secs.toNat < 20) :
    cacheMaxAge t period = some 20 := by
  have hlt : period.secs < 20 := UInt64.lt_iff_toNat_lt.mpr h
  show (if period.secs < 20 then some 20 else _).map (asUsize t) = _
  rw [if_pos hlt, Option.map_some, asUsize]
  exact congrArg some (Nat.mod_eq_of_lt (small_fits t (by decide)))

/-- A longer period is doubled, in 64 bits and then in those of the target. -/
theorem cacheMaxAge_long (t : Target) {period : Duration} (h : ¬ period.secs.toNat < 20) :
    cacheMaxAge t period = if 2 * period.secs.toNat < 2 ^ 64 then
      some (2 * period.secs.toNat % 2 ^ t.bits)
    else if t.overflowChecks then none
    else some (2 * period.secs.toNat % 2 ^ 64 % 2 ^ t.bits) := by
  have hlt : ¬ period.secs < 20 := mt UInt64.lt_iff_toNat_lt.mp h
  have hmul : (period.secs * 2).toNat = 2 * period.secs.toNat % 2 ^ 64 := by
    rw [UInt64.toNat_mul, Nat.mul_comm]
    rfl
  have htwo : period.secs.toNat * (2 : UInt64).toNat = 2 * period.secs.toNat := Nat.mul_comm _ _
  show (if period.secs < 20 then some 20 else _).map (asUsize t) = _
  rw [if_neg hlt, u64Mul, htwo]
  split
  · next hfit => rw [Option.map_some, asUsize, hmul, Nat.mod_eq_of_lt hfit]
  · split
    · rfl
    · rw [Option.map_some, asUsize, hmul]

/-- The validity is the intended one just where twice the period fits. -/
theorem cacheMaxAge_eq_iff (t : Target) (period : Duration) :
    cacheMaxAge t period = some (intendedMaxAge period) ↔
      2 * period.secs.toNat < 2 ^ min t.bits 64 := by
  rw [lt_two_pow_min_iff, intendedMaxAge]
  by_cases hshort : period.secs.toNat < 20
  · rw [cacheMaxAge_short t hshort, if_pos hshort]
    exact iff_of_true rfl ⟨small_fits t (by omega), by omega⟩
  · rw [cacheMaxAge_long t hshort, if_neg hshort]
    split
    · next hfit =>
      rw [Option.some.injEq, Nat.mod_eq_iff_lt (Nat.two_pow_pos _).ne']
      exact (and_iff_left hfit).symm
    · next hfit =>
      refine iff_of_false ?_ fun h => hfit h.2
      split
      · nofun
      · intro heq
        have hle := Nat.mod_le (2 * period.secs.toNat % 2 ^ 64) (2 ^ t.bits)
        have hlt := Nat.mod_lt (2 * period.secs.toNat) (Nat.two_pow_pos 64)
        rw [Option.some.inj heq] at hle
        exact hfit (Nat.lt_of_le_of_lt hle hlt)

/-! ## Announcements -/

/-- What is announced for that period is valid for longer than the interval: the
manager is made, the timer takes its period, the validity is the intended one and
more than the period, and the packets say so. -/
def Outlives (t : Target) (descUrl : Str) (period : Duration) : Prop :=
  ∃ manager, SSDPManager.new t (.ok ()) (.ok ()) descUrl period = .ok manager ∧
    manager.broadcastPeriod = period ∧ IntervalPrecondition manager.broadcastPeriod ∧
    manager.interactiveSsdp.cacheMaxAge = intendedMaxAge period ∧
    period.secs.toNat < manager.interactiveSsdp.cacheMaxAge ∧
    ∀ now info, (manager.interactiveSsdp.alive info).header now "CACHE-CONTROL".toList =
      some ("max-age=".toList ++ decimal manager.interactiveSsdp.cacheMaxAge)

theorem lt_intendedMaxAge {period : Duration} (h : IntervalPrecondition period) :
    period.secs.toNat < intendedMaxAge period := by
  have hpos : period.secs.toNat ≠ 0 := fun hz => h (UInt64.toNat_inj.mp hz)
  unfold intendedMaxAge
  split <;> omega

theorem new_eq_ok_iff {t : Target} {descUrl : Str} {period : Duration} {manager : SSDPManager} :
    SSDPManager.new t (.ok ()) (.ok ()) descUrl period = .ok manager ↔
      ∃ maxAge, cacheMaxAge t period = some maxAge ∧ manager = ⟨period, ⟨descUrl, maxAge⟩⟩ := by
  simp only [SSDPManager.new, context]
  cases cacheMaxAge t period <;> simp [eq_comm]

theorem outlives_iff (t : Target) (descUrl : Str) (period : Duration) :
    Outlives t descUrl period ↔
      IntervalPrecondition period ∧ cacheMaxAge t period = some (intendedMaxAge period) := by
  constructor
  · rintro ⟨manager, hnew, hperiod, hpos, hage, _, _⟩
    obtain ⟨maxAge, hmax, rfl⟩ := new_eq_ok_iff.mp hnew
    exact ⟨hpos, hmax.trans (congrArg some hage)⟩
  · rintro ⟨hpos, hage⟩
    exact ⟨⟨period, ⟨descUrl, intendedMaxAge period⟩⟩, new_eq_ok_iff.mpr ⟨_, hage, rfl⟩, rfl, hpos,
      rfl, lt_intendedMaxAge hpos, fun _ _ => rfl⟩

/-- **Every period is admitted, and an announcement outlives the interval exactly
where that is not zero and twice of it fits.** -/
theorem announcement_outlives_iff {Url : Type} (t : Target) (env : Env Url) (url : Url) (descUrl : Str)
    (period : Duration) : (∃ args config, getConfig env args = .ok config ∧ config.period = period) ∧
      (Outlives t descUrl period ↔
        0 < period.secs.toNat ∧ 2 * period.secs.toNat < 2 ^ min t.bits 64) := by
  obtain ⟨config, hconfig, hperiod⟩ := getConfig_interval env url period.secs
  refine ⟨⟨intervalArgs url period.secs, config, hconfig, hperiod⟩, ?_⟩
  have hpos : IntervalPrecondition period ↔ 0 < period.secs.toNat := by
    rw [IntervalPrecondition, Nat.pos_iff_ne_zero, ne_eq, ne_eq, not_iff_not]
    exact UInt64.toNat_inj.symm
  rw [outlives_iff, cacheMaxAge_eq_iff, hpos]

/-! ## Periods that are not outlived -/

/-- A build for 32 bits. -/
def build32 : Target := ⟨32, false, Target.wide32⟩

/-- There is no timer for a period of zero, and periods of 2 ^ 31 and of 2 ^ 63 leave
a validity of zero. -/
theorem not_outlives : ¬ Outlives release64 sampleHelper.remoteDescUrl ⟨0⟩ ∧
    ¬ Outlives build32 sampleHelper.remoteDescUrl ⟨2 ^ 31⟩ ∧
    ¬ Outlives release64 sampleHelper.remoteDescUrl ⟨2 ^ 63⟩ := by
  simp only [outlives_iff, cacheMaxAge_eq_iff]
  decide

end DlnaProxy.Ssdp
