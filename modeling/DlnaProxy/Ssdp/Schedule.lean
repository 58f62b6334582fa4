import DlnaProxy.Lib.Timer
import DlnaProxy.Ssdp.Description
import DlnaProxy.Ssdp.Manager

/-!
# The announcements over time

`broadcast_task` on a clock that counts milliseconds. An announcement says how long it is
valid, and the next one is due an interval later. How late an attempt may be, and how many
may fail in a row, before a control point takes the device for gone follows from the two.
-/
namespace DlnaProxy.Ssdp

open DlnaProxy.Lib.Transition DlnaProxy.Lib.Timer DlnaProxy.Lib.Utf8 DlnaProxy.Net
open DlnaProxy.Configuration
open DlnaProxy.TcpProxy (Target release64)

/-- A pass of the loop: an attempt, and the wait for the tick behind it. It acts when it
sends its packet. -/
structure Broadcast extends Pass where
  attempt : Attempt

def millis (duration : Duration) : Nat := duration.secs.toNat * 1000

theorem millis_pos {period : Duration} (h : IntervalPrecondition period) : 0 < millis period := by
  have hsecs : period.secs.toNat ≠ 0 := fun hz => h (UInt64.toNat_inj.mp hz)
  rw [millis]
  omega

namespace SSDPManager

variable (manager : SSDPManager) (start : Nat) (passes : Nat → Broadcast)

/-- When the pass sends its packet. -/
def sendsAt (n : Nat) : Nat :=
  acts start (millis manager.broadcastPeriod) (fun n => (passes n).toPass) n

/-- The announcement of a pass, if it comes to one, with its time. -/
def announcement (n : Nat) : Option (Nat × SSDPPacket) :=
  (passes n).attempt.described.map fun info =>
    (manager.sendsAt start passes n, manager.interactiveSsdp.alive info)

end SSDPManager

/-! ## The passes are steps of the task -/

def Broadcast.events (pass : Broadcast) : List Event :=
  pass.attempt.replies.map (.replied .broadcaster) ++ [.ticked]

/-- The broadcaster is at the begin of a pass. -/
structure Begins (s : State) : Prop where
  running : s.exited = none
  here : s.broadcaster = .alive (.new ssdpAddress)

section Passes

variable {setup : Setup} {s : State}

theorem run_pass (h : Begins s) (pass : Broadcast) : run (State.step setup) s pass.events =
    some { s with sent := s.sent ++ pass.attempt.described.toList.map fun info =>
      ⟨.broadcaster, ssdpAddress, setup.helper.alive info⟩ } := by
  obtain ⟨hrunning, hhere⟩ := h
  have hcall : s.calling .broadcaster = some (.new ssdpAddress) := by rw [State.calling, hhere]
  have htick {t : State} (hrunning : t.exited = none) (hticking : t.broadcaster = .ticking) :
      t.step setup .ticked = some { t with broadcaster := .alive (.new ssdpAddress) } := by
    have hstep : t.step setup .ticked = t.move setup .ticked := if_neg (by simp [hrunning])
    rw [hstep, State.move, hticking]
  rw [Broadcast.events, run_append, run_attempt hrunning hcall, Option.bind_some, run_cons, htick]
  · rw [← hhere]
    rfl
  · exact hrunning
  · rfl

/-- The message of an announcement. -/
def multicast (announced : Nat × SSDPPacket) : Message := ⟨.broadcaster, ssdpAddress, announced.2⟩

/-- **The task runs over the passes**, and sends their announcements to the group. -/
theorem run_passes {manager : SSDPManager} (hhelper : setup.helper = manager.interactiveSsdp)
    (h : Begins s) (start : Nat) (passes : Nat → Broadcast) (n : Nat) :
    run (State.step setup) s ((List.range n).flatMap fun i => (passes i).events) =
      some { s with sent := s.sent ++
        ((List.range n).filterMap (manager.announcement start passes)).map multicast } := by
  induction n with
  | zero => simp
  | succ n ih =>
    have hpass (sent : List Message) := @run_pass setup { s with sent } ⟨h.running, h.here⟩ (passes n)
    rw [List.range_succ, List.flatMap_append, run_append, ih, Option.bind_some, List.flatMap_singleton,
      hpass, List.filterMap_append, List.map_append, ← List.append_assoc, hhelper]
    simp only [List.filterMap_cons, List.filterMap_nil, SSDPManager.announcement]
    cases (passes n).attempt.described <;> rfl

end Passes

/-! ## How long the device is known -/

/-- What is announced is still valid at that instant, by what the announcement says. -/
def ValidAt (t : Nat) (announced : Nat × SSDPPacket) : Prop :=
  ∀ now, ∃ maxAge, announced.2.header now "CACHE-CONTROL".toList =
      some ("max-age=".toList ++ decimal maxAge) ∧
    announced.1 ≤ t ∧ t < announced.1 + maxAge * 1000

/-- The attempts and the waits are never late by more than `delay`, and not more than
`losses` attempts in a row fail behind one that does not. -/
structure Tolerated (passes : Nat → Broadcast) (delay losses : Nat) : Prop where
  delayed : Delayed (fun n => (passes n).toPass) delay
  losing : Losing (fun n => (passes n).attempt.described.isSome) losses

/-- Whatever delays and losses there are within these bounds, the device is known from its
first announcement on. -/
def SSDPManager.KeepsKnown (manager : SSDPManager) (start delay losses : Nat) : Prop :=
  ∀ passes, Tolerated passes delay losses → ∀ n first, manager.announcement start passes n = some first →
    ∀ t, first.1 ≤ t → ∃ m announced, manager.announcement start passes m = some announced ∧
      ValidAt t announced

section Known

variable {manager : SSDPManager} {start delay losses : Nat} {passes : Nat → Broadcast}

theorem validAt_announcement {n t : Nat} {announced : Nat × SSDPPacket}
    (h : manager.announcement start passes n = some announced) : ValidAt t announced ↔
      announced.1 ≤ t ∧ t < announced.1 + manager.interactiveSsdp.cacheMaxAge * 1000 := by
  obtain ⟨info, _, rfl⟩ := Option.map_eq_some_iff.mp h
  constructor
  · intro hvalid
    obtain ⟨maxAge, hheader, hvalid⟩ := hvalid []
    have hage : "max-age=".toList ++ decimal manager.interactiveSsdp.cacheMaxAge =
        "max-age=".toList ++ decimal maxAge := Option.some.inj hheader
    rw [decimal_injective (List.append_cancel_left hage)]
    exact hvalid
  · intro hvalid now
    exact ⟨_, rfl, hvalid⟩

/-- The device is known where the grant of an announcement covers. -/
theorem known_iff_covered (t : Nat) :
    (∃ n announced, manager.announcement start passes n = some announced ∧ ValidAt t announced) ↔
      Covered start (millis manager.broadcastPeriod) (fun n => (passes n).toPass)
        (fun n => (passes n).attempt.described.isSome) (manager.interactiveSsdp.cacheMaxAge * 1000) t := by
  constructor
  · intro ⟨n, announced, hannounced, hvalid⟩
    rw [validAt_announcement hannounced] at hvalid
    obtain ⟨info, hinfo, rfl⟩ := Option.map_eq_some_iff.mp hannounced
    exact ⟨n, Option.isSome_of_eq_some hinfo, hvalid⟩
  · intro ⟨n, hsome, hvalid⟩
    obtain ⟨info, hinfo⟩ := Option.isSome_iff_exists.mp hsome
    have hannounced : manager.announcement start passes n =
        some (manager.sendsAt start passes n, manager.interactiveSsdp.alive info) := by
      rw [SSDPManager.announcement, hinfo]
      rfl
    exact ⟨n, _, hannounced, (validAt_announcement hannounced).mpr hvalid⟩

/-- The passes that are apart the furthest, and announce unless they are lost. -/
def furthestBroadcasts (info : EndpointInfo) (losses delay : Nat) (n : Nat) : Broadcast :=
  ⟨furthest losses delay n, if grantedBut losses n then .sent info else .fetchFailed getFailed⟩

theorem furthestBroadcasts_announced (info : EndpointInfo) (n : Nat) :
    (furthestBroadcasts info losses delay n).attempt.described.isSome = grantedBut losses n := by
  rw [furthestBroadcasts]
  cases grantedBut losses n <;> rfl

/-- The device is kept known just where an announcement is valid for the intervals of the
attempts that may fail, for one more, and for two delays. -/
theorem keepsKnown_iff (hperiod : IntervalPrecondition manager.broadcastPeriod)
    (hdelay : delay ≤ millis manager.broadcastPeriod) : manager.KeepsKnown start delay losses ↔
      (losses + 1) * millis manager.broadcastPeriod + 2 * delay ≤
        manager.interactiveSsdp.cacheMaxAge * 1000 := by
  have hpos := millis_pos hperiod
  constructor
  · intro hknown
    by_contra hlife
    have htolerated : Tolerated (furthestBroadcasts ⟨[], [], []⟩ losses delay) delay losses :=
      ⟨furthest_delayed losses delay, by
        simp only [furthestBroadcasts_announced]
        exact grantedBut_losing losses⟩
    have hcovered := hknown _ htolerated 0 (start, manager.interactiveSsdp.alive ⟨[], [], []⟩) rfl
      (start + manager.interactiveSsdp.cacheMaxAge * 1000) (Nat.le_add_right _ _)
    rw [known_iff_covered] at hcovered
    simp only [furthestBroadcasts_announced] at hcovered
    exact furthest_not_covered (not_le.mp hlife) hcovered
  · intro hlife passes htolerated n first hfirst t ht
    rw [known_iff_covered]
    obtain ⟨info, hinfo, rfl⟩ := Option.map_eq_some_iff.mp hfirst
    exact covered htolerated.delayed hdelay hpos htolerated.losing hlife
      (Option.isSome_of_eq_some hinfo) ht

/-- **What the schedule tolerates.** With a period of twenty seconds or more no lost
announcement is made up for, unless nothing is ever late, and a delay of half the period
is the most. A shorter period leaves room for those announcements that fit into twenty
seconds. -/
theorem keepsKnown_new_iff {t : Target} {descUrl : Str} {period : Duration}
    (hnew : SSDPManager.new t (.ok ()) (.ok ()) descUrl period = .ok manager)
    (hperiod : IntervalPrecondition period) (hfits : 2 * period.secs.toNat < 2 ^ min t.bits 64)
    (hdelay : delay ≤ millis period) : manager.KeepsKnown start delay losses ↔
      if period.secs.toNat < 20 then (losses + 1) * millis period + 2 * delay ≤ 20 * 1000
      else losses = 0 ∧ 2 * delay ≤ millis period ∨ losses = 1 ∧ delay = 0 := by
  obtain ⟨maxAge, hage, rfl⟩ := new_eq_ok_iff.mp hnew
  rw [(cacheMaxAge_eq_iff t period).mpr hfits, Option.some.injEq] at hage
  have hknown := @keepsKnown_iff ⟨period, ⟨descUrl, maxAge⟩⟩ start delay losses hperiod hdelay
  simp only [← hage, intendedMaxAge] at hknown ⊢
  rw [hknown]
  have hpos := millis_pos hperiod
  split
  · rfl
  · have hlife : 2 * period.secs.toNat * 1000 = 2 * millis period := by rw [millis, Nat.mul_assoc]
    rw [hlife]
    show (losses + 1) * millis period + _ ≤ _ ↔ _
    rcases losses with _ | _ | losses
    · omega
    · omega
    · have hmore : (losses + 2 + 1) * millis period = losses * millis period + 3 * millis period := by ring
      rw [hmore]
      omega

end Known

/-- The period of the default configuration, with attempts that take up to two seconds. -/
theorem keepsKnown_new_iff_default : ∃ manager,
    SSDPManager.new release64 (.ok ()) (.ok ()) sampleHelper.remoteDescUrl ⟨895⟩ = .ok manager ∧
      (manager.KeepsKnown 0 2000 0 ↔
        if (895 : UInt64).toNat < 20 then (0 + 1) * millis ⟨895⟩ + 2 * 2000 ≤ 20 * 1000
        else 0 = 0 ∧ 2 * 2000 ≤ millis ⟨895⟩ ∨ 0 = 1 ∧ 2000 = 0) := by
  have hfits : 2 * (⟨895⟩ : Duration).secs.toNat < 2 ^ min release64.bits 64 := by decide +kernel
  have hnew : SSDPManager.new release64 (.ok ()) (.ok ()) sampleHelper.remoteDescUrl ⟨895⟩ =
      .ok ⟨⟨895⟩, ⟨sampleHelper.remoteDescUrl, intendedMaxAge ⟨895⟩⟩⟩ :=
    new_eq_ok_iff.mpr ⟨_, (cacheMaxAge_eq_iff release64 ⟨895⟩).mpr hfits, rfl⟩
  exact ⟨_, hnew, keepsKnown_new_iff hnew (by decide) hfits (by decide +kernel)⟩

end DlnaProxy.Ssdp
