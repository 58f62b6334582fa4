import Mathlib

/-!
# Transition systems

A system takes an event in a state or refuses it. A run is the state after a list
of events, all of them taken. What every step keeps, every run keeps. Of systems that
take their events in any order each runs over its own.
-/
namespace DlnaProxy.Lib.Transition

variable {σ ε : Type} {step : σ → ε → Option σ} {s s' : σ} {e : ε} {events more : List ε}

def run (step : σ → ε → Option σ) (s : σ) (events : List ε) : Option σ := events.foldlM step s

@[simp] theorem run_nil : run step s [] = some s := rfl

@[simp] theorem run_cons : run step s (e :: events) = (step s e).bind fun s' => run step s' events := by
  rw [run, List.foldlM_cons]
  rfl

theorem run_append :
    run step s (events ++ more) = (run step s events).bind fun s' => run step s' more := by
  rw [run, List.foldlM_append]
  rfl

theorem run_concat_eq_some : run step s (events ++ [e]) = some s' ↔
    ∃ mid, run step s events = some mid ∧ step mid e = some s' := by
  rw [run_append, Option.bind_eq_some_iff]
  simp

theorem run_through {mid next : σ} (hbefore : run step s events = some mid)
    (hstep : step mid e = some next) (hafter : run step next more = some s') :
    run step s (events ++ e :: more) = some s' := by
  rw [run_append, hbefore, Option.bind_some, run_cons, hstep, Option.bind_some, hafter]

/-- **What every step keeps of a state and its past holds after every run.** -/
theorem run_history {P : List ε → σ → Prop}
    (hstep : ∀ {past s e s'}, P past s → step s e = some s' → P (past ++ [e]) s')
    (h : P [] s) (hrun : run step s events = some s') : P events s' := by
  induction events using List.reverseRecOn generalizing s' with
  | nil =>
    obtain rfl := Option.some.inj hrun
    exact h
  | append_singleton events e ih =>
    obtain ⟨mid, hbefore, hlast⟩ := run_concat_eq_some.mp hrun
    exact hstep (ih hbefore) hlast

/-- What an event adds to a count over the history. -/
theorem countP_concat (p : ε → Bool) (past : List ε) (e : ε) :
    (past ++ [e]).countP p = past.countP p + (p e).toNat := by
  rw [List.countP_append, List.countP_singleton]
  cases p e <;> rfl

/-- **What every step keeps holds after every run.** -/
theorem run_invariant {P : σ → Prop} (hstep : ∀ {s e s'}, P s → step s e = some s' → P s')
    (h : P s) (hrun : run step s events = some s') : P s' :=
  run_history (P := fun _ s => P s) hstep h hrun

/-- Every step of the run meets the condition. -/
def Meets (step : σ → ε → Option σ) (C : σ → ε → Prop) (s : σ) (events : List ε) : Prop :=
  ∀ before e after mid, events = before ++ e :: after → run step s before = some mid → C mid e

namespace Meets

variable {C : σ → ε → Prop}

/-- What is met along two runs one behind the other is met along both together. -/
theorem append (hfirst : Meets step C s events) (hrun : run step s events = some s')
    (hrest : Meets step C s' more) : Meets step C s (events ++ more) := by
  intro before e after mid h hbefore
  rcases List.append_eq_append_iff.mp h with ⟨w, rfl, hmore⟩ | ⟨w, rfl, hw⟩
  · rw [run_append, hrun, Option.bind_some] at hbefore
    exact hrest w e after mid hmore hbefore
  · cases w with
    | nil =>
      rw [List.append_nil] at hrun hfirst
      obtain rfl := Option.some.inj (hrun.symm.trans hbefore)
      exact hrest [] e after s' hw.symm rfl
    | cons e' w =>
      obtain ⟨rfl, rfl⟩ := List.cons.inj hw
      exact hfirst before e w mid rfl hbefore

theorem cons (here : C s e) (hstep : step s e = some s') (hrest : Meets step C s' events) :
    Meets step C s (e :: events) := by
  have hone : Meets step C s [e] := by
    intro before e' after mid h hbefore
    cases before with
    | nil =>
      obtain ⟨rfl, rfl⟩ := List.cons.inj h
      obtain rfl := Option.some.inj hbefore
      exact here
    | cons e'' before => exact absurd (List.cons.inj h).2.symm (by simp)
  exact hone.append (by rw [run_cons, hstep]; rfl) hrest

theorem of_forall (h : ∀ e ∈ events, ∀ s, C s e) : Meets step C s events := by
  intro before e after mid hevents _
  exact h e (by rw [hevents]; simp) mid

end Meets

/-- The property holds in every state of the run. -/
def Always (step : σ → ε → Option σ) (P : σ → Prop) (s : σ) (events : List ε) : Prop :=
  ∀ before mid, before <+: events → run step s before = some mid → P mid

/-! ## Systems side by side -/

section Interleaving

variable {ι : Type} [DecidableEq ι] {steps : ι → σ → ε → Option σ} {states states' : ι → σ}

/-- One of the systems takes its event, the others stay where they are. -/
def interleave (steps : ι → σ → ε → Option σ) (states : ι → σ) (e : ι × ε) : Option (ι → σ) :=
  (steps e.1 (states e.1) e.2).map (Function.update states e.1)

/-- The events of one of the systems. -/
def eventsAt (i : ι) (events : List (ι × ε)) : List ε :=
  events.filterMap fun e => if e.1 = i then some e.2 else none

theorem mem_eventsAt {i : ι} {events : List (ι × ε)} : e ∈ eventsAt i events ↔ (i, e) ∈ events := by
  simp only [eventsAt, List.mem_filterMap, Option.ite_none_right_eq_some, Option.some.injEq]
  constructor
  · intro ⟨e', hmem, hi, he⟩
    rwa [← hi, ← he]
  · intro hmem
    exact ⟨(i, e), hmem, rfl, rfl⟩

/-- **Each system runs over its own events**, however the systems are interleaved. -/
theorem run_eventsAt {events : List (ι × ε)} (h : run (interleave steps) states events = some states')
    (i : ι) : run (steps i) (states i) (eventsAt i events) = some (states' i) := by
  refine run_history (P := fun past t => run (steps i) (states i) (eventsAt i past) = some (t i)) ?_ rfl h
  intro past t e t' ih hstep
  obtain ⟨next, hnext, rfl⟩ := Option.map_eq_some_iff.mp hstep
  rw [eventsAt, List.filterMap_append, run_append]
  rw [eventsAt] at ih
  rw [ih, Option.bind_some]
  by_cases hi : e.1 = i
  · subst hi
    simp [hnext]
  · simp [hi, Function.update_of_ne (Ne.symm hi)]

end Interleaving

end DlnaProxy.Lib.Transition
