import DlnaProxy.Lib.Lines

/-!
# Replacing an anchored pattern

A pattern `x :: p` is anchored if `x` does not come again in it. Its occurrences do
not overlap, and no occurrence reaches over an `x`, so that a replacement acts on
what stands before an `x` and from it on apart. `Partly` says that some occurrences
are replaced and some are left, and how many are left.
-/
namespace DlnaProxy.Lib.Utf8

variable {α : Type} [DecidableEq α]

/-! ## Occurrences -/

section Suffixes

variable {w s : List α} {Q : List α → Prop}

omit [DecidableEq α] in
theorem exists_suffix_cons {c : α} : (∃ t, t <:+ c :: s ∧ Q t) ↔ Q (c :: s) ∨ ∃ t, t <:+ s ∧ Q t := by
  constructor
  · rintro ⟨t, ht, hq⟩
    rcases List.suffix_cons_iff.mp ht with rfl | ht
    · exact Or.inl hq
    · exact Or.inr ⟨t, ht, hq⟩
  · rintro (hq | ⟨t, ht, hq⟩)
    · exact ⟨_, List.suffix_rfl, hq⟩
    · exact ⟨t, ht.trans (List.suffix_cons c s), hq⟩

omit [DecidableEq α] in
/-- Nothing starts in a stretch that has none of the characters it starts with. -/
theorem exists_suffix_append (hQ : ∀ t, Q t → ∀ c ∈ t.head?, c ∉ w) :
    (∃ t, t <:+ w ++ s ∧ Q t) ↔ ∃ t, t <:+ s ∧ Q t := by
  induction w with
  | nil => rfl
  | cons c w ih =>
    have hc : ¬ Q (c :: (w ++ s)) := fun hq => hQ _ hq c rfl List.mem_cons_self
    rw [List.cons_append, exists_suffix_cons, or_iff_right hc]
    exact ih fun t hq c' hc' hm => hQ t hq c' hc' (List.mem_cons_of_mem c hm)

end Suffixes

/-! ## Replacement -/

section Anchored

variable {x : α} {p : List α} (hx : x ∉ p) (repl : List α)

/-- Nothing is replaced in a stretch without `x`. -/
theorem replace_append_of_not_mem {w : List α} (hw : x ∉ w) (s : List α) :
    replace (x :: p) repl (w ++ s) = w ++ replace (x :: p) repl s := by
  induction w with
  | nil => rfl
  | cons c w ih =>
    have hm : ¬ (x :: p) <+: c :: (w ++ s) := by
      rw [List.cons_prefix_cons]
      rintro ⟨rfl, _⟩
      exact hw List.mem_cons_self
    rw [List.cons_append, replace_skip (List.cons_ne_nil x p) repl hm,
      ih fun h => hw (List.mem_cons_of_mem c h)]
    rfl

include hx

/-- What stands before an `x` is replaced apart. -/
theorem replace_append_anchor (a s : List α) : replace (x :: p) repl (a ++ x :: s) =
    replace (x :: p) repl a ++ replace (x :: p) repl (x :: s) := by
  have hne : x :: p ≠ [] := List.cons_ne_nil x p
  refine replace_induction hne (P := fun a => replace (x :: p) repl (a ++ x :: s) =
    replace (x :: p) repl a ++ replace (x :: p) repl (x :: s)) ?_ ?_ ?_ a
  · rw [replace_nil hne]
    rfl
  · intro a ih
    rw [List.append_assoc, replace_match hne, replace_match hne, ih, List.append_assoc]
  · intro c a hm ih
    have hm' : ¬ (x :: p) <+: c :: (a ++ x :: s) := by
      rw [List.cons_prefix_cons] at hm ⊢
      rintro ⟨rfl, hp⟩
      exact hm ⟨rfl, (prefix_append_cons_iff hx a s).mp hp⟩
    rw [List.cons_append, replace_skip hne repl hm', ih, replace_skip hne repl hm]
    rfl

end Anchored

section Head

variable {x : α} (p q : List α)

/-- A replacement that starts with `x` as well keeps what a text starts with. -/
theorem head?_replace (s : List α) : (replace (x :: p) (x :: q) s).head? = s.head? := by
  have hne : x :: p ≠ [] := List.cons_ne_nil x p
  cases s with
  | nil => rw [replace_nil hne]
  | cons c s =>
    by_cases hm : (x :: p) <+: c :: s
    · obtain ⟨t, ht⟩ := hm
      rw [← ht, replace_match hne]
      rfl
    · rw [replace_skip hne _ hm]
      rfl

/-- And what is not replaced of the result stands in the text. -/
theorem exists_of_replace_eq_append {w s out : List α} (hw : x ∉ w)
    (h : replace (x :: p) (x :: q) s = w ++ out) :
    ∃ s', s = w ++ s' ∧ replace (x :: p) (x :: q) s' = out := by
  have hne : x :: p ≠ [] := List.cons_ne_nil x p
  induction w generalizing s with
  | nil => exact ⟨s, rfl, h⟩
  | cons c w ih =>
    have hhead : (replace (x :: p) (x :: q) s).head? = s.head? := head?_replace p q s
    rw [h, List.cons_append, List.head?_cons] at hhead
    obtain ⟨s', rfl⟩ := List.head?_eq_some_iff.mp hhead.symm
    have hm : ¬ (x :: p) <+: c :: s' := by
      rw [List.cons_prefix_cons]
      rintro ⟨rfl, _⟩
      exact hw List.mem_cons_self
    rw [replace_skip hne _ hm, List.cons_append, List.cons.injEq] at h
    obtain ⟨s'', rfl, hs''⟩ := ih (fun hm => hw (List.mem_cons_of_mem c hm)) h.2
    exact ⟨s'', rfl, hs''⟩

/-- What starts with none of the characters after `x` starts in the result where it starts
in the text. -/
theorem exists_suffix_replace {Q : List α → Prop}
    (hQ : ∀ t, Q t → ∀ c ∈ t.head?, c ∉ p ∧ c ∉ q) (s : List α) :
    (∃ t, t <:+ replace (x :: p) (x :: q) s ∧ Q t) ↔
      ∃ t, t <:+ s ∧ Q (replace (x :: p) (x :: q) t) := by
  have hne : x :: p ≠ [] := List.cons_ne_nil x p
  have hq (t : List α) (h : Q t) : ∀ c ∈ t.head?, c ∉ q := fun c hc => (hQ t h c hc).2
  have hp (t : List α) (h : Q (replace (x :: p) (x :: q) t)) : ∀ c ∈ t.head?, c ∉ p :=
    fun c hc => (hQ _ h c (head?_replace p q t ▸ hc)).1
  refine replace_induction hne (P := fun s => (∃ t, t <:+ replace (x :: p) (x :: q) s ∧ Q t) ↔
    ∃ t, t <:+ s ∧ Q (replace (x :: p) (x :: q) t)) ?_ ?_ ?_ s
  · rw [replace_nil hne]
    simp only [List.suffix_nil, exists_eq_left, replace_nil hne]
  · intro s ih
    have hmatch := replace_match hne (x :: q) s
    rw [List.cons_append, List.cons_append] at hmatch
    rw [List.cons_append, hmatch, exists_suffix_cons, exists_suffix_cons, hmatch,
      exists_suffix_append hq, exists_suffix_append hp, ih]
  · intro c s hm ih
    rw [replace_skip hne _ hm, exists_suffix_cons, exists_suffix_cons, replace_skip hne _ hm, ih]

end Head

/-! ## Some occurrences -/

/-- Some occurrences are replaced, and `k` are left. -/
inductive Partly (pat repl : List α) : Nat → List α → List α → Prop
  | nil : Partly pat repl 0 [] []
  | replaced {k : Nat} {s out : List α} : Partly pat repl k s out →
    Partly pat repl k (pat ++ s) (repl ++ out)
  | left {k : Nat} {s out : List α} : Partly pat repl k s out →
    Partly pat repl (k + 1) (pat ++ s) (pat ++ out)
  | kept {k : Nat} {c : α} {s out : List α} : ¬ pat <+: c :: s → Partly pat repl k s out →
    Partly pat repl k (c :: s) (c :: out)

namespace Partly

variable {pat repl s out : List α} {k : Nat}

omit [DecidableEq α] in
/-- None is replaced in a stretch without the first character. -/
theorem append_of_not_mem {x : α} {p w : List α} (h : Partly (x :: p) repl k s out) (hw : x ∉ w) :
    Partly (x :: p) repl k (w ++ s) (w ++ out) := by
  induction w with
  | nil => exact h
  | cons c w ih =>
    refine .kept ?_ (ih fun hm => hw (List.mem_cons_of_mem c hm))
    rw [List.cons_prefix_cons]
    rintro ⟨rfl, _⟩
    exact hw List.mem_cons_self

theorem length (hne : pat ≠ []) (h : Partly pat repl k s out) :
    (replace pat repl s).length + k * pat.length = out.length + k * repl.length := by
  induction h with
  | nil => rw [replace_nil hne]; simp
  | replaced _ ih =>
    rw [replace_match hne, List.length_append, List.length_append]
    omega
  | left _ ih =>
    rw [replace_match hne, List.length_append, List.length_append, Nat.succ_mul, Nat.succ_mul]
    omega
  | kept hm _ ih =>
    rw [replace_skip hne repl hm, List.length_cons, List.length_cons]
    omega

/-- Where one is left, the replacement differs, unless it is the pattern. -/
theorem pos_of_eq (hne : pat ≠ []) (hlen : pat.length = repl.length) (hdiff : pat ≠ repl)
    (h : Partly pat repl k s out) (heq : replace pat repl s = out) : k = 0 := by
  induction h with
  | nil => rfl
  | replaced _ ih =>
    rw [replace_match hne, List.append_right_inj] at heq
    exact ih heq
  | left _ _ =>
    rw [replace_match hne] at heq
    exact absurd (List.append_inj_left heq hlen.symm).symm hdiff
  | kept hm _ ih =>
    rw [replace_skip hne repl hm, List.cons.injEq] at heq
    exact ih heq.2

theorem eq_replace (hne : pat ≠ []) (h : Partly pat repl k s out) (hk : k = 0 ∨ pat = repl) :
    replace pat repl s = out := by
  induction h with
  | nil => exact replace_nil hne repl
  | replaced _ ih => rw [replace_match hne, ih hk]
  | left _ ih =>
    rcases hk with hk | rfl
    · exact absurd hk (Nat.succ_ne_zero _)
    · rw [replace_match hne, ih (Or.inr rfl)]
  | kept hm _ ih => rw [replace_skip hne repl hm, ih hk]

/-- **The replacement leaves no occurrence.** -/
theorem eq_replace_iff (hne : pat ≠ []) (h : Partly pat repl k s out) :
    replace pat repl s = out ↔ k = 0 ∨ pat = repl := by
  refine ⟨fun heq => ?_, h.eq_replace hne⟩
  by_cases hdiff : pat = repl
  · exact Or.inr hdiff
  · by_cases hlen : pat.length = repl.length
    · exact Or.inl (h.pos_of_eq hne hlen hdiff heq)
    · have hsum := h.length hne
      rw [heq, Nat.add_left_cancel_iff] at hsum
      rcases Nat.eq_zero_or_pos k with hk | hk
      · exact Or.inl hk
      · exact absurd (Nat.eq_of_mul_eq_mul_left hk hsum) hlen

end Partly

end DlnaProxy.Lib.Utf8
