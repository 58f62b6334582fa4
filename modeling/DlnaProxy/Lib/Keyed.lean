import Mathlib.Data.List.Forall2
import Mathlib.Data.List.Nodup

/-!
# Lists with keys

The element of a key in a list whose elements have keys: the first of that key, and,
where keys repeat, the last. Where keys are distinct, a scan of the whole list for a
key is a look at that element.
-/
namespace DlnaProxy.Lib.Keyed

variable {α κ : Type} [DecidableEq κ] (key : α → κ)

def first (k : κ) (xs : List α) : Option α := xs.find? fun x => key x = k

def last (k : κ) (xs : List α) : Option α := first key k xs.reverse

section Distinct

variable {key} {xs : List α} {k : κ}

theorem first_eq_some_iff (hd : (xs.map key).Nodup) {x : α} :
    first key k xs = some x ↔ x ∈ xs ∧ key x = k := by
  constructor
  · intro h
    exact ⟨List.mem_of_find?_eq_some h, by simpa using List.find?_some h⟩
  · rintro ⟨hx, rfl⟩
    cases hfind : first key (key x) xs with
    | none => exact absurd (List.find?_eq_none.mp hfind x hx) (by simp)
    | some y =>
      have hy : key y = key x := by simpa using List.find?_some hfind
      rw [List.inj_on_of_nodup_map hd (List.mem_of_find?_eq_some hfind) hx hy]

theorem key_of_first {x : α} (h : first key k xs = some x) : key x = k := by
  simpa using List.find?_some h

theorem first_eq_none_iff : first key k xs = none ↔ ∀ x ∈ xs, key x ≠ k := by
  simp [first]

/-- Of distinct keys a fold acts on the element of its key only. -/
theorem foldl_first {β : Type} (hd : (xs.map key).Nodup) (f : β → α → β) (init : β) :
    xs.foldl (fun acc x => if key x = k then f acc x else acc) init =
      (first key k xs).elim init (f init) := by
  have hother {xs : List α} (h : ∀ x ∈ xs, key x ≠ k) (init : β) :
      xs.foldl (fun acc x => if key x = k then f acc x else acc) init = init := by
    induction xs with
    | nil => rfl
    | cons x xs ih =>
      rw [List.foldl_cons, if_neg (h x List.mem_cons_self)]
      exact ih fun y hy => h y (List.mem_cons_of_mem x hy)
  induction xs with
  | nil => rfl
  | cons x xs ih =>
    obtain ⟨hx, hd⟩ := List.nodup_cons.mp hd
    rw [List.foldl_cons, first, List.find?_cons]
    by_cases hk : key x = k
    · have hrest : ∀ y ∈ xs, key y ≠ k := fun y hy he =>
        hx (List.mem_map.mpr ⟨y, hy, he.trans hk.symm⟩)
      rw [if_pos hk, hother hrest, decide_eq_true hk]
      rfl
    · rw [if_neg hk, decide_eq_false hk]
      exact ih hd

theorem any_first (hd : (xs.map key).Nodup) (p : α → Bool) :
    xs.any (fun x => decide (key x = k) && p x) = (first key k xs).any p := by
  rw [Bool.eq_iff_iff, List.any_eq_true, Option.any_eq_true]
  constructor
  · rintro ⟨x, hx, hkp⟩
    obtain ⟨hk, hp⟩ := Bool.and_eq_true_iff.mp hkp
    exact ⟨x, (first_eq_some_iff hd).mpr ⟨hx, of_decide_eq_true hk⟩, hp⟩
  · rintro ⟨x, hx, hp⟩
    obtain ⟨hmem, hk⟩ := (first_eq_some_iff hd).mp hx
    exact ⟨x, hmem, Bool.and_eq_true_iff.mpr ⟨decide_eq_true hk, hp⟩⟩

/-- The order does not matter. -/
theorem first_perm {ys : List α} (h : xs.Perm ys) (hd : (xs.map key).Nodup) :
    first key k xs = first key k ys := by
  have hd' : (ys.map key).Nodup := (h.map key).nodup_iff.mp hd
  apply Option.ext
  intro x
  rw [first_eq_some_iff hd, first_eq_some_iff hd', h.mem_iff]

end Distinct

theorem first_append_other {k : κ} {ys : List α} (h : ∀ y ∈ ys, key y ≠ k) (xs : List α) :
    first key k (xs ++ ys) = first key k xs := by
  have hnone : first key k ys = none := first_eq_none_iff.mpr h
  rw [first] at hnone
  rw [first, List.find?_append, hnone, Option.or_none]
  rfl

/-- Lists related element by element, with their keys, are related in every key. -/
theorem first_forall₂ {r : α → α → Prop} (hkey : ∀ x y, r x y → key x = key y) {xs ys : List α}
    (h : List.Forall₂ r xs ys) (k : κ) : (first key k xs = none ∧ first key k ys = none) ∨
      ∃ x y, first key k xs = some x ∧ first key k ys = some y ∧ r x y := by
  induction h with
  | nil => exact Or.inl ⟨rfl, rfl⟩
  | @cons x y xs ys hxy _ ih =>
    rw [first, first, List.find?_cons, List.find?_cons, hkey x y hxy]
    by_cases hk : key y = k
    · rw [decide_eq_true hk]
      exact Or.inr ⟨x, y, rfl, rfl, hxy⟩
    · rw [decide_eq_false hk]
      exact ih

/-! ## The last element of a key -/

section Last

variable {key} {k : κ}

theorem last_append (xs ys : List α) :
    last key k (xs ++ ys) = (last key k ys).or (last key k xs) := by
  rw [last, first, List.reverse_append, List.find?_append]
  rfl

theorem last_singleton (x : α) : last key k [x] = if key x = k then some x else none := by
  by_cases hk : key x = k <;> simp [last, first, hk]

theorem last_eq_none_iff {xs : List α} : last key k xs = none ↔ ∀ x ∈ xs, key x ≠ k := by
  simp [last, first_eq_none_iff]

theorem last_isSome_iff {xs : List α} : (last key k xs).isSome ↔ ∃ x ∈ xs, key x = k := by
  rw [← Option.ne_none_iff_isSome, ne_eq, last_eq_none_iff]
  simp

/-- The element behind which its key does not come again. -/
theorem last_of_split {before after : List α} {x : α} (h : ∀ y ∈ after, key y ≠ key x) :
    last key (key x) (before ++ x :: after) = some x := by
  have hsplit : before ++ x :: after = before ++ [x] ++ after := by simp
  rw [hsplit, last_append, last_append, last_eq_none_iff.mpr h, Option.none_or, last_singleton,
    if_pos rfl, Option.some_or]

end Last

end DlnaProxy.Lib.Keyed
