import Mathlib

/-!
# Growing vectors

A vector that a slice no longer fits grows to twice its capacity or to the length it
needs, whichever is more, and to no less than a minimum. So its capacity runs ahead of
its length, by a factor of two at most, and depends on the lengths of the slices alone.
-/
namespace DlnaProxy.Lib.Growth

/-- The least capacity of a vector with room for elements of one byte. -/
def minNonZeroCap : Nat := 8

def grownCapacity (capacity required : Nat) : Nat :=
  if required ≤ capacity then capacity else max (max (capacity * 2) required) minNonZeroCap

theorem le_grownCapacity (capacity required : Nat) : capacity ≤ grownCapacity capacity required := by
  unfold grownCapacity
  split <;> omega

theorem required_le_grownCapacity (capacity required : Nat) :
    required ≤ grownCapacity capacity required := by
  unfold grownCapacity
  split <;> omega

/-- A vector grows only where its capacity is below what it needs. -/
theorem grownCapacity_le {capacity required bound : Nat} (hcapacity : capacity ≤ max 8 bound)
    (hrequired : 2 * required - 2 ≤ bound) : grownCapacity capacity required ≤ max 8 bound := by
  unfold grownCapacity minNonZeroCap
  split <;> omega

/-- The capacity of an empty vector that slices of these lengths extend. -/
def capacityAfter (sizes : List Nat) : Nat :=
  (sizes.foldl (fun (len, capacity) size => (len + size, grownCapacity capacity (len + size)))
    (0, 0)).2

structure Vec (α : Type) where
  toList : List α
  capacity : Nat
  length_le : toList.length ≤ capacity

namespace Vec

variable {α : Type}

def new : Vec α where
  toList := []
  capacity := 0
  length_le := by rw [List.length_nil]

def extended (v : Vec α) (slice : List α) : Vec α where
  toList := v.toList ++ slice
  capacity := grownCapacity v.capacity (v.toList.length + slice.length)
  length_le := by
    rw [List.length_append]
    exact required_le_grownCapacity _ _

def extendedAll (v : Vec α) (slices : List (List α)) : Vec α := slices.foldl extended v

@[simp] theorem toList_new : (new : Vec α).toList = [] := rfl

@[simp] theorem capacity_new : (new : Vec α).capacity = 0 := rfl

@[simp] theorem toList_extended (v : Vec α) (slice : List α) :
    (v.extended slice).toList = v.toList ++ slice := rfl

@[simp] theorem extendedAll_nil (v : Vec α) : v.extendedAll [] = v := rfl

@[simp] theorem extendedAll_cons (v : Vec α) (slice : List α) (slices : List (List α)) :
    v.extendedAll (slice :: slices) = (v.extended slice).extendedAll slices := rfl

@[simp] theorem toList_extendedAll (v : Vec α) (slices : List (List α)) :
    (v.extendedAll slices).toList = v.toList ++ slices.flatten := by
  induction slices generalizing v with
  | nil => simp
  | cons slice slices ih => simp [ih]

theorem extendedAll_append (v : Vec α) (front back : List (List α)) :
    v.extendedAll (front ++ back) = (v.extendedAll front).extendedAll back := List.foldl_append

theorem capacity_le_extendedAll (v : Vec α) (slices : List (List α)) :
    v.capacity ≤ (v.extendedAll slices).capacity := by
  induction slices generalizing v with
  | nil => exact Nat.le_refl _
  | cons slice slices ih => exact (le_grownCapacity _ _).trans (ih (v.extended slice))

/-- A vector that has grown from nothing is less than twice as large as what it holds. -/
def Grown (v : Vec α) : Prop := v.capacity ≤ max 8 (2 * v.toList.length - 2)

theorem grown_new : (new : Vec α).Grown := Nat.zero_le _

theorem Grown.extended {v : Vec α} (h : v.Grown) (slice : List α) : (v.extended slice).Grown := by
  unfold Grown at h ⊢
  rw [toList_extended, List.length_append]
  apply grownCapacity_le
  · omega
  · omega

theorem Grown.extendedAll {v : Vec α} (h : v.Grown) (slices : List (List α)) :
    (v.extendedAll slices).Grown := by
  induction slices generalizing v with
  | nil => exact h
  | cons slice slices ih => exact ih (h.extended slice)

theorem foldl_grow (v : Vec α) (slices : List (List α)) :
    (slices.map List.length).foldl
      (fun (len, capacity) size => (len + size, grownCapacity capacity (len + size)))
      (v.toList.length, v.capacity) =
        ((v.extendedAll slices).toList.length, (v.extendedAll slices).capacity) := by
  induction slices generalizing v with
  | nil => rfl
  | cons slice slices ih =>
    rw [extendedAll_cons, ← ih (v.extended slice), toList_extended, List.length_append]
    rfl

theorem capacity_extendedAll_new (slices : List (List α)) :
    (new.extendedAll slices).capacity = capacityAfter (slices.map List.length) :=
  (congrArg Prod.snd (foldl_grow new slices)).symm

end Vec

/-- **The capacity is at most twice the length**, or the minimum. -/
theorem capacityAfter_le (sizes : List Nat) : capacityAfter sizes ≤ max 8 (2 * sizes.sum - 2) := by
  have hgrown := (Vec.grown_new (α := Unit)).extendedAll (sizes.map fun n => List.replicate n ())
  have hlengths : (sizes.map fun n => List.replicate n ()).map List.length = sizes := by
    simp [Function.comp_def]
  unfold Vec.Grown at hgrown
  rw [Vec.capacity_extendedAll_new, Vec.toList_extendedAll, hlengths, Vec.toList_new,
    List.nil_append, List.length_flatten, hlengths] at hgrown
  exact hgrown

end DlnaProxy.Lib.Growth
