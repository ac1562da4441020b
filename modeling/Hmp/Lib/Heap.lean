import Mathlib.Data.Nat.Notation
import Mathlib.Logic.Function.Basic

/-! Stores of objects that are named in the order of their creation. A name is never used again. -/

namespace HMP

/-- `get i`: the object `i`, if it has been created and not freed. -/
structure Heap (α : Type) where
  get : ℕ → Option α := fun _ => none
  next : ℕ := 0
  get_of_le : ∀ i, next ≤ i → get i = none := by intros; rfl

namespace Heap

variable {α : Type}

@[simp] theorem get_next (h : Heap α) : h.get h.next = none := h.get_of_le _ (Nat.le_refl _)

theorem lt_next {h : Heap α} {i : ℕ} {a : α} (hg : h.get i = some a) : i < h.next := by
  by_contra hle
  rw [h.get_of_le i (Nat.le_of_not_lt hle)] at hg
  cases hg

/-- The new object is `h.next`. -/
def alloc (h : Heap α) (a : α) : Heap α where
  get := Function.update h.get h.next (some a)
  next := h.next + 1
  get_of_le i hi := by
    rw [Function.update_of_ne (Nat.ne_of_gt hi), h.get_of_le i (Nat.le_of_succ_le hi)]

def free (h : Heap α) (i : ℕ) : Heap α where
  get := Function.update h.get i none
  next := h.next
  get_of_le j hj := by
    by_cases hji : j = i
    · rw [hji, Function.update_self]
    · rw [Function.update_of_ne hji, h.get_of_le j hj]

/-- Changes an object that there is. -/
def modify (h : Heap α) (i : ℕ) (f : α → α) : Heap α where
  get := Function.update h.get i ((h.get i).map f)
  next := h.next
  get_of_le j hj := by
    by_cases hji : j = i
    · rw [hji, Function.update_self, ← hji, h.get_of_le j hj, Option.map_none]
    · rw [Function.update_of_ne hji, h.get_of_le j hj]

@[simp] theorem alloc_get_self (h : Heap α) (a : α) : (h.alloc a).get h.next = some a :=
  Function.update_self ..

/-- Objects stay when others are created, freed or changed. -/
theorem alloc_get_of_ne (h : Heap α) (a : α) {i : ℕ} (hi : i ≠ h.next) :
    (h.alloc a).get i = h.get i := Function.update_of_ne hi ..

theorem alloc_get_of_some {h : Heap α} {i : ℕ} {b : α} (a : α) (hg : h.get i = some b) :
    (h.alloc a).get i = some b := by
  rw [alloc_get_of_ne h a (Nat.ne_of_lt (lt_next hg)), hg]

@[simp] theorem free_get_self (h : Heap α) (i : ℕ) : (h.free i).get i = none :=
  Function.update_self ..

theorem free_get_of_ne (h : Heap α) {i j : ℕ} (hj : j ≠ i) : (h.free i).get j = h.get j :=
  Function.update_of_ne hj ..

theorem free_get_some {h : Heap α} {i j : ℕ} {a : α} (hg : (h.free i).get j = some a) :
    j ≠ i ∧ h.get j = some a := by
  by_cases hj : j = i
  · rw [hj, free_get_self] at hg
    cases hg
  · rw [free_get_of_ne h hj] at hg
    exact ⟨hj, hg⟩

theorem alloc_get_some {h : Heap α} {i : ℕ} {a b : α} (hg : (h.alloc a).get i = some b) :
    i = h.next ∧ b = a ∨ h.get i = some b := by
  by_cases hi : i = h.next
  · rw [hi, alloc_get_self] at hg
    exact .inl ⟨hi, (Option.some.inj hg).symm⟩
  · rw [alloc_get_of_ne h a hi] at hg
    exact .inr hg

theorem modify_get_of_ne (h : Heap α) (f : α → α) {i j : ℕ} (hj : j ≠ i) :
    (h.modify i f).get j = h.get j := Function.update_of_ne hj ..

/-- Freeing what has just been created leaves what there was before. -/
@[simp] theorem free_alloc_get (h : Heap α) (a : α) : ((h.alloc a).free h.next).get = h.get := by
  funext i
  by_cases hi : i = h.next
  · rw [hi, free_get_self, get_next]
  · rw [free_get_of_ne _ hi, alloc_get_of_ne h a hi]

@[simp] theorem free_modify_get (h : Heap α) (i : ℕ) (f : α → α) :
    ((h.modify i f).free i).get = (h.free i).get := by
  funext j
  by_cases hj : j = i
  · rw [hj, free_get_self, free_get_self]
  · rw [free_get_of_ne _ hj, modify_get_of_ne h f hj, free_get_of_ne h hj]

end Heap

end HMP
