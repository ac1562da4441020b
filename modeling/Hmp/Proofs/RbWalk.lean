import Hmp.Sanity.RbRuns
import Mathlib.Data.List.Basic

/-! Walks through a tree: `rb_first`, `rb_last`, `rb_next` and `rb_prev` follow the list of the
elements. They change nothing. -/

namespace HMP

namespace RbTree

variable {d : Side} {c : Color} {t u v : RbTree RbAddr} {a : RbAddr} {π : List (RbFrame RbAddr)}

/-- A node, or NULL. -/
def ptr : Option RbAddr → RbPtr
  | none => 0
  | some a => a.1

/-- Going down on a side ends at the last element there. -/
theorem runs_descend {fuel : ℕ} (ht : t ≠ nil) (hfuel : t.height ≤ fuel) :
    Runs (shape t π) (rbDescend d fuel t.addr) (ptr (d.extreme t.toList)) (shape t π) := by
  induction fuel generalizing t π with
  | zero =>
    cases t with
    | nil => exact absurd rfl ht
    | node c l a r => simp [height] at hfuel
  | succ fuel ih =>
    obtain rfl | ⟨c, u, a, v, rfl⟩ := nil_or_fork d t
    · exact absurd rfl ht
    · rw [height_fork] at hfuel
      rw [addr_fork]
      refine runs_link.bind ?_
      by_cases hu : u = nil
      · subst hu
        rw [if_pos (addr_eq_zero.mpr rfl), extreme_fork_nil]
        exact .pure _
      · rw [if_neg (mt addr_eq_zero.mp hu), extreme_fork hu, shape_fork]
        exact ih hu (by omega)

theorem runs_end {fuel : ℕ} (hfuel : t.height ≤ fuel) :
    Runs (shape t []) (rbEnd d fuel) (ptr (d.extreme t.toList)) (shape t []) := by
  refine runs_getRoot.bind ?_
  rw [rootAddr]
  by_cases ht : t = nil
  · subst ht
    rw [if_pos (addr_eq_zero.mpr rfl)]
    cases d <;> exact .pure _
  · rw [if_neg (mt addr_eq_zero.mp ht)]
    exact runs_descend ht hfuel

/-- Going up as long as the node hangs on side `d`. -/
theorem runs_climb {fuel : ℕ} (ht : t ≠ nil) (hfuel : π.length < fuel) :
    Runs (shape t π) (rbClimb d fuel t.addr)
      (ptr ((π.find? fun f => f.side ≠ d).map (·.elem))) (shape t π) := by
  obtain ⟨fuel, rfl⟩ := Nat.exists_eq_succ_of_ne_zero (Nat.ne_zero_of_lt hfuel)
  induction π generalizing t fuel with
  | nil =>
    refine (runs_parent_of_ne ht).bind ?_
    rw [parentAddr, if_pos rfl]
    exact .pure _
  | cons f π ih =>
    obtain ⟨e, c, a, u⟩ := f
    rw [List.length_cons] at hfuel
    obtain ⟨fuel, rfl⟩ := Nat.exists_eq_succ_of_ne_zero (show fuel ≠ 0 by omega)
    refine .of_nodup fun hnd => ?_
    have hne : t.addr ≠ u.addr := addr_ne_sib (nodup_shape.mp hnd) (.inl ht)
    refine (runs_parent_of_ne ht).bind ?_
    rw [parentAddr, if_neg a.2.1, ← shape_fork]
    by_cases hd : e = d
    · subst hd
      refine runs_link.bind ?_
      have hrest := ih (t := fork e c t a u) fork_ne_nil fuel (by omega)
      rw [addr_fork] at hrest
      rw [if_pos rfl, List.find?_cons_of_neg (by simp)]
      exact hrest
    · obtain rfl := Side.eq_other_of_ne hd
      rw [fork_other]
      refine runs_link.bind ?_
      rw [if_neg hne, List.find?_cons_of_pos (by simp)]
      exact .pure _

/-- The neighbour of a node on side `d` is the nearest element there. -/
theorem runs_neighbour {fuel : ℕ} (hfuel : π.length + u.height < fuel) :
    Runs (shape (fork d c u a v) π) (rbNeighbour d fuel a.1)
      (ptr (d.other.extreme (outTo d u π))) (shape (fork d c u a v) π) := by
  refine .of_nodup fun hnd => ?_
  have hparent : parentAddr 0 π ≠ a.1 := by
    cases π with
    | nil => exact Ne.symm a.2.1
    | cons f π =>
      intro he
      obtain rfl : f.elem = a := Subtype.ext he
      have hnd' := nodup_shape.mp hnd
      rw [fill_cons, toList_fill, List.append_assoc] at hnd'
      refine elem_notMem_of_nodup (List.nodup_append.mp (List.nodup_append.mp hnd').2.1).1 ?_
      cases d <;> simp [fork, toList]
  refine runs_parent.bind ?_
  rw [if_neg hparent]
  refine runs_link.bind ?_
  by_cases hu : u = nil
  · subst hu
    have hclimb := runs_climb (d := d) (t := fork d c nil a v) (π := π)
      fork_ne_nil (show _ < fuel by omega)
    rw [addr_fork] at hclimb
    rw [if_pos (addr_eq_zero.mpr rfl), outTo_nil, extreme_beyond]
    exact hclimb
  · rw [if_neg (mt addr_eq_zero.mp hu), extreme_outTo hu, shape_fork]
    exact runs_descend hu (by omega)

/-- A node of a tree with no repetition, and what is before and after it. -/
theorem exists_fill_of_eq {xs ys : List RbAddr} (hnd : t.toList.Nodup)
    (h : t.toList = xs ++ a :: ys) :
    ∃ c l r π, t = (node c l a r).fill π ∧ xs = before π ++ l.toList ∧
      ys = r.toList ++ after π := by
  obtain ⟨c, l, r, π, rfl⟩ := exists_fill_of_mem (a := a) (t := t) (by simp [h])
  refine ⟨c, l, r, π, rfl, ?_⟩
  rw [h] at hnd
  obtain ⟨-, hcons, hdis⟩ := List.nodup_append.mp hnd
  have hx : a ∉ xs := fun hm => hdis a hm a List.mem_cons_self rfl
  have hsplit : xs ++ a :: ys = (before π ++ l.toList) ++ a :: (r.toList ++ after π) := by
    rw [← h, toList_fill, toList]
    simp
  obtain ⟨h₁, -, h₂⟩ := (List.append_cons_inj_of_notMem hx (List.nodup_cons.mp hcons).1).mp hsplit
  exact ⟨h₁, h₂⟩

section Neighbours

variable {xs ys : List RbAddr} {fuel : ℕ}

/-- `rb_next` goes to the element behind. -/
theorem runs_next (hfuel : t.height < fuel) (h : t.toList = xs ++ a :: ys) :
    Runs (shape t []) (rbNext fuel a.1) (ptr ys.head?) (shape t []) := by
  refine .of_nodup fun hnd => ?_
  obtain ⟨c, l, r, π, rfl, rfl, rfl⟩ := exists_fill_of_eq (nodup_shape.mp hnd) h
  have hlen := add_height_le_height_fill (node c l a r) π
  simp only [height] at hlen
  rw [shape_fill]
  exact runs_neighbour (d := .right) (u := r) (v := l) (by omega)

/-- `rb_prev` goes to the element in front. -/
theorem runs_prev (hfuel : t.height < fuel) (h : t.toList = xs ++ a :: ys) :
    Runs (shape t []) (rbPrev fuel a.1) (ptr xs.getLast?) (shape t []) := by
  refine .of_nodup fun hnd => ?_
  obtain ⟨c, l, r, π, rfl, rfl, rfl⟩ := exists_fill_of_eq (nodup_shape.mp hnd) h
  have hlen := add_height_le_height_fill (node c l a r) π
  simp only [height] at hlen
  rw [shape_fill]
  exact runs_neighbour (d := .left) (u := l) (v := r) (by omega)

end Neighbours

/-- `RB_CLEAR_NODE` makes a node that `RB_EMPTY_NODE` knows, with no neighbours. -/
theorem runs_clearNode (a : RbAddr) (n : RbNode) (q : RbPtr) (fuel : ℕ) :
    ∃ m, Runs ⟨{(a.1, n)}, q⟩ (rbClearNode a.1) () ⟨{(a.1, m)}, q⟩ ∧
      Runs ⟨{(a.1, m)}, q⟩ (rbEmptyNode a.1) true ⟨{(a.1, m)}, q⟩ ∧
      Runs ⟨{(a.1, m)}, q⟩ (rbNeighbour d fuel a.1) 0 ⟨{(a.1, m)}, q⟩ := by
  have hword : (n.setParent a.1).parent = a.1 := by
    have hlow : ∀ w : BitVec 64, w &&& 3 &&& ~~~3 = 0 := by
      intro w
      rw [BitVec.and_assoc]
      exact BitVec.and_zero
    rw [RbNode.setParent, RbNode.parent, BitVec.and_or_distrib_right, a.clear.and_not, hlow]
    exact BitVec.zero_or
  have hparent : Runs ⟨{(a.1, n.setParent a.1)}, q⟩ (rbParent a.1) _ _ :=
    (runs_rbRead (Multiset.mem_singleton_self _)).map RbNode.parent
  rw [hword] at hparent
  refine ⟨n.setParent a.1, runs_rbModify (L := 0) _ rfl, ?_, hparent.bind ?_⟩
  · have hempty := hparent.map (· == a.1)
    rwa [beq_self_eq_true] at hempty
  · rw [if_pos rfl]
    exact .pure _

/-! ## Nothing is written -/

theorem readOnly_rbRead (p : RbPtr) : ReadOnly (rbRead p) := .ite .fail (.read p)

theorem readOnly_link (d : Side) (p : RbPtr) : ReadOnly (rbLink d p) :=
  (readOnly_rbRead p).bind fun _ => .pure _

theorem readOnly_parent (p : RbPtr) : ReadOnly (rbParent p) :=
  (readOnly_rbRead p).bind fun _ => .pure _

theorem readOnly_descend (d : Side) (fuel : ℕ) (p : RbPtr) : ReadOnly (rbDescend d fuel p) := by
  induction fuel generalizing p with
  | zero => exact .fail
  | succ fuel ih => exact (readOnly_link d p).bind fun q => .ite (.pure _) (ih q)

theorem readOnly_climb (d : Side) (fuel : ℕ) (p : RbPtr) : ReadOnly (rbClimb d fuel p) := by
  induction fuel generalizing p with
  | zero => exact .fail
  | succ fuel ih =>
    exact (readOnly_parent p).bind fun q => .ite (.pure _)
      ((readOnly_link d q).bind fun _ => .ite (ih q) (.pure _))

theorem readOnly_end (d : Side) (fuel : ℕ) : ReadOnly (rbEnd d fuel) :=
  ReadOnly.getVar.bind fun n => .ite (.pure _) (readOnly_descend d fuel n)

theorem readOnly_neighbour (d : Side) (fuel : ℕ) (p : RbPtr) : ReadOnly (rbNeighbour d fuel p) :=
  (readOnly_parent p).bind fun _ => .ite (.pure _) ((readOnly_link d p).bind fun q =>
    .ite (readOnly_climb d fuel p) (readOnly_descend d.other fuel q))

end RbTree

end HMP
