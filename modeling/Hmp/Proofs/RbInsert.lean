import Hmp.Sanity.RbRuns
import Hmp.Spec.RbRun

/-! Insertion: `rb_link_node` and `rb_insert_color` do to the memory what `insertAt` does to the
tree. -/

namespace HMP

namespace RbTree

variable {t : RbTree RbAddr} {f g : RbFrame RbAddr} {π : List (RbFrame RbAddr)}

/-! ## A turn of the loop -/

theorem runs_insertTurn_red (hu : g.sib.color = .red) :
    Runs (shape t (f :: g :: π)) (rbInsertTurn g.side t.addr f.elem.1 g.elem.1) g.elem.1
      (shape (fork g.side .red (fork f.side .black t f.elem f.sib) g.elem g.sib.blacken) π) := by
  obtain ⟨e, c, b, s⟩ := f
  obtain ⟨d, c', a, u⟩ := g
  have hne : u ≠ nil := fun h => by simp [h, color] at hu
  rw [← shape_fork, ← shape_fork]
  refine runs_link_other.bind ?_
  rw [shape_fork_other]
  refine runs_andRed.bind ?_
  rw [if_pos (decide_eq_true hu)]
  refine (runs_setBlack_of_ne hne).bind ?_
  rw [← shape_fork_other, shape_fork]
  refine runs_setBlack.bind ?_
  rw [← shape_fork]
  exact runs_setRed.bind (.pure _)

/-- The turn with rotations ends below a black node. -/
theorem runs_insertTurn_black (ht : t.color = .red) (hf : f.color = .red) (hu : g.sib.color = .black) :
    ∃ x b y, insertRotate f g t = fork g.side .black x b y ∧ x ≠ nil ∧
      Runs (shape t (f :: g :: π)) (rbInsertTurn g.side t.addr f.elem.1 g.elem.1) x.addr
        (shape x (⟨g.side, .black, b, y⟩ :: π)) := by
  obtain ⟨e, c, p, s⟩ := f
  obtain ⟨d, c', q, u⟩ := g
  obtain rfl : c = .red := hf
  obtain ⟨l, a, r, rfl⟩ := exists_fork_of_red d ht
  have hunc : ¬ decide (u.color = .red) = true := by simp [show u.color = .black from hu]
  rw [insertRotate, ← shape_fork, ← shape_fork]
  by_cases hd : e = d
  · subst hd
    refine ⟨fork e .red l a r, p, fork e .red s q u, if_pos rfl, fork_ne_nil, ?_⟩
    refine .of_nodup fun hnd => ?_
    rw [shape_fork] at hnd
    have hne := addr_ne_sib (nodup_shape.mp (shape_fork ▸ hnd)) (.inl (fork_ne_nil))
    refine runs_link_other.bind ?_
    rw [shape_fork_other]
    refine runs_andRed.bind ?_
    rw [if_neg hunc, ← shape_fork_other, shape_fork]
    refine runs_link_other.bind ?_
    rw [if_neg (Ne.symm hne)]
    refine runs_setBlack.bind ?_
    rw [← shape_fork]
    refine runs_setRed.bind ?_
    refine runs_rotate_other.bind ?_
    rw [← shape_fork]
    exact .pure _
  · obtain rfl := Side.eq_other_of_ne hd
    refine ⟨fork d .red s p l, a, fork d .red r q u, ?_, fork_ne_nil, ?_⟩
    · rw [if_neg hd, view_fork]
    · rw [fork_other]
      refine runs_link_other.bind ?_
      rw [shape_fork_other]
      refine runs_andRed.bind ?_
      rw [if_neg hunc, ← shape_fork_other, shape_fork]
      refine runs_link_other.bind ?_
      rw [if_pos rfl]
      refine runs_rotate.bind ?_
      rw [addr_fork]
      refine runs_setBlack.bind ?_
      rw [← shape_fork]
      refine runs_setRed.bind ?_
      refine runs_rotate_other.bind ?_
      rw [← shape_fork, addr_fork]
      exact .pure _

/-! ## The loop -/

/-- The test `parent && rb_is_red(parent)`. -/
theorem runs_parentRed (t : RbTree RbAddr) (π : List (RbFrame RbAddr)) :
    Runs (shape t π) (rbAndRed (parentAddr 0 π))
      (decide (∃ f ∈ π.head?, f.color = .red)) (shape t π) := by
  cases π with
  | nil => exact .pure _
  | cons f π =>
    obtain ⟨e, c, a, u⟩ := f
    have h := runs_andRed (t := fork e c t a u) (π := π)
    rw [addr_fork, color_fork, shape_fork] at h
    simpa [parentAddr] using h

/-- The loop stops below a black node and at the root. -/
theorem runs_insertLoop_stop {fuel : ℕ} (ht : t ≠ nil) (h : ∀ f ∈ π.head?, f.color = .black) :
    Runs (shape t π) (rbInsertLoop (fuel + 1) t.addr) () (shape t π) := by
  have hred : ¬ decide (∃ f ∈ π.head?, f.color = .red) = true := by
    rw [decide_eq_true_eq]
    rintro ⟨f, hf, hr⟩
    rw [h f hf] at hr
    cases hr
  refine (runs_parent_of_ne ht).bind ((runs_parentRed t π).bind ?_)
  rw [if_neg hred]
  exact .pure ()

/-- A turn of the loop below a red node. -/
theorem runs_insertLoop_turn {fuel : ℕ} {x : RbTree RbAddr} {ρ : List (RbFrame RbAddr)}
    {B : Shape RbPtr RbNode RbPtr} (ht : t ≠ nil) (hf : f.color = .red)
    (hturn : Runs (shape t (f :: g :: π)) (rbInsertTurn g.side t.addr f.elem.1 g.elem.1) x.addr
      (shape x ρ)) (hrest : Runs (shape x ρ) (rbInsertLoop fuel x.addr) () B) :
    Runs (shape t (f :: g :: π)) (rbInsertLoop (fuel + 1) t.addr) () B := by
  have hup : shape t (f :: g :: π) =
      shape (fork f.side f.color t f.elem f.sib) (g :: π) := shape_fork.symm
  have hparent := runs_parent_of_ne (t := fork f.side f.color t f.elem f.sib) (π := g :: π)
    fork_ne_nil
  rw [addr_fork, ← hup] at hparent
  refine (runs_parent_of_ne ht).bind ((runs_parentRed t _).bind ?_)
  rw [if_pos (decide_eq_true ⟨f, rfl, hf⟩)]
  have hside := runs_side (t := fork f.side f.color t f.elem f.sib) (f := g) (π := π)
    (.inl fork_ne_nil)
  rw [addr_fork, ← hup] at hside
  exact hparent.bind (hside.bind (hturn.bind hrest))

theorem runs_insertLoop {n fuel : ℕ} (ht : t.color = .red) (hπ : HoleBal π n)
    (hfuel : π.length < fuel) :
    Runs (shape t π) (rbInsertLoop fuel t.addr) () (shape (insertLoop t π) []) := by
  have hne : ∀ {u : RbTree RbAddr}, u.color = .red → u ≠ nil := by
    rintro u hu rfl
    cases hu
  obtain ⟨fuel, rfl⟩ := Nat.exists_eq_succ_of_ne_zero (Nat.ne_zero_of_lt hfuel)
  induction t, π using insertLoop.induct generalizing n fuel with
  | case1 t f g π hg hf ih =>
    simp only [List.length_cons] at hfuel
    obtain ⟨fuel, rfl⟩ := Nat.exists_eq_succ_of_ne_zero (show fuel ≠ 0 by omega)
    obtain ⟨-, -, -, -, hπ'⟩ := holeBal_red_cons hπ hf
    have hturn := runs_insertTurn_red (t := t) (f := f) (π := π) hg
    have hrest := ih (color_fork ..) hπ' fuel (by omega)
    rw [insertLoop, hf, hg]
    refine runs_insertLoop_turn (hne ht) hf ?_ hrest
    rw [addr_fork]
    exact hturn
  | case2 t f g π hg hf =>
    simp only [List.length_cons] at hfuel
    obtain ⟨fuel, rfl⟩ := Nat.exists_eq_succ_of_ne_zero (show fuel ≠ 0 by omega)
    obtain ⟨x, b, y, heq, hx, hturn⟩ := runs_insertTurn_black (π := π) ht hf hg
    rw [insertLoop, hf, hg, shape_fill, heq, shape_fork]
    exact runs_insertLoop_turn (hne ht) hf hturn
      (runs_insertLoop_stop hx fun f hf => by rw [← Option.some.inj hf])
  | case3 t f g π hf =>
    rw [insertLoop, hf, shape_fill]
    exact runs_insertLoop_stop (hne ht) fun f' hf' => by rw [← Option.some.inj hf', hf]
  | case4 t π h =>
    rw [insertLoop, shape_fill]
    · refine runs_insertLoop_stop (hne ht) fun f hf => ?_
      cases π with
      | nil => cases hf
      | cons f' π =>
        obtain rfl : π = [] := by
          cases π with
          | nil => rfl
          | cons g π => exact (h f' g π rfl).elim
        obtain rfl : f' = f := Option.some.inj hf
        cases hc : f'.color with
        | red =>
          simp only [HoleBal, hc] at hπ
          exact hπ.2.2.1.elim
        | black => rfl
    · exact h

/-! ## The whole insertion -/

/-- The pointer to a hole. -/
def place : List (RbFrame RbAddr) → RbLink
  | [] => .root
  | f :: _ => .child f.side f.elem.1

theorem runs_linkNode (b : RbAddr) (n : RbNode) (π : List (RbFrame RbAddr)) :
    Runs ((shape nil π).frame {(b.1, n)}) (rbLinkNode b.1 (parentAddr 0 π) (place π)) ()
      (shape (node .red nil b nil) π) := by
  have hstart : (shape nil π).frame {(b.1, n)} = ⟨(b.1, n) ::ₘ pathCells 0 0 π, rootAddr 0 π⟩ := by
    refine Shape.ext ?_ rfl
    simp only [Shape.frame_cells, shape, cells, addr, ← Multiset.singleton_add]
    abel
  have hend : shape (node .red nil b nil) π =
      ⟨(b.1, .of .left (parentAddr 0 π) .red 0 0) ::ₘ pathCells 0 b.1 π, rootAddr b.1 π⟩ := by
    refine Shape.ext ?_ rfl
    simp only [shape, cells, addr, ← Multiset.singleton_add]
    abel
  have hword : (⟨parentAddr 0 π, 0, 0⟩ : RbNode) = .of .left (parentAddr 0 π) .red 0 0 := by
    simp only [RbNode.of, Color.bit]
    exact congrArg (RbNode.mk · 0 0) BitVec.or_zero.symm
  rw [hstart, hend, ← hword]
  refine (runs_rbModify _ rfl).bind ((runs_rbModify _ rfl).bind ((runs_rbModify _ rfl).bind ?_))
  cases π with
  | nil => exact .setVar b.1
  | cons f π =>
    rw [← Multiset.singleton_add, ← Multiset.singleton_add, Multiset.add_comm,
      Multiset.add_comm _ (pathCells 0 b.1 _)]
    exact runs_setHole rfl

theorem insertLoop_ne_nil (h : t ≠ nil) : insertLoop t π ≠ nil := by
  intro hnil
  have hlist := congrArg List.length (toList_insertLoop t π)
  rw [hnil, toList_fill] at hlist
  cases t with
  | nil => exact h rfl
  | node c l a r => simp [toList] at hlist

/-- `rb_insert_color` on a node that has been linked. -/
theorem runs_insertColor {n fuel : ℕ} (ht : t.color = .red) (hπ : HoleBal π n)
    (hfuel : π.length < fuel) :
    Runs (shape t π) (rbInsertColor fuel t.addr) () (shape (insertLoop t π).blacken []) := by
  refine (runs_insertLoop ht hπ hfuel).bind (Runs.getVar.bind ?_)
  refine runs_setBlack_of_ne (insertLoop_ne_nil ?_)
  rintro rfl
  cases ht

theorem length_le_log {π : List (RbFrame RbAddr)} (h : (t.fill π).IsRb) :
    π.length + t.height ≤ 2 * Nat.log 2 ((t.fill π).size + 1) :=
  (add_height_le_height_fill t π).trans h.height_le

theorem runs_insert {fuel : ℕ} {b : RbAddr} {n : RbNode} (h : (nil.fill π).IsRb)
    (hfuel : 2 * Nat.log 2 ((nil.fill π).size + 1) < fuel) :
    Runs ((shape (nil.fill π) []).frame {(b.1, n)})
      (rbInsert fuel b.1 (parentAddr 0 π) (place π)) () (shape (insertAt b π) []) := by
  obtain ⟨m, rfl, hπ, -⟩ := isRb_fill.mp h
  have hlen := length_le_log h
  rw [shape_fill]
  exact (runs_linkNode b n π).bind
    (runs_insertColor (t := node .red nil b nil) rfl hπ (by omega))

end RbTree

end HMP
