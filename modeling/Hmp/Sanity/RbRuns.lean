import Hmp.Sanity.RbTree

/-! What the code of `hmp_rbtree.c` does at one node of a tree in memory, and the rotation. A run
starts and ends at the same hole; the hole is moved by `shape_fork`. -/

namespace HMP

namespace RbTree

variable {A : Shape RbPtr RbNode RbPtr} {K L : RbCells} {a b : RbAddr} {n : RbNode} {d : Side}
  {c e : Color} {t u : RbTree RbAddr} {π : List (RbFrame RbAddr)} {p q : RbPtr}

/-! ## Cells -/

theorem runs_rbRead (h : (a.1, n) ∈ A.cells) : Runs A (rbRead a.1) n A := by
  rw [rbRead, if_neg a.2.1]
  exact .read h

theorem runs_rbModify (f : RbNode → RbNode) (h : K = (a.1, n) ::ₘ L) :
    Runs ⟨K, q⟩ (rbModify a.1 f) () ⟨(a.1, f n) ::ₘ L, q⟩ := by
  rw [rbModify, if_neg a.2.1]
  exact .modify f h

theorem runs_link_of_mem (h : (a.1, n) ∈ A.cells) : Runs A (rbLink d a.1) (n.link d) A :=
  (runs_rbRead h).bind (.pure _)

/-- A tree is hung below another node. -/
theorem runs_setParentIf {p' : RbPtr} (hp : Clear p) (h : K = t.cells p + L) :
    Runs ⟨K, q⟩ (rbSetParentIf t.addr p') () ⟨t.cells p' + L, q⟩ := by
  subst h
  cases t with
  | nil => exact .pure ()
  | node c l a r =>
    have hword : (RbNode.of .left p c l.addr r.addr).setParent p' = .of .left p' c l.addr r.addr :=
      RbNode.setParent_of hp
    rw [rbSetParentIf, addr, if_neg a.2.1, cells, cells, ← hword, Multiset.cons_add,
      Multiset.cons_add]
    exact runs_rbModify _ rfl

/-- The link of the node above a hole is changed. -/
theorem runs_setHole {f : RbFrame RbAddr} {old new : RbPtr}
    (h : K = pathCells 0 old (f :: π) + L) :
    Runs ⟨K, rootAddr old (f :: π)⟩ (rbSetLink f.side f.elem.1 new) ()
      ⟨pathCells 0 new (f :: π) + L, rootAddr new (f :: π)⟩ := by
  have hword : (RbNode.of f.side (parentAddr 0 π) f.color old f.sib.addr).setLink f.side new =
      .of f.side (parentAddr 0 π) f.color new f.sib.addr := RbNode.setLink_of
  rw [pathCells, Multiset.cons_add] at h
  rw [pathCells, Multiset.cons_add, ← hword]
  exact runs_rbModify _ h

/-- The pointer into a hole is changed, wherever it is. -/
theorem runs_relink {old new : RbPtr} (h : K = pathCells 0 old π + L)
    (hne : ∀ f ∈ π.head?, old ≠ f.sib.addr) :
    Runs ⟨K, rootAddr old π⟩ (rbRelink d (parentAddr 0 π) old new) ()
      ⟨pathCells 0 new π + L, rootAddr new π⟩ := by
  cases π with
  | nil =>
    subst h
    exact .setVar new
  | cons f π =>
    have hmem : (f.elem.1, .of f.side (parentAddr 0 π) f.color old f.sib.addr) ∈ K := by
      rw [h, pathCells, Multiset.cons_add]
      exact Multiset.mem_cons_self ..
    rw [rbRelink, parentAddr, if_neg f.elem.2.1]
    refine (runs_link_of_mem (d := d) hmem).bind ?_
    by_cases hd : d = f.side
    · subst hd
      rw [RbNode.link_of, if_pos rfl]
      exact runs_setHole h
    · obtain rfl := Side.eq_other_of_ne hd
      rw [RbNode.link_other_of, if_neg (hne f rfl), Side.other_other]
      exact runs_setHole h

/-! ## One node -/

theorem shape_fork_cells : (shape (fork d c t a u) π).cells =
    (a.1, .of d (parentAddr 0 π) c t.addr u.addr) ::ₘ
      (t.cells a.1 + u.cells a.1 + pathCells 0 a.1 π) := by
  rw [shape, cells_fork, addr_fork, Multiset.cons_add]

theorem runs_read : Runs (shape (fork d c t a u) π) (rbRead a.1)
    (.of d (parentAddr 0 π) c t.addr u.addr) (shape (fork d c t a u) π) :=
  runs_rbRead (by simp [shape_fork_cells])

theorem runs_link :
    Runs (shape (fork d c t a u) π) (rbLink d a.1) t.addr (shape (fork d c t a u) π) := by
  have h : Runs (shape (fork d c t a u) π) (rbLink d a.1) _ _ := runs_read.map (RbNode.link d)
  rwa [RbNode.link_of] at h

theorem runs_link_other :
    Runs (shape (fork d c t a u) π) (rbLink d.other a.1) u.addr (shape (fork d c t a u) π) := by
  rw [← fork_other]
  exact runs_link

theorem runs_parent :
    Runs (shape (fork d c t a u) π) (rbParent a.1) (parentAddr 0 π)
      (shape (fork d c t a u) π) := by
  have h : Runs (shape (fork d c t a u) π) (rbParent a.1) _ _ := runs_read.map RbNode.parent
  rwa [RbNode.parent_of (clear_parentAddr π)] at h

theorem runs_color :
    Runs (shape (fork d c t a u) π) (rbColor a.1) c.bit (shape (fork d c t a u) π) := by
  have h : Runs (shape (fork d c t a u) π) (rbColor a.1) _ _ := runs_read.map RbNode.color
  rwa [RbNode.color_of (clear_parentAddr π)] at h

section Node

variable {l r : RbTree RbAddr}

theorem runs_node_left :
    Runs (shape (node c l a r) π) (rbLink .left a.1) l.addr (shape (node c l a r) π) :=
  runs_link (d := .left)

theorem runs_node_right :
    Runs (shape (node c l a r) π) (rbLink .right a.1) r.addr (shape (node c l a r) π) :=
  runs_link_other (d := .left)

theorem runs_node_parent :
    Runs (shape (node c l a r) π) (rbParent a.1) (parentAddr 0 π) (shape (node c l a r) π) :=
  runs_parent (d := .left)

theorem runs_node_color :
    Runs (shape (node c l a r) π) (rbColor a.1) c.bit (shape (node c l a r) π) :=
  runs_color (d := .left)

end Node

theorem runs_isRed :
    Runs (shape (fork d c t a u) π) (rbIsRed a.1) (decide (c = .red))
      (shape (fork d c t a u) π) := by
  have hc : (c.bit == 0) = decide (c = .red) := by cases c <;> rfl
  rw [← hc]
  exact runs_color.map _

theorem runs_isBlack :
    Runs (shape (fork d c t a u) π) (rbIsBlack a.1) (decide (c = .black))
      (shape (fork d c t a u) π) := by
  have hc : (c.bit != 0) = decide (c = .black) := by cases c <;> rfl
  rw [← hc]
  exact runs_color.map _

theorem runs_andRed :
    Runs (shape t π) (rbAndRed t.addr) (decide (t.color = .red)) (shape t π) := by
  cases t with
  | nil => exact .pure _
  | node c l a r =>
    rw [rbAndRed, addr, if_neg a.2.1]
    exact runs_isRed (d := .left)

theorem runs_notOrBlack :
    Runs (shape t π) (rbNotOrBlack t.addr) (decide (t.color = .black)) (shape t π) := by
  cases t with
  | nil => exact .pure _
  | node c l a r =>
    rw [rbNotOrBlack, addr, if_neg a.2.1]
    exact runs_isBlack (d := .left)

theorem runs_getRoot : Runs (shape t π) Store.getVar (rootAddr t.addr π) (shape t π) := .getVar

theorem runs_modify {f : RbNode → RbNode}
    (h : f (.of d (parentAddr 0 π) c t.addr u.addr) = .of d (parentAddr 0 π) e t.addr u.addr) :
    Runs (shape (fork d c t a u) π) (rbModify a.1 f) () (shape (fork d e t a u) π) := by
  have hstart : shape (fork d c t a u) π = ⟨_, rootAddr a.1 π⟩ :=
    Shape.ext shape_fork_cells (by simp only [shape, addr_fork])
  have hend : shape (fork d e t a u) π = ⟨_, rootAddr a.1 π⟩ :=
    Shape.ext shape_fork_cells (by simp only [shape, addr_fork])
  rw [hstart, hend, ← h]
  exact runs_rbModify f rfl

theorem runs_setBlack :
    Runs (shape (fork d c t a u) π) (rbSetBlack a.1) () (shape (fork d .black t a u) π) :=
  runs_modify RbNode.setBlack_of

theorem runs_setRed :
    Runs (shape (fork d c t a u) π) (rbSetRed a.1) () (shape (fork d .red t a u) π) :=
  runs_modify (RbNode.setRed_of (clear_parentAddr π))

theorem runs_setColor :
    Runs (shape (fork d c t a u) π) (rbSetColor a.1 e.bit) () (shape (fork d e t a u) π) :=
  runs_modify (RbNode.setColor_of (clear_parentAddr π))

theorem runs_setBlackIf : Runs (shape t π) (rbSetBlackIf t.addr) () (shape t.blacken π) := by
  cases t with
  | nil => exact .pure ()
  | node c l a r =>
    rw [rbSetBlackIf, addr, if_neg a.2.1]
    exact runs_setBlack (d := .left)

/-! ## Rotation -/

theorem runs_rotate {v : RbTree RbAddr} :
    Runs (shape (fork d c t a (fork d e u b v)) π) (rbRotate d a.1) ()
      (shape (fork d e (fork d c t a u) b v) π) := by
  refine .of_nodup fun hnd => ?_
  have hne := addr_ne_sib_head (nodup_shape.mp hnd) fork_ne_nil
  rw [addr_fork] at hne
  -- the cells that the code does not touch
  let K := t.cells a.1 + v.cells b.1
  have hstart : shape (fork d c t a (fork d e u b v)) π =
      ⟨(a.1, .of d (parentAddr 0 π) c t.addr b.1) ::ₘ (b.1, .of d a.1 e u.addr v.addr) ::ₘ
        (u.cells b.1 + (pathCells 0 a.1 π + K)), rootAddr a.1 π⟩ := by
    refine Shape.ext ?_ (by simp only [shape, addr_fork])
    simp only [shape_fork_cells, cells_fork, addr_fork, K, ← Multiset.singleton_add]
    abel
  have hend : shape (fork d e (fork d c t a u) b v) π =
      ⟨(a.1, .of d b.1 c t.addr u.addr) ::ₘ (b.1, .of d (parentAddr 0 π) e a.1 v.addr) ::ₘ
        (pathCells 0 b.1 π + (u.cells a.1 + K)), rootAddr b.1 π⟩ := by
    refine Shape.ext ?_ (by simp only [shape, addr_fork])
    simp only [shape_fork_cells, cells_fork, addr_fork, K, ← Multiset.singleton_add]
    abel
  have hchild := runs_link_other (d := d) (c := c) (t := t) (a := a) (u := fork d e u b v) (π := π)
  have hparent := runs_parent (d := d) (c := c) (t := t) (a := a) (u := fork d e u b v) (π := π)
  rw [addr_fork, hstart] at hchild
  rw [hstart] at hparent
  rw [hstart, hend]
  refine hchild.bind (hparent.bind ?_)
  refine (runs_link_of_mem (Multiset.mem_cons_of_mem (Multiset.mem_cons_self ..))).bind ?_
  rw [RbNode.link_of]
  refine (runs_rbModify _ rfl).bind ?_
  rw [RbNode.setLink_other_of]
  refine (runs_setParentIf (t := u) b.clear (L := (a.1, .of d (parentAddr 0 π) c t.addr u.addr) ::ₘ
    (b.1, .of d a.1 e u.addr v.addr) ::ₘ (pathCells 0 a.1 π + K)) ?_).bind ?_
  · simp only [← Multiset.singleton_add]
    abel
  refine (runs_rbModify (a := b) (n := .of d a.1 e u.addr v.addr) (L := u.cells a.1 +
    ((a.1, .of d (parentAddr 0 π) c t.addr u.addr) ::ₘ (pathCells 0 a.1 π + K))) _ ?_).bind ?_
  · simp only [← Multiset.singleton_add]
    abel
  rw [RbNode.setLink_of]
  refine (runs_rbModify _ rfl).bind ?_
  rw [RbNode.setParent_of a.clear]
  refine (runs_relink (L := (b.1, .of d (parentAddr 0 π) e a.1 v.addr) ::ₘ
    (u.cells a.1 + ((a.1, .of d (parentAddr 0 π) c t.addr u.addr) ::ₘ K))) ?_ hne).bind ?_
  · simp only [← Multiset.singleton_add]
    abel
  have hword : (RbNode.of d (parentAddr 0 π) c t.addr u.addr).setParent b.1 =
      .of d b.1 c t.addr u.addr := RbNode.setParent_of (clear_parentAddr π)
  rw [← hword]
  refine runs_rbModify _ ?_
  simp only [← Multiset.singleton_add]
  abel

/-- The same, seen from the other side. -/
theorem runs_rotate_other {v : RbTree RbAddr} :
    Runs (shape (fork d c (fork d e t a u) b v) π) (rbRotate d.other b.1) ()
      (shape (fork d e t a (fork d c u b v)) π) := by
  have h := runs_rotate (d := d.other) (c := c) (e := e) (t := v) (u := u) (v := t) (a := b)
    (b := a) (π := π)
  simpa only [fork_other] using h

/-! ## One node in the place of another -/

section Replace

variable {l r : RbTree RbAddr}

/-- What surrounds the node `a` is made to point to `b`. -/
theorem runs_rehang {β : Type} {x : RbPtr → RbM Unit} {k : RbM β} {y : β}
    (hx : x l.addr = rbSetParentIf l.addr b.1) (hne : ∀ f ∈ π.head?, a.1 ≠ f.sib.addr)
    (hk : Runs ⟨(a.1, .of .left (parentAddr 0 π) c l.addr r.addr) ::ₘ
      (l.cells b.1 + r.cells b.1 + pathCells 0 b.1 π + L), rootAddr b.1 π⟩ k y A) :
    Runs ⟨(a.1, .of .left (parentAddr 0 π) c l.addr r.addr) ::ₘ
        (l.cells a.1 + r.cells a.1 + pathCells 0 a.1 π + L), rootAddr a.1 π⟩ (do
      rbRelink .left (← rbParent a.1) a.1 b.1
      x (← rbLink .left a.1)
      rbSetParentIf (← rbLink .right a.1) b.1
      k) y A := by
  have hread : ∀ (M : RbCells) (q : RbPtr), Runs
      ⟨(a.1, .of .left (parentAddr 0 π) c l.addr r.addr) ::ₘ M, q⟩ (rbRead a.1) _ _ :=
    fun M q => runs_rbRead (Multiset.mem_cons_self ..)
  have hparent := fun M q => (hread M q).map RbNode.parent
  rw [RbNode.parent_of (clear_parentAddr π)] at hparent
  refine (hparent _ _).bind ?_
  refine (runs_relink (L := (a.1, .of .left (parentAddr 0 π) c l.addr r.addr) ::ₘ
    (l.cells a.1 + r.cells a.1 + L)) ?_ hne).bind ?_
  · simp only [← Multiset.singleton_add]
    abel
  rw [Multiset.add_cons]
  refine ((hread _ _).map (RbNode.link .left)).bind ?_
  rw [RbNode.link_of, hx]
  refine (runs_setParentIf a.clear (L := (a.1, .of .left (parentAddr 0 π) c l.addr r.addr) ::ₘ
    (r.cells a.1 + pathCells 0 b.1 π + L)) ?_).bind ?_
  · simp only [← Multiset.singleton_add]
    abel
  rw [Multiset.add_cons]
  refine ((hread _ _).map (RbNode.link .right)).bind ?_
  have hright : (RbNode.of .left (parentAddr 0 π) c l.addr r.addr).link .right = r.addr := rfl
  rw [hright]
  refine (runs_setParentIf a.clear (L := (a.1, .of .left (parentAddr 0 π) c l.addr r.addr) ::ₘ
    (l.cells b.1 + pathCells 0 b.1 π + L)) ?_).bind ?_
  · simp only [← Multiset.singleton_add]
    abel
  have hcells : r.cells b.1 + ((a.1, .of .left (parentAddr 0 π) c l.addr r.addr) ::ₘ
      (l.cells b.1 + pathCells 0 b.1 π + L)) =
      (a.1, .of .left (parentAddr 0 π) c l.addr r.addr) ::ₘ
        (l.cells b.1 + r.cells b.1 + pathCells 0 b.1 π + L) := by
    simp only [← Multiset.singleton_add]
    abel
  rw [hcells]
  exact hk

theorem shape_node (c : Color) (l r : RbTree RbAddr) (a : RbAddr) (π : List (RbFrame RbAddr)) :
    shape (node c l a r) π = ⟨(a.1, .of .left (parentAddr 0 π) c l.addr r.addr) ::ₘ
      (l.cells a.1 + r.cells a.1 + pathCells 0 a.1 π), rootAddr a.1 π⟩ :=
  Shape.ext (shape_fork_cells (d := .left)) rfl

theorem shape_node_frame (c : Color) (l r : RbTree RbAddr) (a b : RbAddr) (n : RbNode)
    (π : List (RbFrame RbAddr)) : (shape (node c l a r) π).frame {(b.1, n)} =
      ⟨(a.1, .of .left (parentAddr 0 π) c l.addr r.addr) ::ₘ
        (l.cells a.1 + r.cells a.1 + pathCells 0 a.1 π + {(b.1, n)}), rootAddr a.1 π⟩ :=
  Shape.ext (by rw [shape_node, Shape.frame_cells, Multiset.cons_add]) (by rw [shape_node]; rfl)

/-- The pointers to a node are not pointers to its sibling, whatever else is in memory. -/
theorem addr_ne_of_frame {M : RbCells}
    (hnd : (((shape (node c l a r) π).frame M).cells.map Prod.fst).Nodup) :
    ∀ f ∈ π.head?, a.1 ≠ f.sib.addr := by
  rw [Shape.frame_cells, Multiset.map_add] at hnd
  exact addr_ne_sib_head (nodup_shape.mp (Multiset.nodup_add.mp hnd).1) nofun

theorem runs_replaceNode : Runs ((shape (node c l a r) π).frame {(b.1, n)})
    (rbReplaceNode a.1 b.1) () ((shape (node c l b r) π).frame
      {(a.1, .of .left (parentAddr 0 π) c l.addr r.addr)}) := by
  refine .of_nodup fun hnd => ?_
  have hne := addr_ne_of_frame hnd
  rw [shape_node_frame, shape_node_frame]
  refine runs_rehang (x := fun q => rbSetParentIf q b.1) rfl hne ?_
  refine (runs_rbRead (Multiset.mem_cons_self ..)).bind ?_
  have hend : (b.1, .of .left (parentAddr 0 π) c l.addr r.addr) ::ₘ (l.cells b.1 + r.cells b.1 +
      pathCells 0 b.1 π + {(a.1, .of .left (parentAddr 0 π) c l.addr r.addr)}) =
      (b.1, .of .left (parentAddr 0 π) c l.addr r.addr) ::ₘ
        (a.1, .of .left (parentAddr 0 π) c l.addr r.addr) ::ₘ
          (l.cells b.1 + r.cells b.1 + pathCells 0 b.1 π) := by
    simp only [← Multiset.singleton_add]
    abel
  rw [hend]
  refine runs_rbModify (n := n) _ ?_
  simp only [← Multiset.singleton_add]
  abel

end Replace

/-! ## Sides -/

theorem runs_setBlack_of_ne (h : t ≠ nil) :
    Runs (shape t π) (rbSetBlack t.addr) () (shape t.blacken π) := by
  obtain rfl | ⟨c, u, a, v, rfl⟩ := nil_or_fork .left t
  · exact absurd rfl h
  · rw [addr_fork, blacken_fork]
    exact runs_setBlack

theorem runs_parent_of_ne (h : t ≠ nil) :
    Runs (shape t π) (rbParent t.addr) (parentAddr 0 π) (shape t π) := by
  obtain rfl | ⟨c, u, a, v, rfl⟩ := nil_or_fork .left t
  · exact absurd rfl h
  · rw [addr_fork]
    exact runs_parent

/-- The test on which side of its parent a tree hangs. -/
theorem runs_side {f : RbFrame RbAddr} (h : t ≠ nil ∨ f.sib ≠ nil) :
    Runs (shape t (f :: π)) (rbSide f.elem.1 t.addr) f.side (shape t (f :: π)) := by
  obtain ⟨e, c, a, u⟩ := f
  refine .of_nodup fun hnd => ?_
  have hne : u.addr ≠ t.addr := (addr_ne_sib (nodup_shape.mp hnd) h).symm
  rw [← shape_fork]
  cases e with
  | left =>
    have hrun := (runs_link (d := .left) (c := c) (t := t) (a := a) (u := u) (π := π)).map
      fun p => if p = t.addr then Side.left else .right
    rwa [if_pos rfl] at hrun
  | right =>
    have hrun := (runs_link_other (d := .right) (c := c) (t := t) (a := a) (u := u) (π := π)).map
      fun p => if p = t.addr then Side.left else .right
    rwa [if_neg hne] at hrun

end RbTree

end HMP
