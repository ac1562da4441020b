import Hmp.Proofs.RbWalk

/-! Removal: `rb_erase` does to the memory what `eraseAt` does to the tree. -/

namespace HMP

namespace RbTree

variable {d : Side} {c e : Color} {t u v w x s : RbTree RbAddr} {a b o p : RbAddr}
  {f : RbFrame RbAddr} {π : List (RbFrame RbAddr)}

/-! ## A turn of the loop -/

theorem runs_noRedChild : Runs (shape (fork d c u o v) π) (rbNoRedChild o.1)
    (decide (u.color = .black ∧ v.color = .black)) (shape (fork d c u o v) π) := by
  -- the left child is looked at first on both sides
  have hleft : ∀ {l r : RbTree RbAddr}, Runs (shape (fork .left c l o r) π) (rbNoRedChild o.1)
      (decide (l.color = .black ∧ r.color = .black)) (shape (fork .left c l o r) π) := by
    intro l r
    refine runs_link.bind ?_
    rw [shape_fork]
    refine runs_notOrBlack.bind ?_
    cases hl : l.color with
    | red => exact .pure _
    | black =>
      rw [if_pos (by decide), ← shape_fork]
      refine (runs_link_other (d := .left)).bind ?_
      rw [shape_fork_other]
      have hr := runs_notOrBlack (t := r) (π := ⟨Side.left.other, c, o, l⟩ :: π)
      simpa using hr
  cases d with
  | left => exact hleft
  | right =>
    have h := hleft (l := v) (r := u)
    simp only [and_comm (a := v.color = .black)] at h
    exact h

theorem runs_eraseRed_black (h : u.color = .black) (hu : u ≠ nil) :
    Runs (shape t (⟨d, c, p, u⟩ :: π)) (rbEraseRed d p.1 u.addr) u.addr
      (shape t (⟨d, c, p, u⟩ :: π)) := by
  obtain rfl | ⟨e, l, o, r, rfl⟩ := nil_or_fork .left u
  · exact absurd rfl hu
  · obtain rfl : e = .black := by simpa using h
    rw [← shape_fork, shape_fork_other, addr_fork]
    exact runs_isRed.bind (.pure _)

theorem runs_eraseRed_red :
    Runs (shape t (⟨d, c, p, fork d .red u o v⟩ :: π)) (rbEraseRed d p.1 o.1) u.addr
      (shape t (⟨d, .red, p, u⟩ :: ⟨d, .black, o, v⟩ :: π)) := by
  rw [← shape_fork, shape_fork_other]
  refine runs_isRed.bind ?_
  rw [if_pos (by decide)]
  refine runs_setBlack.bind ?_
  rw [← shape_fork_other]
  refine runs_setRed.bind (runs_rotate.bind ?_)
  rw [shape_fork, ← shape_fork (t := t)]
  exact runs_link_other

theorem runs_eraseFar_red (hv : v.color = .red) :
    Runs (shape t (⟨d, c, p, fork d e u o v⟩ :: π)) (rbEraseFar d p.1 o.1) o.1
      (shape t (⟨d, c, p, fork d e u o v⟩ :: π)) := by
  rw [← shape_fork, shape_fork_other]
  refine runs_link_other.bind ?_
  rw [shape_fork_other]
  refine runs_notOrBlack.bind ?_
  rw [if_neg (by simp [hv])]
  exact .pure _

theorem runs_eraseFar_black (hv : v.color = .black) :
    Runs (shape t (⟨d, c, p, fork d e (fork d .red w b x) o v⟩ :: π)) (rbEraseFar d p.1 o.1) b.1
      (shape t (⟨d, c, p, fork d .black w b (fork d .red x o v)⟩ :: π)) := by
  rw [← shape_fork, shape_fork_other]
  refine runs_link_other.bind ?_
  rw [shape_fork_other]
  refine runs_notOrBlack.bind ?_
  rw [if_pos (decide_eq_true hv), ← shape_fork_other]
  refine runs_link.bind ?_
  rw [shape_fork]
  refine runs_setBlackIf.bind ?_
  rw [blacken_fork, ← shape_fork]
  refine runs_setRed.bind (runs_rotate_other.bind ?_)
  rw [← shape_fork_other, ← shape_fork]
  have h := runs_link_other (d := d) (c := c) (t := t) (a := p) (π := π)
    (u := fork d .black w b (fork d .red x o v))
  rwa [addr_fork] at h

/-- The last steps of a turn with a rotation. -/
theorem runs_eraseRotate :
    Runs (shape t (⟨d, c, p, fork d e u o v⟩ :: π)) (do
      rbSetColor o.1 (← rbColor p.1)
      rbSetBlack p.1
      rbSetBlackIf (← rbLink d.other o.1)
      rbRotate d p.1
      return (none : Option (RbPtr × RbPtr))) none
      (shape (fork d c (fork d .black t p u) o v.blacken) π) := by
  rw [← shape_fork]
  refine runs_color.bind ?_
  rw [shape_fork_other]
  refine runs_setColor.bind ?_
  rw [← shape_fork_other]
  refine runs_setBlack.bind ?_
  rw [shape_fork_other]
  refine runs_link_other.bind ?_
  rw [shape_fork_other]
  refine runs_setBlackIf.bind ?_
  rw [← shape_fork_other, ← shape_fork_other]
  exact runs_rotate.bind (.pure _)

theorem runs_eraseBlack (hs : s ≠ nil) :
    Runs (shape t (⟨d, c, p, s⟩ :: π)) (rbEraseBlack d p.1 s.addr)
      (if (eraseTurn d c t p s).2 then some ((eraseTurn d c t p s).1.addr, parentAddr 0 π) else none)
      (shape (eraseTurn d c t p s).1 π) := by
  obtain rfl | ⟨e, u, o, v, rfl, hu, hv⟩ | ⟨e, w, b, x, o, v, rfl, hv⟩ | ⟨e, u, o, v, rfl, hv⟩ :=
    sib_cases d s
  · exact absurd rfl hs
  · rw [eraseTurn_black hu hv, if_pos rfl, addr_fork, addr_fork, ← shape_fork, shape_fork_other]
    refine runs_noRedChild.bind ?_
    rw [if_pos (decide_eq_true ⟨hu, hv⟩)]
    refine runs_setRed.bind ?_
    rw [← shape_fork_other]
    exact runs_parent.map _
  · rw [eraseTurn_near hv, if_neg Bool.false_ne_true, addr_fork, ← shape_fork, shape_fork_other]
    refine runs_noRedChild.bind ?_
    rw [if_neg (by simp), ← shape_fork_other, shape_fork]
    refine (runs_eraseFar_black hv).bind ?_
    have h := runs_eraseRotate (d := d) (c := c) (e := .black) (t := t) (u := w)
      (v := fork d .red x o v) (o := b) (p := p) (π := π)
    rwa [blacken_fork] at h
  · rw [eraseTurn_far hv, if_neg Bool.false_ne_true, addr_fork, ← shape_fork, shape_fork_other]
    refine runs_noRedChild.bind ?_
    rw [if_neg (by simp [hv]), ← shape_fork_other, shape_fork]
    exact (runs_eraseFar_red hv).bind runs_eraseRotate

/-! ## The loop -/

theorem runs_eraseTurn_black (hu : f.sib.color = .black) (hne : f.sib ≠ nil) :
    Runs (shape t (f :: π)) (rbEraseTurn f.side f.elem.1)
      (if (eraseTurn f.side f.color t f.elem f.sib).2 then
        some ((eraseTurn f.side f.color t f.elem f.sib).1.addr, parentAddr 0 π) else none)
      (shape (eraseTurn f.side f.color t f.elem f.sib).1 π) := by
  have hlink := runs_link_other (d := f.side) (c := f.color) (t := t) (a := f.elem) (u := f.sib)
    (π := π)
  rw [shape_fork] at hlink
  exact hlink.bind ((runs_eraseRed_black hu hne).bind (runs_eraseBlack hne))

theorem runs_eraseTurn_red (hs : f.sib = fork f.side .red u o v) (hne : u ≠ nil) :
    Runs (shape t (f :: π)) (rbEraseTurn f.side f.elem.1)
      (if (eraseTurn f.side .red t f.elem u).2 then
        some ((eraseTurn f.side .red t f.elem u).1.addr, o.1) else none)
      (shape (eraseTurn f.side .red t f.elem u).1 (⟨f.side, .black, o, v⟩ :: π)) := by
  obtain ⟨d, c, a, s⟩ := f
  simp only at hs ⊢
  subst hs
  have hlink := runs_link_other (d := d) (c := c) (t := t) (a := a) (u := fork d .red u o v) (π := π)
  rw [shape_fork, addr_fork] at hlink
  exact hlink.bind (runs_eraseRed_red.bind (runs_eraseBlack hne))

/-- Below another node a tree is not the whole tree. -/
theorem addr_ne_rootAddr (hnd : (t.fill (f :: π)).toList.Nodup) :
    t.addr ≠ rootAddr t.addr (f :: π) := by
  obtain ⟨g, σ, hσ⟩ : ∃ g σ, f :: π = σ ++ [g] := by
    obtain h | ⟨σ, g, h⟩ := List.eq_nil_or_concat (f :: π)
    · cases h
    · exact ⟨g, σ, by rw [h, List.concat_eq_append]⟩
  have hroot : ∀ (h : RbPtr) (σ : List (RbFrame RbAddr)), rootAddr h (σ ++ [g]) = g.elem.1 := by
    intro h σ
    induction σ generalizing h with
    | nil => rfl
    | cons f σ ih => exact ih _
  rw [hσ] at hnd ⊢
  rw [hroot]
  cases t with
  | nil => exact Ne.symm g.elem.2.1
  | node c l a r =>
    intro he
    obtain rfl : a = g.elem := Subtype.ext he
    rw [fill_append, fill_cons, fill_nil] at hnd
    refine elem_notMem_of_nodup hnd ?_
    simp [toList_fill, toList]

/-- The loop ends at a tree that only has to be made black. -/
theorem runs_eraseLoop {n fuel : ℕ} (ht : t.Short n) (hπ : HoleBal π (n + 1))
    (hfuel : π.length < fuel) :
    ∃ u ρ, Runs (shape t π) (rbEraseLoop fuel t.addr (parentAddr 0 π)) u.addr (shape u ρ) ∧
      u.blacken.fill ρ = eraseLoop t π := by
  obtain ⟨fuel, rfl⟩ := Nat.exists_eq_succ_of_ne_zero (Nat.ne_zero_of_lt hfuel)
  -- a red node ends the loop
  have hstop : ∀ {t : RbTree RbAddr} {π : List (RbFrame RbAddr)} {p : RbPtr} {k : ℕ},
      t.color = .red → Runs (shape t π) (rbEraseLoop (k + 1) t.addr p) t.addr (shape t π) := by
    intro t π p k hr
    refine runs_notOrBlack.bind ?_
    rw [if_neg (by simp [hr])]
    exact .pure _
  induction π generalizing t n fuel with
  | nil =>
    refine ⟨t, [], ?_, rfl⟩
    cases htc : t.color with
    | red => exact hstop htc
    | black =>
      refine runs_notOrBlack.bind ?_
      rw [if_pos (decide_eq_true htc)]
      refine runs_getRoot.bind ?_
      rw [rootAddr, if_pos rfl]
      exact .pure _
  | cons f π ih =>
    rw [List.length_cons] at hfuel
    obtain ⟨fuel, rfl⟩ := Nat.exists_eq_succ_of_ne_zero (show fuel ≠ 0 by omega)
    cases htc : t.color with
    | red => exact ⟨t, f :: π, hstop htc, (eraseLoop_of_red htc).symm⟩
    | black =>
      have hsib : f.sib ≠ nil := fun h => by
        have := holeBal_sib hπ
        simp [h] at this
      -- the tests that lead to the turn
      have hturn : ∀ {r : Option (RbPtr × RbPtr)} {A B : Shape RbPtr RbNode RbPtr} {q : RbPtr},
          Runs (shape t (f :: π)) (rbEraseTurn f.side f.elem.1) r A →
          Runs A (r.elim Store.getVar fun q => rbEraseLoop (fuel + 1) q.1 q.2) q B →
          Runs (shape t (f :: π)) (rbEraseLoop (fuel + 2) t.addr f.elem.1) q B := by
        intro r A B q hr hq
        refine .of_nodup fun hnd => ?_
        have hroot := addr_ne_rootAddr (nodup_shape.mp hnd)
        refine runs_notOrBlack.bind ?_
        rw [if_pos (decide_eq_true htc)]
        refine runs_getRoot.bind ?_
        rw [if_neg hroot]
        refine (runs_side (.inr hsib)).bind (hr.bind ?_)
        cases r with
        | none => exact hq
        | some q => exact hq
      cases hs : f.sib.color with
      | red =>
        obtain ⟨u, o, v, hfork⟩ := exists_fork_of_red f.side hs
        obtain ⟨huc, hu, -, -⟩ := holeBal_of_sib_red hπ hfork
        have hne : u ≠ nil := by
          rintro rfl
          simp at hu
        have hrun := runs_eraseTurn_red (t := t) (π := π) hfork hne
        obtain ⟨l, a, r, b, heq, -, -⟩ :=
          eraseTurn_bal (d := f.side) (c := .red) (p := f.elem) (ht.bal htc) hu huc
        rw [eraseLoop_of_sib_red htc hfork]
        rw [heq] at hrun ⊢
        cases b with
        | true => exact ⟨_, _, hturn hrun (hstop (color_fork ..)), rfl⟩
        | false =>
          refine ⟨_, [], hturn hrun ?_, rfl⟩
          rw [← shape_fill]
          exact runs_getRoot
      | black =>
        have hrun := runs_eraseTurn_black (t := t) (π := π) hs hsib
        rw [eraseLoop_of_sib_black htc hs]
        simp only
        split_ifs with hr
        · obtain ⟨m, hm, hπ'⟩ := eraseTurn_up (ht.bal htc) hπ hs hr
          obtain ⟨u, ρ, hloop, heq⟩ := ih hm hπ' fuel (by omega)
          rw [if_pos hr] at hrun
          exact ⟨u, ρ, hturn hrun hloop, heq⟩
        · rw [if_neg hr] at hrun
          refine ⟨_, [], hturn hrun ?_, rfl⟩
          rw [← shape_fill]
          exact runs_getRoot

theorem runs_eraseColor {n fuel : ℕ} (ht : t.Short n) (hπ : HoleBal π (n + 1))
    (hfuel : π.length < fuel) :
    Runs (shape t π) (rbEraseColor fuel t.addr (parentAddr 0 π)) ()
      (shape (eraseLoop t π) []) := by
  obtain ⟨u, ρ, hloop, heq⟩ := runs_eraseLoop ht hπ hfuel
  rw [← heq, shape_fill]
  exact hloop.bind runs_setBlackIf

/-! ## The whole removal -/

/-- `t` stands where a node of colour `f.color` with no other child has been. -/
theorem runs_eraseEnd {fuel : ℕ} (hf : f.sib = nil) (h : (t.fill (f :: π)).IsRb)
    (hfuel : π.length < fuel) :
    Runs (shape t π) (rbEraseEnd fuel f.color.bit t.addr (parentAddr 0 π)) ()
      (shape (eraseColor f.color t π) []) := by
  rw [rbEraseEnd]
  cases hc : f.color with
  | red =>
    rw [if_neg (by decide), eraseColor, shape_fill]
    exact .pure ()
  | black =>
    obtain ⟨ht, hπ⟩ := short_of_sib_nil hf h hc
    rw [if_pos rfl]
    exact runs_eraseColor ht hπ hfuel

/-- A node with at most one child, `t`. The removed node is left as it was. -/
theorem runs_eraseOne {fuel : ℕ} (h : ((fork d c nil a t).fill π).IsRb)
    (hfuel : π.length < fuel) :
    Runs (shape (fork d c nil a t) π) (rbEraseOne fuel a.1 t.addr) ()
      ((shape (eraseColor c t π) []).frame {(a.1, .of d (parentAddr 0 π) c 0 t.addr)}) := by
  refine .of_nodup fun hnd => ?_
  have hne := addr_ne_sib_head (nodup_shape.mp hnd) fork_ne_nil
  rw [addr_fork] at hne
  refine runs_parent.bind (runs_color.bind ?_)
  have hstart : shape (fork d c nil a t) π =
      ⟨t.cells a.1 + ((a.1, .of d (parentAddr 0 π) c 0 t.addr) ::ₘ pathCells 0 a.1 π),
        rootAddr a.1 π⟩ := by
    refine Shape.ext ?_ (by simp only [shape, addr_fork])
    simp only [shape_fork_cells, cells, addr, ← Multiset.singleton_add]
    abel
  have hmid : (shape t π).frame {(a.1, .of d (parentAddr 0 π) c 0 t.addr)} =
      ⟨pathCells 0 t.addr π + (t.cells (parentAddr 0 π) +
        {(a.1, .of d (parentAddr 0 π) c 0 t.addr)}), rootAddr t.addr π⟩ := by
    refine Shape.ext ?_ rfl
    simp only [shape, Shape.frame_cells]
    abel
  have hend := (runs_eraseEnd (f := ⟨d.other, c, a, nil⟩) rfl (t := t) (π := π)
    (by rwa [fill_cons, fork_other]) hfuel).frame {(a.1, .of d (parentAddr 0 π) c 0 t.addr)}
  rw [hmid] at hend
  rw [hstart]
  refine (runs_setParentIf a.clear rfl).bind ((runs_relink ?_ hne).bind hend)
  simp only [← Multiset.singleton_add]
  abel

section Two

variable {l r : RbTree RbAddr} {b : RbAddr} {ρ : List (RbFrame RbAddr)}

/-- The first node `b` below the right child of `a` is taken out of its place. -/
theorem runs_unlink (hρ : ∀ f ∈ ρ, f.side = .left) :
    Runs (shape (node e nil b r) (ρ ++ ⟨.right, c, a, l⟩ :: π))
      (rbUnlink a.1 b.1 (parentAddr 0 (ρ ++ ⟨.right, c, a, l⟩ :: π)) r.addr)
      (parentAddr 0 (ρ ++ ⟨.right, c, b, l⟩ :: π))
      ((shape r (ρ ++ ⟨.right, c, a, l⟩ :: π)).frame
        {(b.1, .of .left (parentAddr 0 (ρ ++ ⟨.right, c, a, l⟩ :: π)) e 0 r.addr)}) := by
  have hstart : shape (node e nil b r) (ρ ++ ⟨.right, c, a, l⟩ :: π) =
      ⟨r.cells b.1 + ((b.1, .of .left (parentAddr 0 (ρ ++ ⟨.right, c, a, l⟩ :: π)) e 0 r.addr) ::ₘ
        pathCells 0 b.1 (ρ ++ ⟨.right, c, a, l⟩ :: π)),
        rootAddr b.1 (ρ ++ ⟨.right, c, a, l⟩ :: π)⟩ := by
    rw [shape_node]
    refine Shape.ext ?_ rfl
    simp only [cells, addr, ← Multiset.singleton_add]
    abel
  have hend : (shape r (ρ ++ ⟨.right, c, a, l⟩ :: π)).frame
        {(b.1, .of .left (parentAddr 0 (ρ ++ ⟨.right, c, a, l⟩ :: π)) e 0 r.addr)} =
      ⟨pathCells 0 r.addr (ρ ++ ⟨.right, c, a, l⟩ :: π) +
        (r.cells (parentAddr 0 (ρ ++ ⟨.right, c, a, l⟩ :: π)) +
          {(b.1, .of .left (parentAddr 0 (ρ ++ ⟨.right, c, a, l⟩ :: π)) e 0 r.addr)}),
        rootAddr r.addr (ρ ++ ⟨.right, c, a, l⟩ :: π)⟩ := by
    refine Shape.ext ?_ rfl
    simp only [shape, Shape.frame_cells]
    abel
  refine .of_nodup fun hnd => ?_
  have hnd' := nodup_shape.mp hnd
  rw [hstart, hend]
  refine (runs_setParentIf b.clear rfl).bind ?_
  cases ρ with
  | nil =>
    simp only [List.nil_append, parentAddr, if_true]
    refine (runs_setHole (f := ⟨.right, c, a, l⟩) ?_).bind (.pure _)
    simp only [← Multiset.singleton_add]
    abel
  | cons f ρ =>
    have hne : f.elem.1 ≠ a.1 := by
      intro he
      obtain rfl : f.elem = a := Subtype.ext he
      rw [fill_append, fill_cons, toList_fill, List.append_assoc] at hnd'
      refine elem_notMem_of_nodup (List.nodup_append.mp (List.nodup_append.mp hnd').2.1).1 ?_
      rw [fill_cons, toList_fill]
      cases hd : f.side <;> simp [fork, toList]
    obtain ⟨e, c₁, p, s⟩ := f
    obtain rfl : e = .left := hρ _ List.mem_cons_self
    simp only [List.cons_append, parentAddr, hne, if_false]
    refine (runs_setHole (f := ⟨.left, c₁, p, s⟩) ?_).bind (.pure _)
    simp only [← Multiset.singleton_add]
    abel

/-- The detached node `b` becomes a copy of `a` and takes its place. -/
theorem runs_takePlace {β : Type} {n : RbNode} {k : RbM β} {y : β}
    {A : Shape RbPtr RbNode RbPtr} (hl : l ≠ nil)
    (hk : Runs ((shape (node c l b r) π).frame
      {(a.1, .of .left (parentAddr 0 π) c l.addr r.addr)}) k y A) :
    Runs ((shape (node c l a r) π).frame {(b.1, n)}) (do
      let m ← rbRead a.1
      rbModify b.1 fun x => { x with parentColor := m.parentColor }
      rbSetLink .right b.1 (← rbLink .right a.1)
      rbSetLink .left b.1 (← rbLink .left a.1)
      rbRelink .left (← rbParent a.1) a.1 b.1
      rbSetParent (← rbLink .left a.1) b.1
      rbSetParentIf (← rbLink .right a.1) b.1
      k) y A := by
  refine .of_nodup fun hnd => ?_
  have hne := addr_ne_of_frame hnd
  rw [shape_node_frame] at hk
  rw [shape_node_frame]
  have hcell : ∀ (M : RbCells) (m : RbNode), (b.1, m) ::ₘ
      (a.1, .of .left (parentAddr 0 π) c l.addr r.addr) ::ₘ M =
      (a.1, .of .left (parentAddr 0 π) c l.addr r.addr) ::ₘ (M + {(b.1, m)}) := by
    intro M m
    simp only [← Multiset.singleton_add]
    abel
  refine (runs_rbRead (Multiset.mem_cons_self ..)).bind ?_
  refine (runs_rbModify _ (hcell ..).symm).bind ?_
  refine (runs_link_of_mem (Multiset.mem_cons_of_mem (Multiset.mem_cons_self ..))).bind ?_
  refine (runs_rbModify _ rfl).bind ?_
  refine (runs_link_of_mem (Multiset.mem_cons_of_mem (Multiset.mem_cons_self ..))).bind ?_
  refine (runs_rbModify _ rfl).bind ?_
  rw [hcell]
  refine runs_rehang (x := fun q => rbSetParent q b.1) ?_ hne ?_
  · rw [rbSetParentIf, if_neg (mt addr_eq_zero.mp hl)]
  · have hend : (b.1, .of .left (parentAddr 0 π) c l.addr r.addr) ::ₘ (l.cells b.1 + r.cells b.1 +
        pathCells 0 b.1 π + {(a.1, .of .left (parentAddr 0 π) c l.addr r.addr)}) =
        (b.1, .of .left (parentAddr 0 π) c l.addr r.addr) ::ₘ
          (a.1, .of .left (parentAddr 0 π) c l.addr r.addr) ::ₘ
            (l.cells b.1 + r.cells b.1 + pathCells 0 b.1 π) := by
      simp only [← Multiset.singleton_add]
      abel
    rw [hend] at hk
    rw [← hcell]
    exact hk

/-- A node with two children. -/
theorem runs_eraseTwo {fuel : ℕ} (hl : l ≠ nil) (hr : r ≠ nil)
    (h : ((node c l a r).fill π).IsRb) (hfuel : ((node c l a r).fill π).height < fuel) :
    ∃ n, Runs (shape (node c l a r) π) (rbEraseTwo fuel a.1) ()
      ((shape (eraseAt c l r π) []).frame {(a.1, n)}) := by
  obtain ⟨e, b, r', ρ, hρ, -, rfl, heq⟩ := exists_eraseAt_eq hl hr c π
  -- the whole tree, seen from the right child of the first node
  have hdown : (node c l a ((node e nil b r').fill ρ)).fill π =
      r'.fill (⟨.right, e, b, nil⟩ :: (ρ ++ ⟨.right, c, a, l⟩ :: π)) := by
    rw [fill_cons, fill_append]
    rfl
  have hrb : (r'.fill (⟨.right, e, b, nil⟩ :: (ρ ++ ⟨.right, c, b, l⟩ :: π))).IsRb := by
    rw [hdown, ← List.cons_append] at h
    exact isRb_fill_elem h
  have hπ := add_height_le_height_fill (node c l a ((node e nil b r').fill ρ)) π
  have hdeep := add_height_le_height_fill r' (⟨.right, e, b, nil⟩ :: (ρ ++ ⟨.right, c, a, l⟩ :: π))
  rw [← hdown] at hdeep
  simp only [height, List.length_cons, List.length_append] at hπ hdeep
  have hfirst : Side.left.extreme ((node e nil b r').fill ρ).toList = some b := by
    rw [toList_fill, before_of_left hρ]
    rfl
  have hfocus : shape (node c l a ((node e nil b r').fill ρ)) π =
      shape (node e nil b r') (ρ ++ ⟨.right, c, a, l⟩ :: π) := by
    rw [← shape_fill_append]
    exact shape_fork_other (d := .left)
  have hback : ∀ b, shape r' (ρ ++ ⟨.right, c, b, l⟩ :: π) = shape (node c l b (r'.fill ρ)) π := by
    intro b
    rw [← shape_fill_append]
    exact (shape_fork_other (d := .left)).symm
  have hdesc := runs_descend (d := .left) (t := (node e nil b r').fill ρ)
    (π := ⟨.right, c, a, l⟩ :: π) hr (show _ ≤ fuel by omega)
  rw [hfirst, shape_fill_append] at hdesc
  refine ⟨.of .left (parentAddr 0 π) c l.addr (r'.fill ρ).addr, ?_⟩
  rw [heq]
  refine runs_node_right.bind ?_
  rw [hfocus]
  refine hdesc.bind (runs_node_right.bind (runs_node_parent.bind (runs_node_color.bind
    ((runs_unlink hρ).bind ?_))))
  -- the first node is detached now
  rw [hback]
  refine runs_takePlace hl ?_
  rw [← hback]
  refine (runs_eraseEnd (f := ⟨.right, e, b, nil⟩) rfl hrb ?_).frame _
  rw [List.length_append, List.length_cons]
  omega

/-- The removal of any node. What the removed node holds afterwards does not matter. -/
theorem runs_erase {fuel : ℕ} (h : ((node c l a r).fill π).IsRb)
    (hfuel : 2 * Nat.log 2 (((node c l a r).fill π).size + 1) < fuel) :
    ∃ n, Runs (shape (node c l a r) π) (rbErase fuel a.1) ()
      ((shape (eraseAt c l r π) []).frame {(a.1, n)}) := by
  have hheight := h.height_le
  have hπ := add_height_le_height_fill (node c l a r) π
  by_cases hl : l = nil
  · subst hl
    refine ⟨.of .left (parentAddr 0 π) c 0 r.addr, runs_node_left.bind ?_⟩
    rw [if_pos (addr_eq_zero.mpr rfl)]
    exact runs_node_right.bind (runs_eraseOne (d := .left) h (by omega))
  · by_cases hr : r = nil
    · subst hr
      refine ⟨.of .right (parentAddr 0 π) c 0 l.addr, runs_node_left.bind ?_⟩
      rw [if_neg (mt addr_eq_zero.mp hl), eraseAt_nil_right]
      refine runs_node_right.bind ?_
      rw [if_pos (addr_eq_zero.mpr rfl)]
      exact runs_node_left.bind (runs_eraseOne (d := .right) h (by omega))
    · obtain ⟨n, hrun⟩ := runs_eraseTwo hl hr h (show _ < fuel by omega)
      refine ⟨n, runs_node_left.bind ?_⟩
      rw [if_neg (mt addr_eq_zero.mp hl)]
      refine runs_node_right.bind ?_
      rw [if_neg (mt addr_eq_zero.mp hr)]
      exact hrun

end Two

end RbTree

end HMP
