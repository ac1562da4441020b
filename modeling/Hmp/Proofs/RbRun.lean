import Hmp.Proofs.RbErase
import Hmp.Proofs.RbInsert

/-! A tree in memory under insertions, removals and replacements stays a red-black tree and stands
for the list that the operations make. -/

namespace HMP

open RbTree

/-- The nodes of `t` are in memory, below the root. -/
structure RbMem.Holds (s : RbMem) (t : RbTree RbAddr) : Prop where
  has : s.Has (shape t [])
  isRb : t.IsRb

namespace RbMem.Holds

variable {s : RbMem} {t : RbTree RbAddr}

theorem nodup (h : s.Holds t) : t.toList.Nodup := nodup_shape.mp h.has.nodup

/-- A node outside the tree, beside it. -/
theorem frame (h : s.Holds t) {b : RbAddr} {n : RbNode} (hb : b ∉ t.toList)
    (hn : s.cell b.1 = some n) : s.Has ((shape t []).frame {(b.1, n)}) := by
  refine ⟨?_, ?_, h.has.var⟩
  · have hcons : (((shape t []).frame {(b.1, n)}).cells.map Prod.fst) =
        ((b :: t.toList).map Subtype.val : List RbPtr) := by
      rw [Shape.frame_cells, Multiset.add_comm, Multiset.singleton_add, Multiset.map_cons, map_shape]
      rfl
    rw [hcons, Multiset.coe_nodup, List.nodup_map_iff Subtype.val_injective]
    exact List.nodup_cons.mpr ⟨hb, h.nodup⟩
  · intro c hc
    rw [Shape.frame_cells, Multiset.mem_add, Multiset.mem_singleton] at hc
    obtain hc | rfl := hc
    · exact h.has.cell c hc
    · exact hn

/-- The free link of a node is a hole of the tree. -/
theorem exists_hole (h : s.Holds t) {d : Side} {p : RbAddr} (hp : p ∈ t.toList)
    (hlink : (s.cell p.1).map (·.link d) = some 0) :
    ∃ c u π, t = nil.fill (⟨d, c, p, u⟩ :: π) := by
  obtain ⟨c, l, r, π, rfl⟩ := exists_fill_of_mem hp
  obtain ⟨c', u, p', v, hfork⟩ := (nil_or_fork d (node c l p r)).resolve_left nofun
  obtain rfl : p = p' := by cases d <;> simp_all [fork]
  rw [hfork] at h ⊢
  have hcell := h.has.cell (p.1, .of d (parentAddr 0 π) c' u.addr v.addr) (by
    rw [shape_fill, shape_fork_cells]
    exact Multiset.mem_cons_self ..)
  rw [hcell, Option.map_some, RbNode.link_of, Option.some.injEq, addr_eq_zero] at hlink
  exact ⟨c', v, π, by rw [hlink]; rfl⟩

end RbMem.Holds

/-- Addresses outside a list, and what is there after an operation. -/
def Untouched (xs : List RbAddr) (s s' : RbMem) : Prop :=
  ∀ p n, s.cell p = some n → p ∉ xs.map Subtype.val → s'.cell p = some n

theorem insertBeside_append {d : Side} {p b : RbAddr} {xs ys : List RbAddr} (hp : p ∉ xs) :
    insertBeside d p b (xs ++ p :: ys) = xs ++ beside d p b ++ ys := by
  induction xs with
  | nil => exact if_pos rfl
  | cons x xs ih =>
    rw [List.mem_cons, not_or] at hp
    rw [List.cons_append, insertBeside, if_neg (Ne.symm hp.1), ih hp.2]
    rfl

/-- What is before and after the free link of `p`. -/
theorem exists_beside (d : Side) (c : Color) (p b : RbAddr) (u : RbTree RbAddr)
    (π : List (RbFrame RbAddr)) : ∃ xs ys, (nil.fill (⟨d, c, p, u⟩ :: π)).toList = xs ++ p :: ys ∧
      before (⟨d, c, p, u⟩ :: π) ++ b :: after (⟨d, c, p, u⟩ :: π) =
        xs ++ beside d p b ++ ys := by
  rw [toList_fill]
  cases d with
  | left => exact ⟨before π, u.toList ++ after π, by simp [before, after, toList],
      by simp [before, after, beside]⟩
  | right => exact ⟨before π ++ u.toList, after π, by simp [before, after, toList],
      by simp [before, after, beside]⟩

/-! ## The operations -/

section Ops

variable {s : RbMem} {t : RbTree RbAddr} {fuel : ℕ}

/-- Insertion at a hole. -/
theorem insert_hole {π : List (RbFrame RbAddr)} {b : RbAddr} {n : RbNode} (h : s.Holds (nil.fill π))
    (hb : b ∉ (nil.fill π).toList) (hn : s.cell b.1 = some n)
    (hfuel : rbFuel (nil.fill π).size ≤ fuel) :
    ∃ s', rbInsert fuel b.1 (parentAddr 0 π) (place π) s = some ((), s') ∧
      s'.Holds (insertAt b π) ∧ Untouched (b :: (nil.fill π).toList) s s' := by
  have hrun := runs_insert (b := b) (n := n) h.isRb hfuel
  obtain ⟨s', hx, hs', hout⟩ := hrun.exec (h.frame hb hn)
  refine ⟨s', hx, ⟨hs', insertAt_isRb b h.isRb⟩, fun p m hm hp => hout p m hm ?_⟩
  rw [Shape.frame_cells, Multiset.map_add, map_shape]
  simpa [or_comm] using hp

theorem insert_root {b : RbAddr} {n : RbNode} (h : s.Holds nil) (hn : s.cell b.1 = some n)
    (hfuel : rbFuel 0 ≤ fuel) :
    ∃ s' t', rbInsert fuel b.1 0 .root s = some ((), s') ∧ s'.Holds t' ∧ t'.toList = [b] ∧
      Untouched [b] s s' := by
  obtain ⟨s', hx, hs', hout⟩ := insert_hole (π := []) h (List.not_mem_nil) hn hfuel
  exact ⟨s', _, hx, hs', toList_insertAt b [], hout⟩

/-- A node put below a free link goes beside the node that has the link. -/
theorem insert_beside {d : Side} {p b : RbAddr} {n : RbNode} (h : s.Holds t) (hp : p ∈ t.toList)
    (hlink : (s.cell p.1).map (·.link d) = some 0) (hb : b ∉ t.toList)
    (hn : s.cell b.1 = some n) (hfuel : rbFuel t.size ≤ fuel) :
    ∃ s' t', rbInsert fuel b.1 p.1 (.child d p.1) s = some ((), s') ∧ s'.Holds t' ∧
      t'.toList = insertBeside d p b t.toList ∧ Untouched (b :: t.toList) s s' := by
  obtain ⟨c, u, π, rfl⟩ := h.exists_hole hp hlink
  obtain ⟨s', hx, hs', hout⟩ := insert_hole h hb hn hfuel
  refine ⟨s', _, hx, hs', ?_, hout⟩
  obtain ⟨xs, ys, hlist, hbeside⟩ := exists_beside d c p b u π
  have hnd := h.nodup
  rw [hlist, List.nodup_middle, List.nodup_cons, List.mem_append, not_or] at hnd
  rw [toList_insertAt, hbeside, hlist, insertBeside_append hnd.1.1]

theorem erase_node {a : RbAddr} (h : s.Holds t) (ha : a ∈ t.toList)
    (hfuel : rbFuel t.size ≤ fuel) :
    ∃ s' t', rbErase fuel a.1 s = some ((), s') ∧ s'.Holds t' ∧
      t'.toList = t.toList.erase a ∧ Untouched t.toList s s' := by
  obtain ⟨c, l, r, π, rfl⟩ := exists_fill_of_mem ha
  obtain ⟨n, hrun⟩ := runs_erase h.isRb hfuel
  rw [← shape_fill] at hrun
  obtain ⟨s', hx, hs', hout⟩ := hrun.exec h.has
  refine ⟨s', _, hx, ⟨hs'.of_frame, eraseAt_isRb h.isRb⟩, ?_, fun p m hm hp => hout p m hm ?_⟩
  · have hnd := h.nodup
    have hlist : ((node c l a r).fill π).toList =
        (before π ++ l.toList) ++ a :: (r.toList ++ after π) := by
      rw [toList_fill, toList]
      simp
    rw [hlist, List.nodup_middle, List.nodup_cons, List.mem_append, not_or] at hnd
    rw [toList_eraseAt, hlist, List.erase_append_right _ hnd.1.1, List.erase_cons_head]
    simp
  · rwa [map_shape]

theorem replace_node {a b : RbAddr} {n : RbNode} (h : s.Holds t) (ha : a ∈ t.toList)
    (hb : b ∉ t.toList) (hn : s.cell b.1 = some n) :
    ∃ s' t', rbReplaceNode a.1 b.1 s = some ((), s') ∧ s'.Holds t' ∧
      t'.toList = t.toList.map (fun x => if x = a then b else x) ∧
      Untouched (b :: t.toList) s s' := by
  have hframe := h.frame hb hn
  obtain ⟨c, l, r, π, rfl⟩ := exists_fill_of_mem ha
  have hrun := runs_replaceNode (a := a) (b := b) (n := n) (c := c) (l := l) (r := r) (π := π)
  rw [← shape_fill, ← shape_fill (node c l b r)] at hrun
  obtain ⟨s', hx, hs', hout⟩ := hrun.exec hframe
  refine ⟨s', _, hx, ⟨hs'.of_frame, isRb_fill_node h.isRb⟩, ?_, fun p m hm hp => hout p m hm ?_⟩
  · have hnd := h.nodup
    have hlist : ∀ a, ((node c l a r).fill π).toList =
        (before π ++ l.toList) ++ a :: (r.toList ++ after π) := by
      intro a
      rw [toList_fill, toList]
      simp
    rw [hlist, List.nodup_middle, List.nodup_cons, List.mem_append, not_or] at hnd
    have hmap : ∀ xs : List RbAddr, a ∉ xs → xs.map (fun x => if x = a then b else x) = xs := by
      intro xs hxs
      refine (List.map_congr_left fun x hx => ?_).trans (List.map_id xs)
      exact if_neg fun he : x = a => hxs (he ▸ hx)
    rw [hlist, hlist, List.map_append, List.map_cons, hmap _ hnd.1.1, hmap _ hnd.1.2, if_pos rfl]
  · rw [Shape.frame_cells, Multiset.map_add, map_shape]
    simpa [or_comm] using hp

end Ops

/-! ## Runs -/

namespace RbState

/-- The memory holds a red-black tree that stands for the list. -/
def Good (s : RbState) : Prop := ∃ t, s.mem.Holds t ∧ t.toList = s.elems

theorem good_init {s : RbState} (h : rbSys.init s) : s.Good := by
  refine ⟨nil, ⟨⟨Multiset.nodup_zero, nofun, h.1⟩, rfl, 0, rfl⟩, h.2.symm⟩

/-- An operation that the caller may do succeeds, does to the list what it is for, and writes to no
node but those of the tree and the one it brings in. -/
theorem good_step {s : RbState} {o : RbOp} (h : s.Good) (hok : o.Ok s) :
    ∃ s', rbSys.step s o = some s' ∧ s'.Good ∧ s'.elems = o.onList s.elems ∧
      Untouched (o.fresh ++ s.elems) s.mem s'.mem := by
  obtain ⟨mem, elems⟩ := s
  obtain ⟨t, ht, hlist⟩ := h
  obtain rfl : t.toList = elems := hlist
  have hsize : rbFuel t.size ≤ rbFuel t.toList.length := by rw [length_toList]
  -- each operation by its own lemma
  obtain ⟨m, t', hx, ht', hlist', hout⟩ : ∃ m t',
      o.code (rbFuel t.toList.length) mem = some ((), m) ∧ m.Holds t' ∧
        t'.toList = o.onList t.toList ∧ Untouched (o.fresh ++ t.toList) mem m := by
    cases o with
    | insertRoot b =>
      obtain ⟨hnil, hb⟩ := hok
      obtain ⟨n, hn⟩ := Option.isSome_iff_exists.mp hb
      obtain rfl : t = nil := by
        cases t with
        | nil => rfl
        | node c l a r => simp [toList] at hnil
      exact insert_root ht hn hsize
    | insert d p b =>
      obtain ⟨hp, hlink, hb, hn⟩ := hok
      obtain ⟨n, hn⟩ := Option.isSome_iff_exists.mp hn
      exact insert_beside ht hp hlink hb hn hsize
    | erase a => exact erase_node ht hok hsize
    | replace a b =>
      obtain ⟨ha, hb, hn⟩ := hok
      obtain ⟨n, hn⟩ := Option.isSome_iff_exists.mp hn
      exact replace_node ht ha hb hn
  refine ⟨⟨m, o.onList t.toList⟩, ?_, ⟨t', ht', hlist'⟩, rfl, hout⟩
  simp only [rbSys, hx, Option.map_some]

theorem good_of_reach {s : RbState} (h : rbSys.Reach (fun s o => o.Ok s) s) : s.Good :=
  h.inv (fun _ hs => good_init hs) fun s o s' hs hok hst => by
    obtain ⟨s₁, hst₁, hs₁, -⟩ := good_step hs hok
    obtain rfl : s₁ = s' := Option.some.inj (hst₁.symm.trans hst)
    exact hs₁

theorem mem_onList {s : RbState} {o : RbOp} {x : RbAddr} (h : x ∈ o.onList s.elems) :
    x ∈ o.fresh ++ s.elems := by
  cases o with
  | insertRoot b => exact List.mem_append_left _ h
  | insert d p b =>
    have hsub : ∀ xs, x ∈ insertBeside d p b xs → x = b ∨ x ∈ xs := by
      intro xs
      induction xs with
      | nil => exact fun h => absurd h List.not_mem_nil
      | cons y ys ih =>
        rw [insertBeside]
        split_ifs with hy
        · cases d <;> simp [beside, hy]
          tauto
        · rw [List.mem_cons, List.mem_cons]
          rintro (rfl | hx)
          · exact .inr (.inl rfl)
          · exact (ih hx).imp id .inr
    simpa [RbOp.fresh] using hsub _ h
  | erase a => exact List.mem_of_mem_erase h
  | replace a b =>
    obtain ⟨y, hy, rfl⟩ := List.mem_map.mp h
    split_ifs
    · exact List.mem_cons_self
    · exact List.mem_cons_of_mem _ hy

end RbState

section Samples

/-- The node number `k`. -/
def sampleAddr (k : Fin 4) : RbAddr :=
  ⟨BitVec.ofNat 64 (8 * (k + 1)), by revert k; decide, by revert k; decide⟩

/-- Four nodes and no tree. -/
def sampleMem : RbMem :=
  rbRoot fun p => if p ∈ [8, 16, 24, 32] then some ⟨0, 0, 0⟩ else none

def sampleOps : List RbOp :=
  [.insertRoot (sampleAddr 0), .insert .right (sampleAddr 0) (sampleAddr 1),
    .insert .right (sampleAddr 1) (sampleAddr 2), .erase (sampleAddr 0)]

/-- A red node below a red node, on the right. -/
def redRed : RbTree RbAddr × List (RbFrame RbAddr) :=
  (node .red nil (sampleAddr 2) nil,
    [⟨.right, .red, sampleAddr 1, nil⟩, ⟨.right, .black, sampleAddr 0, nil⟩])

def redRedMem : RbMem where
  cell := fun p => [(8, .of .left 0 .black 0 16), (16, .of .left 8 .red 0 24),
    (24, .of .left 16 .red 0 0)].lookup p
  var := 8

/-- A node without a left child, and black height 1 on its right, below a red node. -/
def leftShort : List (RbFrame RbAddr) :=
  [⟨.left, .black, sampleAddr 0,
    node .red (node .black nil (sampleAddr 1) nil) (sampleAddr 2) (node .black nil (sampleAddr 3) nil)⟩]

def leftShortMem : RbMem where
  cell := fun p => [(8, .of .left 0 .black 0 24), (16, .of .left 24 .black 0 0),
    (24, .of .left 8 .red 16 32), (32, .of .left 24 .black 0 0)].lookup p
  var := 8

end Samples

/-- `rb_insert_color` mends a tree wherever it is red below red: whatever red subtree stands at a place
that a black node of the same height would fill, what it leaves is a red-black tree with the nodes in
the order they had. -/
theorem rb_insert_color_mends {s : RbMem} {t : RbTree RbAddr} {π : List (RbFrame RbAddr)}
    {n fuel : ℕ} (h : s.Has (shape t π)) (ht : t.Bal n) (htc : t.color = .red) (hπ : HoleBal π n)
    (hfuel : π.length < fuel) :
    ∃ s' t', rbInsertColor fuel t.addr s = some ((), s') ∧ s'.Holds t' ∧
      t'.toList = (t.fill π).toList ∧ Untouched (t.fill π).toList s s' := by
  obtain ⟨s', hx, hs', hout⟩ := (runs_insertColor htc hπ hfuel).exec h
  refine ⟨s', _, hx, ⟨hs', insertLoop_isRb ht htc hπ⟩, ?_, fun p m hm hp => hout p m hm ?_⟩
  · rw [toList_blacken, toList_insertLoop]
  · rwa [map_shape]

theorem rb_insert_color_mends_sample : ∃ s' t',
    rbInsertColor 3 24 redRedMem = some ((), s') ∧ s'.Holds t' ∧
      t'.toList = [sampleAddr 0, sampleAddr 1, sampleAddr 2] := by
  obtain ⟨s', t', hx, hs', hlist, -⟩ := rb_insert_color_mends (s := redRedMem) (t := redRed.1)
    (π := redRed.2) (n := 0) ⟨by decide, by decide, by decide⟩
    ⟨rfl, rfl, rfl, rfl⟩ rfl ⟨rfl, rfl, rfl, rfl, trivial⟩ (show 2 < 3 by decide)
  exact ⟨s', t', hx, hs', hlist⟩

/-- `__rb_erase_color` mends a tree wherever a subtree is one black node short. -/
theorem rb_erase_color_mends {s : RbMem} {t : RbTree RbAddr} {π : List (RbFrame RbAddr)}
    {n fuel : ℕ} (h : s.Has (shape t π)) (ht : t.Short n) (hπ : HoleBal π (n + 1))
    (hfuel : π.length < fuel) :
    ∃ s' t', rbEraseColor fuel t.addr (parentAddr 0 π) s = some ((), s') ∧ s'.Holds t' ∧
      t'.toList = (t.fill π).toList ∧ Untouched (t.fill π).toList s s' := by
  obtain ⟨s', hx, hs', hout⟩ := (runs_eraseColor ht hπ hfuel).exec h
  refine ⟨s', _, hx, ⟨hs', eraseLoop_isRb ht hπ⟩, ?_, fun p m hm hp => hout p m hm ?_⟩
  · rw [toList_eraseLoop]
  · rwa [map_shape]

theorem rb_erase_color_mends_sample : ∃ s' t',
    rbEraseColor 2 0 8 leftShortMem = some ((), s') ∧ s'.Holds t' ∧
      t'.toList = [sampleAddr 0, sampleAddr 1, sampleAddr 2, sampleAddr 3] := by
  obtain ⟨s', t', hx, hs', hlist, -⟩ := rb_erase_color_mends (s := leftShortMem) (t := nil)
    (π := leftShort) (n := 0) ⟨by decide, by decide, by decide⟩ rfl
    ⟨⟨rfl, rfl, ⟨rfl, rfl⟩, ⟨rfl, rfl⟩⟩, trivial⟩ (show 1 < 2 by decide)
  exact ⟨s', t', hx, hs', hlist⟩

/-- Along every run from an empty tree the memory holds a red-black tree whose nodes, from left to
right, are the list that the operations make. No null pointer and no pointer to anything but a node
is followed, and no loop takes more than a logarithmic number of turns: an operation that the caller
may do always succeeds. -/
theorem rb_reach {s : RbState} (h : rbSys.Reach (fun s o => o.Ok s) s) :
    (∃ t, s.mem.Holds t ∧ t.toList = s.elems) ∧
      ∀ o : RbOp, o.Ok s → ∃ s', rbSys.step s o = some s' ∧ s'.elems = o.onList s.elems := by
  have hgood := RbState.good_of_reach h
  refine ⟨hgood, fun o hok => ?_⟩
  obtain ⟨s', hst, -, hlist, -⟩ := RbState.good_step hgood hok
  exact ⟨s', hst, hlist⟩

theorem rb_reach_sample : ∃ s, rbSys.Reach (fun s o => o.Ok s) s ∧
    s.elems = [sampleAddr 1, sampleAddr 2] ∧ (∃ t, s.mem.Holds t ∧ t.toList = s.elems) ∧
      ∃ s', rbSys.step s (.replace (sampleAddr 2) (sampleAddr 3)) = some s' := by
  obtain ⟨s, hr, hl, hok⟩ := Sys.exists_run_of_replay rbSys (fun s o => o.Ok s) ⟨sampleMem, []⟩
    sampleOps (p := fun s => s.elems = [sampleAddr 1, sampleAddr 2] ∧
      (RbOp.replace (sampleAddr 2) (sampleAddr 3)).Ok s) (by decide +kernel)
  have hreach : rbSys.Reach (fun s o => o.Ok s) s := ⟨_, ⟨rfl, rfl⟩, hr⟩
  obtain ⟨ht, hstep⟩ := rb_reach hreach
  obtain ⟨s', hst, -⟩ := hstep _ hok
  exact ⟨s, hreach, hl, ht, s', hst⟩

/-- A record at an address that is no node of the tree and is never brought in stays as it is, however
many operations there are. -/
theorem rb_run_untouched {s s' : RbState} {q : RbPtr} {n : RbNode}
    (h : rbSys.Reach (fun s o => o.Ok s) s) (hq : q ∉ s.elems.map Subtype.val)
    (hn : s.mem.cell q = some n)
    (hrun : rbSys.Run (fun s o => o.Ok s ∧ q ∉ o.fresh.map Subtype.val) s s') :
    s'.mem.cell q = some n := by
  refine (hrun.keeps_of_inv (I := RbState.Good)
    (J := fun s => q ∉ s.elems.map Subtype.val ∧ s.mem.cell q = some n) ?_ ?_
    (RbState.good_of_reach h) ⟨hq, hn⟩).2
  · intro s o s' hs hok hst
    obtain ⟨s₁, hst₁, hs₁, -⟩ := RbState.good_step hs hok.1
    obtain rfl : s₁ = s' := Option.some.inj (hst₁.symm.trans hst)
    exact hs₁
  · rintro s o s' hs ⟨hq, hn⟩ hok hst
    obtain ⟨s₁, hst₁, -, hlist, hout⟩ := RbState.good_step hs hok.1
    obtain rfl : s₁ = s' := Option.some.inj (hst₁.symm.trans hst)
    have hall : q ∉ (o.fresh ++ s.elems).map Subtype.val := by
      rw [List.map_append, List.mem_append, not_or]
      exact ⟨hok.2, hq⟩
    refine ⟨fun hm => hall ?_, hout q n hn hall⟩
    obtain ⟨x, hx, rfl⟩ := List.mem_map.mp hm
    rw [hlist] at hx
    exact List.mem_map_of_mem (RbState.mem_onList hx)

theorem rb_run_untouched_sample : ∃ s,
    rbSys.Run (fun s o => o.Ok s ∧ 32 ∉ o.fresh.map Subtype.val) ⟨sampleMem, []⟩ s ∧
      s.elems = [sampleAddr 1, sampleAddr 2] ∧ s.mem.cell 32 = some ⟨0, 0, 0⟩ := by
  obtain ⟨s, hr, hl⟩ := Sys.exists_run_of_replay rbSys
    (fun s o => o.Ok s ∧ 32 ∉ o.fresh.map Subtype.val) ⟨sampleMem, []⟩ sampleOps
    (p := fun s => s.elems = [sampleAddr 1, sampleAddr 2]) (by decide +kernel)
  exact ⟨s, hr, hl, rb_run_untouched ⟨_, ⟨rfl, rfl⟩, .nil⟩ (by decide) rfl hr⟩

/-- The walks follow the list of the nodes in every memory that holds a tree, and write nothing:
`rb_first` and `rb_last` give its ends, `rb_next` and `rb_prev` the node behind and the node in
front, NULL where there is none. -/
theorem rb_walk {s : RbMem} {t : RbTree RbAddr} {fuel : ℕ} (h : s.Holds t)
    (hfuel : rbFuel t.size ≤ fuel) :
    rbFirst fuel s = some (ptr t.toList.head?, s) ∧
      rbLast fuel s = some (ptr t.toList.getLast?, s) ∧
      ∀ xs a ys, t.toList = xs ++ a :: ys →
        rbNext fuel a.1 s = some (ptr ys.head?, s) ∧
          rbPrev fuel a.1 s = some (ptr xs.getLast?, s) := by
  have hheight : t.height < fuel := lt_of_le_of_lt h.isRb.height_le hfuel
  refine ⟨(readOnly_end .left fuel).exec (runs_end hheight.le) h.has,
    (readOnly_end .right fuel).exec (runs_end hheight.le) h.has, fun xs a ys hlist => ?_⟩
  exact ⟨(readOnly_neighbour .right fuel a.1).exec (runs_next hheight hlist) h.has,
    (readOnly_neighbour .left fuel a.1).exec (runs_prev hheight hlist) h.has⟩

theorem rb_walk_sample : ∃ s : RbState, rbSys.Reach (fun s o => o.Ok s) s ∧
    s.elems = [sampleAddr 1, sampleAddr 2] ∧
    rbNext 5 (sampleAddr 1).1 s.mem = some ((sampleAddr 2).1, s.mem) ∧
      rbNext 5 (sampleAddr 2).1 s.mem = some (0, s.mem) := by
  obtain ⟨s, hr, hl⟩ := Sys.exists_run_of_replay rbSys (fun s o => o.Ok s) ⟨sampleMem, []⟩
    sampleOps (p := fun s => s.elems = [sampleAddr 1, sampleAddr 2]) (by decide +kernel)
  have hreach : rbSys.Reach (fun s o => o.Ok s) s := ⟨_, ⟨rfl, rfl⟩, hr⟩
  obtain ⟨t, ht, hlist⟩ := RbState.good_of_reach hreach
  rw [hl] at hlist
  have hfuel : rbFuel t.size ≤ 5 := by
    rw [← length_toList, hlist]
    decide
  exact ⟨s, hreach, hl, ((rb_walk ht hfuel).2.2 [] _ [sampleAddr 2] hlist).1,
    ((rb_walk ht hfuel).2.2 [sampleAddr 1] _ [] hlist).1⟩

end HMP
