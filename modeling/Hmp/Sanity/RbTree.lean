import Hmp.Lib.RbFix
import Hmp.Spec.RbTree
import Mathlib.Tactic.Abel

/-! Red-black trees in memory. The elements of a tree are the addresses of its nodes, so the tree
says what is in memory: `shape t π` are the nodes of `t` in the hole of `π`, with the root. What the
code reads and writes at one node, and the rotation, are runs between such shapes. -/

namespace HMP

/-! ## The word of the parent and the colour -/

/-- The two low bits are free. -/
def Clear (p : RbPtr) : Prop := p &&& 3 = 0

theorem clear_zero : Clear 0 := rfl

theorem Clear.and_not {p : RbPtr} (h : Clear p) : p &&& ~~~3 = p := by
  calc p &&& ~~~3 = (p &&& 3) ||| (p &&& ~~~3) := by rw [h]; exact BitVec.zero_or.symm
    _ = p &&& (3 ||| ~~~3) := BitVec.and_or_distrib_left.symm
    _ = p := BitVec.and_allOnes

theorem Clear.and_one {p : RbPtr} (h : Clear p) : p &&& 1 = 0 := by
  calc p &&& 1 = (p &&& 3) &&& 1 := by rw [BitVec.and_assoc]; rfl
    _ = 0 := by rw [h]; rfl

theorem Clear.and_not_one {p : RbPtr} (h : Clear p) : p &&& ~~~1 = p := by
  calc p &&& ~~~1 = (p &&& ~~~3) &&& ~~~1 := by rw [h.and_not]
    _ = p &&& ~~~3 := by rw [BitVec.and_assoc]; rfl
    _ = p := h.and_not

namespace RbNode

/-- A node with the child `near` on side `d`. -/
def of (d : Side) (p : RbPtr) (c : Color) (near far : RbPtr) : RbNode :=
  match d with
  | .left => ⟨p ||| c.bit, far, near⟩
  | .right => ⟨p ||| c.bit, near, far⟩

variable {d : Side} {p q near far : RbPtr} {c c' : Color}

@[simp] theorem link_of : (RbNode.of d p c near far).link d = near := by cases d <;> rfl

@[simp] theorem link_other_of : (RbNode.of d p c near far).link d.other = far := by cases d <;> rfl

@[simp] theorem setLink_of : (RbNode.of d p c near far).setLink d q = RbNode.of d p c q far := by
  cases d <;> rfl

@[simp] theorem setLink_other_of :
    (RbNode.of d p c near far).setLink d.other q = RbNode.of d p c near q := by cases d <;> rfl

theorem of_parentColor : (RbNode.of d p c near far).parentColor = p ||| c.bit := by cases d <;> rfl

theorem of_with (w : BitVec 64) : { RbNode.of d p c near far with parentColor := w } =
    match d with
    | .left => ⟨w, far, near⟩
    | .right => ⟨w, near, far⟩ := by cases d <;> rfl

theorem parent_of (h : Clear p) : (RbNode.of d p c near far).parent = p := by
  rw [RbNode.parent, of_parentColor, BitVec.and_or_distrib_right, h.and_not]
  cases c <;> exact BitVec.or_zero

theorem color_of (h : Clear p) : (RbNode.of d p c near far).color = c.bit := by
  rw [RbNode.color, of_parentColor, BitVec.and_or_distrib_right, h.and_one]
  cases c <;> rfl

theorem setBlack_of : (RbNode.of d p c near far).setBlack = RbNode.of d p .black near far := by
  rw [RbNode.setBlack, of_with, of_parentColor, BitVec.or_assoc]
  cases c <;> cases d <;> rfl

theorem setRed_of (h : Clear p) :
    (RbNode.of d p c near far).setRed = RbNode.of d p .red near far := by
  rw [RbNode.setRed, of_with, of_parentColor, BitVec.and_or_distrib_right, h.and_not_one]
  cases c <;> cases d <;> rfl

theorem setColor_of (h : Clear p) :
    (RbNode.of d p c near far).setColor c'.bit = RbNode.of d p c' near far := by
  have hword : (p ||| c.bit) &&& ~~~1 ||| c'.bit = p ||| c'.bit := by
    rw [BitVec.and_or_distrib_right, h.and_not_one]
    cases c <;> rw [BitVec.or_assoc] <;> cases c' <;> rfl
  rw [RbNode.setColor, of_with, of_parentColor, hword]
  cases d <;> rfl

theorem setParent_of (h : Clear p) :
    (RbNode.of d p c near far).setParent q = RbNode.of d q c near far := by
  have hword : (p ||| c.bit) &&& 3 ||| q = q ||| c.bit := by
    rw [BitVec.and_or_distrib_right, h, BitVec.or_comm _ q]
    cases c <;> rfl
  rw [RbNode.setParent, of_with, of_parentColor, hword]
  cases d <;> rfl

end RbNode

/-! ## Trees in memory -/

theorem RbAddr.clear (a : RbAddr) : Clear a.1 := by
  calc a.1 &&& 3 = (a.1 &&& 7) &&& 3 := by rw [BitVec.and_assoc]; rfl
    _ = 0 := by rw [a.2.2]; rfl

abbrev RbCells : Type := Multiset (RbPtr × RbNode)

namespace RbTree

def addr : RbTree RbAddr → RbPtr
  | nil => 0
  | node _ _ a _ => a.1

/-- The nodes of a tree below `p`. -/
def cells : RbPtr → RbTree RbAddr → RbCells
  | _, nil => 0
  | p, node c l a r => (a.1, .of .left p c l.addr r.addr) ::ₘ (l.cells a.1 + r.cells a.1)

/-- What a hole hangs below. -/
def parentAddr (base : RbPtr) : List (RbFrame RbAddr) → RbPtr
  | [] => base
  | f :: _ => f.elem.1

def rootAddr (hole : RbPtr) : List (RbFrame RbAddr) → RbPtr
  | [] => hole
  | f :: π => rootAddr f.elem.1 π

/-- The nodes around a hole that points to `hole`, below `base`. -/
def pathCells (base hole : RbPtr) : List (RbFrame RbAddr) → RbCells
  | [] => 0
  | f :: π => (f.elem.1, .of f.side (parentAddr base π) f.color hole f.sib.addr) ::ₘ
      (f.sib.cells f.elem.1 + pathCells base f.elem.1 π)

/-- The tree `t` in the hole of `π`. -/
def shape (t : RbTree RbAddr) (π : List (RbFrame RbAddr)) : Shape RbPtr RbNode RbPtr :=
  ⟨t.cells (parentAddr 0 π) + pathCells 0 t.addr π, rootAddr t.addr π⟩

variable {d : Side} {c : Color} {t u : RbTree RbAddr} {a : RbAddr} {π : List (RbFrame RbAddr)}

@[simp] theorem addr_fork : (fork d c t a u).addr = a.1 := by cases d <;> rfl

@[simp] theorem addr_blacken : t.blacken.addr = t.addr := by cases t <;> rfl

theorem addr_eq_zero : t.addr = 0 ↔ t = nil := by
  cases t with
  | nil => exact ⟨fun _ => rfl, fun _ => rfl⟩
  | node c l a r => exact ⟨fun h => absurd h a.2.1, nofun⟩

theorem cells_fork (p : RbPtr) : (fork d c t a u).cells p =
    (a.1, .of d p c t.addr u.addr) ::ₘ (t.cells a.1 + u.cells a.1) := by
  cases d
  · rfl
  · rw [Multiset.add_comm]
    rfl

theorem clear_parentAddr (π : List (RbFrame RbAddr)) : Clear (parentAddr 0 π) := by
  cases π with
  | nil => exact clear_zero
  | cons f π => exact f.elem.clear

/-- One step up. -/
theorem shape_fork : shape (fork d c t a u) π = shape t (⟨d, c, a, u⟩ :: π) := by
  refine Shape.ext ?_ ?_
  · simp only [shape, cells_fork, addr_fork, pathCells, parentAddr, ← Multiset.singleton_add]
    abel
  · simp only [shape, addr_fork, rootAddr]

theorem shape_fork_other : shape (fork d c t a u) π = shape u (⟨d.other, c, a, t⟩ :: π) := by
  rw [← fork_other, shape_fork]

theorem shape_fill (t : RbTree RbAddr) (π : List (RbFrame RbAddr)) :
    shape (t.fill π) [] = shape t π := by
  induction π generalizing t with
  | nil => rfl
  | cons f π ih => rw [fill_cons, ih, shape_fork]

/-- Down a whole way. -/
theorem shape_fill_append (t : RbTree RbAddr) (σ π : List (RbFrame RbAddr)) :
    shape (t.fill σ) π = shape t (σ ++ π) := by
  rw [← shape_fill, ← fill_append, shape_fill]

theorem map_cells (p : RbPtr) (t : RbTree RbAddr) :
    (t.cells p).map Prod.fst = (t.toList.map Subtype.val : List RbPtr) := by
  induction t generalizing p with
  | nil => rfl
  | node c l a r ihl ihr =>
    rw [cells, Multiset.map_cons, Multiset.map_add, ihl, ihr, Multiset.coe_add, Multiset.cons_coe,
      toList, List.map_append, List.map_cons]
    exact Multiset.coe_eq_coe.mpr List.perm_middle.symm

/-- The addresses in a shape are the elements of the tree. -/
theorem map_shape (t : RbTree RbAddr) (π : List (RbFrame RbAddr)) :
    (shape t π).cells.map Prod.fst = ((t.fill π).toList.map Subtype.val : List RbPtr) := by
  rw [← shape_fill, ← map_cells 0]
  simp [shape, parentAddr, pathCells]

theorem nodup_shape : ((shape t π).cells.map Prod.fst).Nodup ↔ (t.fill π).toList.Nodup := by
  rw [map_shape, Multiset.coe_nodup, List.nodup_map_iff Subtype.val_injective]

/-- The two children of a node are not the same. -/
theorem addr_ne_sib {f : RbFrame RbAddr} (hnd : (t.fill (f :: π)).toList.Nodup)
    (h : t ≠ nil ∨ f.sib ≠ nil) : t.addr ≠ f.sib.addr := by
  rw [fill_cons, toList_fill, List.append_assoc] at hnd
  have hfork := (List.nodup_append.mp (List.nodup_append.mp hnd).2.1).1
  cases t with
  | nil =>
    intro he
    exact h.elim (absurd rfl) fun hs => hs (addr_eq_zero.mp he.symm)
  | node c l a r => cases hs : f.sib with
    | nil => exact a.2.1
    | node c' l' b r' =>
      intro he
      obtain rfl : a = b := Subtype.ext he
      refine notMem_of_nodup hfork (b := a) ?_ ?_ <;> simp [hs, toList]

theorem addr_ne_sib_head (hnd : (t.fill π).toList.Nodup) (h : t ≠ nil) :
    ∀ f ∈ π.head?, t.addr ≠ f.sib.addr := by
  intro f hf
  cases π with
  | nil => cases hf
  | cons g π =>
    obtain rfl : g = f := Option.some.inj hf
    exact addr_ne_sib hnd (.inl h)

end RbTree

end HMP
