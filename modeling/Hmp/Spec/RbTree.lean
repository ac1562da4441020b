import Hmp.Lib.Cells
import Hmp.Lib.RbTree

/-! `hmp_rbtree.c` and `hmp_rbtree.h` over a memory of `struct rb_node`, with `root->rb_node` as the
variable beside it. `none` is undefined behaviour (a null pointer or a pointer to no node is followed)
or a loop that has used up its fuel. A function and its mirror image are one definition with the
side as a parameter: `d` is the side that the name of the function says. -/

namespace HMP

abbrev RbPtr : Type := BitVec 64

/-- `struct rb_node`. -/
structure RbNode where
  parentColor : BitVec 64
  right : RbPtr
  left : RbPtr
  deriving DecidableEq

/-- The address of a node, on an eight-byte boundary and not null. -/
abbrev RbAddr : Type := { p : RbPtr // p ≠ 0 ∧ p &&& 7 = 0 }

abbrev RbMem : Type := Store RbPtr RbNode RbPtr

abbrev RbM : Type → Type := StateT RbMem Option

/-- `RB_RED` and `RB_BLACK`. -/
def Color.bit : Color → BitVec 64
  | .red => 0
  | .black => 1

namespace RbNode

def link : Side → RbNode → RbPtr
  | .left, n => n.left
  | .right, n => n.right

def setLink : Side → RbPtr → RbNode → RbNode
  | .left, p, n => { n with left := p }
  | .right, p, n => { n with right := p }

def parent (n : RbNode) : RbPtr := n.parentColor &&& ~~~3

def color (n : RbNode) : BitVec 64 := n.parentColor &&& 1

def setRed (n : RbNode) : RbNode := { n with parentColor := n.parentColor &&& ~~~1 }

def setBlack (n : RbNode) : RbNode := { n with parentColor := n.parentColor ||| 1 }

def setParent (p : RbPtr) (n : RbNode) : RbNode := { n with parentColor := n.parentColor &&& 3 ||| p }

def setColor (c : BitVec 64) (n : RbNode) : RbNode :=
  { n with parentColor := n.parentColor &&& ~~~1 ||| c }

end RbNode

/-! ## Fields behind pointers -/

/-- `*p`, read. -/
def rbRead (p : RbPtr) : RbM RbNode := if p = 0 then fun _ => none else Store.read p

def rbModify (p : RbPtr) (f : RbNode → RbNode) : RbM Unit :=
  if p = 0 then fun _ => none else Store.modify p f

def rbLink (d : Side) (p : RbPtr) : RbM RbPtr := do return (← rbRead p).link d

def rbSetLink (d : Side) (p q : RbPtr) : RbM Unit := rbModify p (.setLink d q)

def rbParent (p : RbPtr) : RbM RbPtr := do return (← rbRead p).parent

def rbColor (p : RbPtr) : RbM (BitVec 64) := do return (← rbRead p).color

def rbIsRed (p : RbPtr) : RbM Bool := do return (← rbColor p) == 0

def rbIsBlack (p : RbPtr) : RbM Bool := do return (← rbColor p) != 0

def rbSetRed (p : RbPtr) : RbM Unit := rbModify p .setRed

def rbSetBlack (p : RbPtr) : RbM Unit := rbModify p .setBlack

def rbSetParent (p q : RbPtr) : RbM Unit := rbModify p (.setParent q)

def rbSetColor (p : RbPtr) (c : BitVec 64) : RbM Unit := rbModify p (.setColor c)

/-- `p && rb_is_red(p)`. -/
def rbAndRed (p : RbPtr) : RbM Bool := if p = 0 then pure false else rbIsRed p

/-- `!p || rb_is_black(p)`. -/
def rbNotOrBlack (p : RbPtr) : RbM Bool := if p = 0 then pure true else rbIsBlack p

/-- `if (p) rb_set_parent(p, q)`. -/
def rbSetParentIf (p q : RbPtr) : RbM Unit := if p = 0 then pure () else rbSetParent p q

/-- `if (p) rb_set_black(p)`. -/
def rbSetBlackIf (p : RbPtr) : RbM Unit := if p = 0 then pure () else rbSetBlack p

/-- The branch that the test `parent->rb_left == node` takes. -/
def rbSide (parent node : RbPtr) : RbM Side := do
  return if (← rbLink .left parent) = node then .left else .right

/-- What pointed to `old` is made to point to `new`: a child of `parent`, the one on side `d` looked
at first, or the root if there is no parent. -/
def rbRelink (d : Side) (parent old new : RbPtr) : RbM Unit :=
  if parent = 0 then Store.setVar new
  else do
    if old = (← rbLink d parent) then rbSetLink d parent new else rbSetLink d.other parent new

/-! ## Rotation -/

def rbRotate (d : Side) (node : RbPtr) : RbM Unit := do
  let child ← rbLink d.other node
  let parent ← rbParent node
  let inner ← rbLink d child
  rbSetLink d.other node inner
  rbSetParentIf inner node
  rbSetLink d child node
  rbSetParent child parent
  rbRelink d parent node child
  rbSetParent node child

/-- `__rb_rotate_left`. -/
def rbRotateLeft : RbPtr → RbM Unit := rbRotate .left

/-- `__rb_rotate_right`. -/
def rbRotateRight : RbPtr → RbM Unit := rbRotate .right

/-! ## Insertion -/

/-- A place that points to a child: `&root->rb_node`, or a link of a node. -/
inductive RbLink
  | root
  | child (d : Side) (p : RbPtr)
  deriving DecidableEq

def rbLinkNode (node parent : RbPtr) (link : RbLink) : RbM Unit := do
  rbModify node fun n => { n with parentColor := parent }
  rbSetLink .right node 0
  rbSetLink .left node 0
  match link with
  | .root => Store.setVar node
  | .child d p => rbSetLink d p node

/-- A turn of the loop of `rb_insert_color` when `parent` is the child of `gparent` on side `d`; the
node of the next turn. -/
def rbInsertTurn (d : Side) (node parent gparent : RbPtr) : RbM RbPtr := do
  let uncle ← rbLink d.other gparent
  if ← rbAndRed uncle then
    rbSetBlack uncle
    rbSetBlack parent
    rbSetRed gparent
    return gparent
  else if (← rbLink d.other parent) = node then
    -- `node` and `parent` are exchanged
    rbRotate d parent
    rbSetBlack node
    rbSetRed gparent
    rbRotate d.other gparent
    return parent
  else
    rbSetBlack parent
    rbSetRed gparent
    rbRotate d.other gparent
    return node

def rbInsertLoop : ℕ → RbPtr → RbM Unit
  | 0, _ => fun _ => none
  | fuel + 1, node => do
    let parent ← rbParent node
    if ← rbAndRed parent then
      let gparent ← rbParent parent
      rbInsertLoop fuel (← rbInsertTurn (← rbSide gparent parent) node parent gparent)
    else return ()

def rbInsertColor (fuel : ℕ) (node : RbPtr) : RbM Unit := do
  rbInsertLoop fuel node
  rbSetBlack (← Store.getVar)

/-! ## Removal -/

/-- The test of `other` in `__rb_erase_color`: neither child is red. -/
def rbNoRedChild (other : RbPtr) : RbM Bool := do
  if ← rbNotOrBlack (← rbLink .left other) then rbNotOrBlack (← rbLink .right other)
  else return false

/-- `if (rb_is_red(other))`: the sibling is rotated away, its child is the new one. -/
def rbEraseRed (d : Side) (parent other : RbPtr) : RbM RbPtr := do
  if ← rbIsRed other then
    rbSetBlack other
    rbSetRed parent
    rbRotate d parent
    rbLink d.other parent
  else return other

/-- The sibling whose far child is red: `other`, or its near child after a rotation. -/
def rbEraseFar (d : Side) (parent other : RbPtr) : RbM RbPtr := do
  if ← rbNotOrBlack (← rbLink d.other other) then
    rbSetBlackIf (← rbLink d other)
    rbSetRed other
    rbRotate d.other other
    rbLink d.other parent
  else return other

/-- The rest of the turn: the `node` and `parent` of the next turn, or `none` after the `break`. -/
def rbEraseBlack (d : Side) (parent other : RbPtr) : RbM (Option (RbPtr × RbPtr)) := do
  if ← rbNoRedChild other then
    rbSetRed other
    return some (parent, ← rbParent parent)
  else
    let other ← rbEraseFar d parent other
    rbSetColor other (← rbColor parent)
    rbSetBlack parent
    rbSetBlackIf (← rbLink d.other other)
    rbRotate d parent
    return none

/-- A turn of the loop of `__rb_erase_color` at the child of `parent` on side `d`. -/
def rbEraseTurn (d : Side) (parent : RbPtr) : RbM (Option (RbPtr × RbPtr)) := do
  rbEraseBlack d parent (← rbEraseRed d parent (← rbLink d.other parent))

/-- The loop of `__rb_erase_color`; the `node` it ends with. -/
def rbEraseLoop : ℕ → RbPtr → RbPtr → RbM RbPtr
  | 0, _, _ => fun _ => none
  | fuel + 1, node, parent => do
    if ← rbNotOrBlack node then
      if node = (← Store.getVar) then return node
      else match ← rbEraseTurn (← rbSide parent node) parent with
        | some (node, parent) => rbEraseLoop fuel node parent
        | none => Store.getVar
    else return node

/-- `__rb_erase_color`. -/
def rbEraseColor (fuel : ℕ) (node parent : RbPtr) : RbM Unit := do
  rbSetBlackIf (← rbEraseLoop fuel node parent)

/-- `while (n->link) n = n->link` for the link on side `d`. -/
def rbDescend (d : Side) : ℕ → RbPtr → RbM RbPtr
  | 0, _ => fun _ => none
  | fuel + 1, n => do
    let child ← rbLink d n
    if child = 0 then return n else rbDescend d fuel child

/-- From `color:` on. -/
def rbEraseEnd (fuel : ℕ) (color : BitVec 64) (child parent : RbPtr) : RbM Unit :=
  if color = Color.black.bit then rbEraseColor fuel child parent else pure ()

/-- The way through `rb_erase` when `node` has at most one child. -/
def rbEraseOne (fuel : ℕ) (node child : RbPtr) : RbM Unit := do
  let parent ← rbParent node
  let color ← rbColor node
  rbSetParentIf child parent
  rbRelink .left parent node child
  rbEraseEnd fuel color child parent

/-- `child` takes the place of `node` below `parent`; what is its parent when `node` has taken the
place of `old`. -/
def rbUnlink (old node parent child : RbPtr) : RbM RbPtr := do
  rbSetParentIf child parent
  if parent = old then
    rbSetLink .right parent child
    return node
  else
    rbSetLink .left parent child
    return parent

/-- The way through `rb_erase` when `old` has two children: the next node takes its place. -/
def rbEraseTwo (fuel : ℕ) (old : RbPtr) : RbM Unit := do
  let node ← rbDescend .left fuel (← rbLink .right old)
  let child ← rbLink .right node
  let parent ← rbParent node
  let color ← rbColor node
  let parent ← rbUnlink old node parent child
  let n ← rbRead old
  rbModify node fun m => { m with parentColor := n.parentColor }
  rbSetLink .right node (← rbLink .right old)
  rbSetLink .left node (← rbLink .left old)
  rbRelink .left (← rbParent old) old node
  rbSetParent (← rbLink .left old) node
  rbSetParentIf (← rbLink .right old) node
  rbEraseEnd fuel color child parent

def rbErase (fuel : ℕ) (node : RbPtr) : RbM Unit := do
  if (← rbLink .left node) = 0 then rbEraseOne fuel node (← rbLink .right node)
  else if (← rbLink .right node) = 0 then rbEraseOne fuel node (← rbLink .left node)
  else rbEraseTwo fuel node

/-! ## Walks -/

/-- The last node on side `d`. -/
def rbEnd (d : Side) (fuel : ℕ) : RbM RbPtr := do
  let n ← Store.getVar
  if n = 0 then return 0 else rbDescend d fuel n

def rbFirst : ℕ → RbM RbPtr := rbEnd .left

def rbLast : ℕ → RbM RbPtr := rbEnd .right

/-- `while ((parent = rb_parent(node)) && node == parent->link) node = parent` for the link on side
`d`; the `parent` it ends with. -/
def rbClimb (d : Side) : ℕ → RbPtr → RbM RbPtr
  | 0, _ => fun _ => none
  | fuel + 1, node => do
    let parent ← rbParent node
    if parent = 0 then return parent
    else if node = (← rbLink d parent) then rbClimb d fuel parent
    else return parent

/-- The neighbour of `node` on side `d`. -/
def rbNeighbour (d : Side) (fuel : ℕ) (node : RbPtr) : RbM RbPtr := do
  if (← rbParent node) = node then return 0
  else
    let child ← rbLink d node
    if child = 0 then rbClimb d fuel node else rbDescend d.other fuel child

def rbNext : ℕ → RbPtr → RbM RbPtr := rbNeighbour .right

def rbPrev : ℕ → RbPtr → RbM RbPtr := rbNeighbour .left

/-! ## Replacement -/

def rbReplaceNode (victim new : RbPtr) : RbM Unit := do
  rbRelink .left (← rbParent victim) victim new
  rbSetParentIf (← rbLink .left victim) new
  rbSetParentIf (← rbLink .right victim) new
  let n ← rbRead victim
  rbModify new fun _ => n

/-- `RB_ROOT` in a memory. -/
def rbRoot (cell : RbPtr → Option RbNode) : RbMem := ⟨cell, 0⟩

/-- `RB_EMPTY_NODE`. -/
def rbEmptyNode (node : RbPtr) : RbM Bool := do return (← rbParent node) == node

/-- `RB_CLEAR_NODE`. -/
def rbClearNode (node : RbPtr) : RbM Unit := rbSetParent node node

end HMP
