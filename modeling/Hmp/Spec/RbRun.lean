import Hmp.Lib.Run
import Hmp.Spec.RbTree
import Mathlib.Data.Nat.Log

/-! A memory with a tree, and what is done to it: nodes are linked and coloured, erased, and put in
the place of others. Beside the memory a state has the list that the tree stands for. The tree has no
order of its own: where a node goes is up to the caller, who finds the free link. -/

namespace HMP

/-- Linking a node below a free link, then `rb_insert_color`. -/
def rbInsert (fuel : ℕ) (node parent : RbPtr) (link : RbLink) : RbM Unit := do
  rbLinkNode node parent link
  rbInsertColor fuel node

inductive RbOp
  | insertRoot (b : RbAddr)
  | insert (d : Side) (p b : RbAddr)
  | erase (a : RbAddr)
  | replace (a b : RbAddr)

structure RbState where
  mem : RbMem
  elems : List RbAddr

/-- `b` beside `p`, on side `d`. -/
def beside (d : Side) (p b : RbAddr) : List RbAddr :=
  match d with
  | .left => [b, p]
  | .right => [p, b]

def insertBeside (d : Side) (p b : RbAddr) : List RbAddr → List RbAddr
  | [] => []
  | x :: xs => if x = p then beside d p b ++ xs else x :: insertBeside d p b xs

namespace RbOp

def code (fuel : ℕ) : RbOp → RbM Unit
  | insertRoot b => rbInsert fuel b.1 0 .root
  | insert d p b => rbInsert fuel b.1 p.1 (.child d p.1)
  | erase a => rbErase fuel a.1
  | replace a b => rbReplaceNode a.1 b.1

/-- What the operation is for. -/
def onList : RbOp → List RbAddr → List RbAddr
  | insertRoot b, _ => [b]
  | insert d p b, xs => insertBeside d p b xs
  | erase a, xs => xs.erase a
  | replace a b, xs => xs.map fun x => if x = a then b else x

/-- A node that the operation brings in. -/
def fresh : RbOp → List RbAddr
  | insertRoot b => [b]
  | insert _ _ b => [b]
  | erase _ => []
  | replace _ b => [b]

/-- What the caller has to see to: nodes that are erased or replaced are in the tree, new ones are
not, and the link for a new one is free. -/
def Ok (s : RbState) : RbOp → Prop
  | insertRoot b => s.elems = [] ∧ (s.mem.cell b.1).isSome
  | insert d p b => p ∈ s.elems ∧ (s.mem.cell p.1).map (·.link d) = some 0 ∧ b ∉ s.elems ∧
      (s.mem.cell b.1).isSome
  | erase a => a ∈ s.elems
  | replace a b => a ∈ s.elems ∧ b ∉ s.elems ∧ (s.mem.cell b.1).isSome

instance (s : RbState) : (o : RbOp) → Decidable (o.Ok s)
  | insertRoot b => inferInstanceAs (Decidable (s.elems = [] ∧ (s.mem.cell b.1).isSome = true))
  | insert d p b => inferInstanceAs (Decidable (p ∈ s.elems ∧
      (s.mem.cell p.1).map (·.link d) = some 0 ∧ b ∉ s.elems ∧ (s.mem.cell b.1).isSome = true))
  | erase a => inferInstanceAs (Decidable (a ∈ s.elems))
  | replace a b => inferInstanceAs (Decidable (a ∈ s.elems ∧ b ∉ s.elems ∧
      (s.mem.cell b.1).isSome = true))

end RbOp

/-- Turns enough for every loop, logarithmic in the number of nodes. -/
def rbFuel (n : ℕ) : ℕ := 2 * Nat.log 2 (n + 1) + 1

def rbSys : Sys RbState RbOp where
  init s := s.mem.var = 0 ∧ s.elems = []
  step s o := (o.code (rbFuel s.elems.length) s.mem).map fun r => ⟨r.2, o.onList s.elems⟩

end HMP
