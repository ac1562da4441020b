import Hmp.Spec.Transfer

/-! What a range may be for a call: the own path has no check of its own, on the
other one the adapter of the target compares the range with the registered
region. -/

namespace HMP

/-- The right that the adapter of the target looks for. -/
def TransferOp.right : TransferOp → IbvAccess
  | .read => .remoteRead
  | .write => .remoteWrite

def IbvWrOpcode.op : IbvWrOpcode → Option TransferOp
  | .send => none
  | .rdmaWrite => some .write
  | .rdmaRead => some .read

/-- The registered region of the pool allows the operation and holds the `n` bytes at `addr`.
The adapter does not look at an empty range. -/
def Admits (pool : HmpMempool) (op : TransferOp) (addr n : ℕ) : Prop :=
  n = 0 ∨ op.right ∈ pool.mr.access ∧ pool.baseAddr ≤ addr ∧
    addr + n ≤ pool.baseAddr + pool.mr.length

namespace Transfer

/-- The steps of one call, of the adapters and of the event thread. What the region of the
target does not admit does not succeed. -/
def Guarded (pools : ℕ → HmpMempool) (s : Transfer) : TransferEvent → Prop
  | .complete t status => status = .success → ∀ wr ∈ (s.node.qp t).sq.head?, ∀ op ∈ wr.opcode.op,
      Admits (pools (s.far t)) op wr.remoteAddr wr.sge.length
  | .check _ | .ret | .poll _ | .loopExit => True
  | _ => False

/-- The same with other contents of the memories. -/
def withMems (s : Transfer) (own : Mem) (others : ℕ → Mem) : Transfer :=
  { s with node := { s.node with mem := own }, remote := others }

/-- Whatever the memories hold, the call is defined, and it leaves them all as they are. -/
def NoEffect (pools : ℕ → HmpMempool) (s : Transfer) (op : TransferOp) (localAddr : ℕ)
    (hmAddr : BitVec 64) (length : ℤ) : Prop :=
  ∀ own others, ∃ s₁,
    (s.withMems own others).step (.call op localAddr hmAddr length) = some s₁ ∧
      ∀ s', sys.Run (Guarded pools) s₁ s' → s'.memOf = (s.withMems own others).memOf

/-- The whole range lies in the pool of the node that the address names. -/
def TargetInPool (pools : ℕ → HmpMempool) (s : Transfer) (hmAddr : BitVec 64) (length : ℤ) : Prop :=
  0 ≤ length ∧ ∀ r ∈ hmpGetHmNodeId s.node.config.nodeCnt hmAddr,
    InPool (pools r.1) r.2.toNat length

def Confined (pools : ℕ → HmpMempool) (s : Transfer) (op : TransferOp) (localAddr : ℕ)
    (hmAddr : BitVec 64) (length : ℤ) : Prop :=
  TargetInPool pools s hmAddr length ∨ NoEffect pools s op localAddr hmAddr length

/-- A call on `s`, the node whose pool it is, and one on another node `s'`: both are confined,
and both accept the range or neither does. -/
structure AcceptAlike (pools : ℕ → HmpMempool) (s s' : Transfer) (op : TransferOp)
    (localAddr localAddr' : ℕ) (hmAddr : BitVec 64) (length : ℤ) : Prop where
  own : Confined pools s op localAddr hmAddr length
  remote : Confined pools s' op localAddr' hmAddr length
  same : NoEffect pools s op localAddr hmAddr length ↔
    NoEffect pools s' op localAddr' hmAddr length

end Transfer

end HMP
