import Hmp.Spec.Mem

/-! The two functions on global addresses with the machine types of the source, and what it means
that global addresses split and rebuild exactly. -/

namespace HMP

namespace Machine

/-- `curnode_id` is an `int`, which becomes a `long long` before the shift. -/
def hmpGetHybridMempoolAddr (curnodeId : BitVec 32) : BitVec 64 := curnodeId.signExtend 64 <<< 48

/-- `tmp>>48` shifts in the sign and is narrowed to the `int` that the function returns; `%`
truncates. `none`: the assertion fails. -/
def hmpGetHmNodeId (nodeCnt : ℕ) (hmAddr : BitVec 64) : Option (BitVec 32 × BitVec 64) :=
  let nodeId := (hmAddr.sshiftRight 48).setWidth 32
  if 0 ≤ nodeId.toInt ∧ nodeId.toInt < nodeCnt then
    some (nodeId, hmAddr.srem 281474976710656)
  else none

/-- `split` and `rebuild`: the two functions are inverse to each other on the addresses of nodes.
`accepts`: no other address passes the assertion. `range`: a range inside one block of `2 ^ 48`
addresses stays on its node. -/
structure SplitsExactly (nodeCnt : ℕ) : Prop where
  split : ∀ n < nodeCnt, ∀ a : BitVec 64, a.toNat < 2 ^ 48 →
    hmpGetHmNodeId nodeCnt (hmpGetHybridMempoolAddr (BitVec.ofNat 32 n) + a) =
      some (BitVec.ofNat 32 n, a)
  rebuild : ∀ hmAddr n a, hmpGetHmNodeId nodeCnt hmAddr = some (n, a) →
    n.toNat < nodeCnt ∧ a.toNat < 2 ^ 48 ∧ hmpGetHybridMempoolAddr n + a = hmAddr
  accepts : ∀ hmAddr, (hmpGetHmNodeId nodeCnt hmAddr).isSome ↔ (hmAddr >>> 48).toNat < nodeCnt
  range : ∀ (hmAddr : BitVec 64) (k : ℕ), hmAddr.toNat % 2 ^ 48 + k < 2 ^ 48 →
    hmpGetHmNodeId nodeCnt (hmAddr + BitVec.ofNat 64 k) =
      (hmpGetHmNodeId nodeCnt hmAddr).map fun r => (r.1, r.2 + BitVec.ofNat 64 k)

end Machine

end HMP
