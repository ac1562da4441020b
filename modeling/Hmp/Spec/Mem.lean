import Hmp.Spec.Base

/-! `hmp_mem.c`: the pool, the bump allocator on it, and global addresses. -/

namespace HMP

/-- What `calloc(1, n)` returns when it does not return `NULL`. -/
def Block (n : ℕ) : Type := { b : ℕ // 0 < b ∧ b + n ≤ 2 ^ 48 }

/-- The number of pages that hold `size` bytes. -/
def poolPages (size : ℕ) : ℕ := if size % HMP_PAGE_SIZE ≠ 0 then size / HMP_PAGE_SIZE + 1
  else size / HMP_PAGE_SIZE

/-- The flags of the `ibv_reg_mr` call; `IBV_ACCESS_REMOTE_READ` is commented out there. -/
def poolAccess : List IbvAccess := [.localWrite, .remoteWrite]

/-- The keys that `ibv_reg_mr` chooses. -/
structure MrKeys where
  lkey : ℕ
  rkey : ℕ
  rkey_lt : rkey < 2 ^ 32

/-- `base` and `pageArray` are the results of the two inner `calloc` calls, `keys`
that of `ibv_reg_mr` on the block. -/
def hmpMempoolCreate (size : ℕ) (base : Option (Block (poolPages size * HMP_PAGE_SIZE)))
    (pageArray : Bool) (keys : Option MrKeys) : Option HmpMempool :=
  base.bind fun b =>
    if pageArray then
      keys.map fun k =>
        { baseAddr := b.1, pageNum := poolPages size, size := poolPages size * HMP_PAGE_SIZE
          allocSize := 0
          mr := { length := poolPages size * HMP_PAGE_SIZE, lkey := k.lkey, rkey := k.rkey
                  access := poolAccess
                  length_lt := by have := b.2.2; omega
                  rkey_lt := k.rkey_lt }
          base_pos := b.2.1, fits := b.2.2 }
    else none

/-- The length in bytes of the message area that precedes the blocks of the allocator. -/
def msgArea (nodeCnt : ℕ) : ℕ := nodeCnt * 4 * HMP_TASK_SIZE

/-- `none`: the assertion `length>0` fails. A result of 0 would be `NULL`. The sum
in `alloc_size` is taken in the integers. -/
def hmpMalloc (pool : HmpMempool) (nodeCnt : ℕ) (length : ℤ) : Option (HmpMempool × ℕ) :=
  if 0 < length then
    some ({ pool with allocSize := pool.allocSize + length.toNat },
      pool.baseAddr + msgArea nodeCnt + pool.allocSize)
  else none

/-- The hybrid base of node `id`, as a 64-bit pointer. -/
def hmpGetHybridMempoolAddr (id : ℕ) : BitVec 64 := BitVec.ofNat 64 id <<< 48

/-- `tmp>>48` is the arithmetic shift and `%` the C remainder; `none`: the
assertion on the node id fails. The result is the id with the stored address. -/
def hmpGetHmNodeId (nodeCnt : ℕ) (hmAddr : BitVec 64) : Option (ℕ × BitVec 64) :=
  let tmp := hmAddr.toInt
  let nodeId := tmp >>> (48 : ℕ)
  if 0 ≤ nodeId ∧ nodeId < nodeCnt then
    some (nodeId.toNat, BitVec.ofInt 64 (tmp.tmod 281474976710656))
  else none

/-- `none`: the ranges overlap, for which `memcpy` is undefined. -/
def memcpy (m : Mem) (dst src n : ℕ) : Option Mem :=
  if dst + n ≤ src ∨ src + n ≤ dst then some (m.write dst (m.read src n)) else none

/-- What a call of `hmp_read` or `hmp_write` does first: it finishes with a
`memcpy`, or it calls the function for one-sided transfers on a transport. -/
inductive Access where
  | copied (mem : Mem)
  | remote (t : ℕ) (addr : ℕ)

/-- The choice of the path, common to both calls. `none`: the assertion fails, or
the transport is `NULL`. `copy` is the `memcpy` between the local buffer and the
address in the own pool; `length` is converted to `size_t`. -/
def accessPath (nd : Node) (hmAddr : BitVec 64) (copy : ℕ → Option Mem) : Option Access :=
  (hmpGetHmNodeId nd.config.nodeCnt hmAddr).bind fun r =>
    if r.1 = nd.config.curnodeId then (copy r.2.toNat).map .copied
    else (nd.connectTrans r.1).map fun t => .remote t r.2.toNat

def hmpRead (nd : Node) (localDst : ℕ) (remoteSrc : BitVec 64) (length : ℤ) : Option Access :=
  accessPath nd remoteSrc fun a => memcpy nd.mem localDst a (length % 2 ^ 64).toNat

def hmpWrite (nd : Node) (localSrc : ℕ) (remoteDst : BitVec 64) (length : ℤ) : Option Access :=
  accessPath nd remoteDst fun a => memcpy nd.mem a localSrc (length % 2 ^ 64).toNat

end HMP
