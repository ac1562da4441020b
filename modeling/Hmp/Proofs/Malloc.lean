import Hmp.Spec.Mem
import Mathlib.Algebra.BigOperators.Group.List.Basic
import Mathlib.Algebra.Order.BigOperators.Group.List

/-! `hmp_malloc` checks nothing against the size of the pool: its blocks lie in
the pool exactly as long as the requests fit. -/

namespace HMP

/-- A call of `hmp_malloc` with the pool before and after it. -/
structure MallocCall where
  before : HmpMempool
  length : ℤ
  res : ℕ
  after : HmpMempool

def mallocCalls (nodeCnt : ℕ) : HmpMempool → List ℤ → List MallocCall
  | _, [] => []
  | pool, n :: ns =>
    match hmpMalloc pool nodeCnt n with
    | none => []
    | some (pool', res) => ⟨pool, n, res, pool'⟩ :: mallocCalls nodeCnt pool' ns

/-- The free part of the pool behind the message area has room for the request. -/
def MallocCall.Fits (nodeCnt : ℕ) (c : MallocCall) : Prop :=
  (msgArea nodeCnt + c.before.allocSize + c.length : ℤ) ≤ c.before.size

/-- A block that is returned lies in the pool behind the message area, and a
request that does not fit gets `NULL` and takes nothing. -/
def MallocCall.InPool (nodeCnt : ℕ) (c : MallocCall) : Prop :=
  (c.res ≠ 0 → c.before.baseAddr + msgArea nodeCnt ≤ c.res ∧
    (c.res + c.length : ℤ) ≤ c.before.baseAddr + c.before.size) ∧
  (¬ c.Fits nodeCnt → c.res = 0 ∧ c.after.allocSize = c.before.allocSize)

theorem hmpMalloc_pos (pool : HmpMempool) (cnt : ℕ) {n : ℤ} (hn : 0 < n) :
    hmpMalloc pool cnt n = some ({ pool with allocSize := pool.allocSize + n.toNat },
      pool.baseAddr + msgArea cnt + pool.allocSize) := by
  rw [hmpMalloc, if_pos hn]

/-- One call: no result is `NULL`, so it is in the pool just when it fits. -/
theorem inPool_iff_fits (pool : HmpMempool) (cnt : ℕ) (n : ℤ) (pool' : HmpMempool) :
    MallocCall.InPool cnt ⟨pool, n, pool.baseAddr + msgArea cnt + pool.allocSize, pool'⟩ ↔
      MallocCall.Fits cnt ⟨pool, n, pool.baseAddr + msgArea cnt + pool.allocSize, pool'⟩ := by
  have hpos := pool.base_pos
  simp only [MallocCall.InPool, MallocCall.Fits]
  constructor
  · rintro ⟨hin, hnull⟩
    by_contra hfit
    have := (hnull hfit).1
    omega
  · intro hfit
    refine ⟨fun _ => ⟨by omega, by push_cast; omega⟩, fun hnot => absurd hfit hnot⟩

/-- The bump offset accumulates the lengths, so a whole sequence fits when its
last request does. -/
theorem mallocCalls_inPool_iff (cnt : ℕ) (lens : List ℤ) (hpos : ∀ n ∈ lens, 0 < n) :
    ∀ pool : HmpMempool, (∀ c ∈ mallocCalls cnt pool lens, c.InPool cnt) ↔
      lens = [] ∨ (msgArea cnt + pool.allocSize + lens.sum : ℤ) ≤ pool.size := by
  induction lens with
  | nil => simp [mallocCalls]
  | cons n ns ih =>
    intro pool
    have hn := hpos n (by simp)
    have hns : ∀ m ∈ ns, 0 < m := fun m hm => hpos m (by simp [hm])
    have hsum : 0 ≤ ns.sum := List.sum_nonneg fun m hm => (hns m hm).le
    have hnil : ns = [] → ns.sum = 0 := by rintro rfl; rfl
    simp only [mallocCalls, hmpMalloc_pos pool cnt hn, List.forall_mem_cons, inPool_iff_fits,
      ih hns, List.sum_cons, reduceCtorEq, false_or, MallocCall.Fits]
    have hcast : ((pool.allocSize + n.toNat : ℕ) : ℤ) = pool.allocSize + n := by omega
    rw [hcast]
    constructor
    · rintro ⟨hfit, h | h⟩
      · rw [hnil h]
        omega
      · omega
    · intro h
      exact ⟨by omega, Or.inr (by omega)⟩

theorem hmpMempoolCreate_some {size : ℕ} {base : Option (Block (poolPages size * HMP_PAGE_SIZE))}
    {pageArray : Bool} {keys : Option MrKeys} {pool : HmpMempool}
    (h : hmpMempoolCreate size base pageArray keys = some pool) :
    pool.size = poolPages size * HMP_PAGE_SIZE ∧ pool.allocSize = 0 := by
  obtain ⟨b, -, hb⟩ := Option.bind_eq_some_iff.mp h
  obtain ⟨-, hmap⟩ := Option.ite_none_right_eq_some.mp hb
  obtain ⟨k, -, rfl⟩ := Option.map_eq_some_iff.mp hmap
  exact ⟨rfl, rfl⟩

/-- Every block lies in the pool if and only if the message area and all the
requested lengths together fit into it. -/
theorem malloc_blocks_in_pool_iff {cnt : ℕ} (hcnt : cnt ≤ HMP_NODE_NUM) {pool : HmpMempool}
    {base : Option (Block (poolPages HMP_DRAM_MEM_SIZE * HMP_PAGE_SIZE))} {pageArray : Bool}
    {keys : Option MrKeys}
    (hpool : hmpMempoolCreate HMP_DRAM_MEM_SIZE base pageArray keys = some pool)
    {lens : List ℤ} (hpos : ∀ n ∈ lens, 0 < n) :
    (∀ c ∈ mallocCalls cnt pool lens, c.InPool cnt) ↔
      (msgArea cnt + lens.sum : ℤ) ≤ pool.size := by
  obtain ⟨hsize, halloc⟩ := hmpMempoolCreate_some hpool
  rw [mallocCalls_inPool_iff cnt lens hpos, halloc, hsize]
  refine ⟨?_, fun h => Or.inr (by simpa using h)⟩
  rintro (rfl | h)
  · have harea : msgArea cnt ≤ msgArea HMP_NODE_NUM :=
      Nat.mul_le_mul_right _ (Nat.mul_le_mul_right _ hcnt)
    have hall : msgArea HMP_NODE_NUM ≤ poolPages HMP_DRAM_MEM_SIZE * HMP_PAGE_SIZE := by decide
    rw [List.sum_nil]
    omega
  · simpa using h

/-- A pool of the configured size at address 4096. -/
def samplePool : HmpMempool :=
  { baseAddr := 4096, pageNum := 64, size := 4096, allocSize := 0
    mr := { length := 4096, lkey := 1, rkey := 2, access := poolAccess
            length_lt := by decide, rkey_lt := by decide }
    base_pos := by decide, fits := by decide }

theorem samplePool_created :
    hmpMempoolCreate HMP_DRAM_MEM_SIZE (some ⟨4096, by decide, by decide⟩) true
      (some ⟨1, 2, by decide⟩) = some samplePool := rfl

/-- Two nodes, as seen from node `id`. -/
def sampleConfig (id : ℕ) : HmpConfig :=
  { nodeInfos := fun k => { addr := if k = 0 then "192.168.31.182" else "192.168.31.183"
                            port := 2345 }
    curnodeId := id, nodeCnt := 2 }

theorem malloc_blocks_in_pool_iff_two :
    (∀ c ∈ mallocCalls 2 samplePool [100, 3676], c.InPool 2) ↔
      (msgArea 2 + ([100, 3676] : List ℤ).sum : ℤ) ≤ samplePool.size :=
  malloc_blocks_in_pool_iff (by decide) samplePool_created (by decide)

/-- With two nodes, one request of 4000 bytes is answered with a block that ends
behind the pool. -/
theorem malloc_overruns_pool : ¬ ∀ c ∈ mallocCalls 2 samplePool [4000], c.InPool 2 := by
  intro h
  have hin := (h _ (List.mem_singleton_self _)).1 (by decide)
  exact absurd hin.2 (by decide)

end HMP
