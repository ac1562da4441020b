import Hmp.Proofs.Malloc
import Hmp.Sanity.GlobalAddr

/-! `hmp_malloc` returns an address of its process, and `hmp_read` and `hmp_write` take
a global address: the two agree on node 0 only. -/

namespace HMP

/-- Address `a`, given to `hmp_read` or `hmp_write` on this node, is address `a` of the node. -/
structure OwnAddr (nd : Node) (a : ℕ) : Prop where
  split : hmpGetHmNodeId nd.config.nodeCnt (BitVec.ofNat 64 a) =
    some (nd.config.curnodeId, BitVec.ofNat 64 a)
  read : ∀ dst length, hmpRead nd dst (BitVec.ofNat 64 a) length =
    (memcpy nd.mem dst a (length % 2 ^ 64).toNat).map .copied
  write : ∀ src length, hmpWrite nd src (BitVec.ofNat 64 a) length =
    (memcpy nd.mem a src (length % 2 ^ 64).toNat).map .copied

/-- Every byte of every block. -/
def OwnBlocks (nd : Node) (calls : List MallocCall) : Prop :=
  ∀ c ∈ calls, ∀ o : ℕ, (o : ℤ) < c.length → OwnAddr nd (c.res + o)

/-- The blocks of a sequence of calls follow each other without a gap. -/
theorem mallocCalls_tile (cnt : ℕ) (lens : List ℤ) (hpos : ∀ n ∈ lens, 0 < n) (P : ℕ → Prop) :
    ∀ pool : HmpMempool,
      (∀ c ∈ mallocCalls cnt pool lens, ∀ o : ℕ, (o : ℤ) < c.length → P (c.res + o)) ↔
        ∀ a : ℕ, pool.baseAddr + msgArea cnt + pool.allocSize ≤ a →
          (a : ℤ) < pool.baseAddr + msgArea cnt + pool.allocSize + lens.sum → P a := by
  induction lens with
  | nil =>
    intro pool
    simp only [mallocCalls, List.not_mem_nil, false_implies, implies_true, List.sum_nil, true_iff]
    intro a h₁ h₂
    omega
  | cons n ns ih =>
    intro pool
    have hn := hpos n (by simp)
    have hns : ∀ m ∈ ns, 0 < m := fun m hm => hpos m (by simp [hm])
    have hsum : 0 ≤ ns.sum := List.sum_nonneg fun m hm => (hns m hm).le
    simp only [mallocCalls, hmpMalloc_pos pool cnt hn, List.forall_mem_cons, ih hns, List.sum_cons]
    constructor
    · rintro ⟨hfirst, hrest⟩ a h₁ h₂
      by_cases ha : (a : ℤ) < pool.baseAddr + msgArea cnt + pool.allocSize + n
      · obtain ⟨o, rfl⟩ := Nat.exists_eq_add_of_le h₁
        exact hfirst o (by push_cast at ha; omega)
      · exact hrest a (by omega) (by push_cast; omega)
    · intro h
      refine ⟨fun o ho => h _ (by omega) (by push_cast; omega), fun a h₁ h₂ => h a (by omega) ?_⟩
      push_cast at h₂
      omega

theorem OwnAddr.of_split {nd : Node} {a : ℕ} (ha : a < 2 ^ 48)
    (h : hmpGetHmNodeId nd.config.nodeCnt (BitVec.ofNat 64 a) =
      some (nd.config.curnodeId, BitVec.ofNat 64 a)) : OwnAddr nd a := by
  have hn : (BitVec.ofNat 64 a).toNat = a := by
    rw [BitVec.toNat_ofNat]
    omega
  refine ⟨h, fun dst length => ?_, fun src length => ?_⟩
  · simp only [hmpRead, accessPath, h, Option.bind_some, if_true, hn]
  · simp only [hmpWrite, accessPath, h, Option.bind_some, if_true, hn]

/-- A user address is an address of node 0. -/
theorem hmpGetHmNodeId_user {cnt a : ℕ} (hcnt : cnt ≤ HMP_NODE_NUM) (hc : 0 < cnt)
    (ha : a < 2 ^ 48) :
    hmpGetHmNodeId cnt (BitVec.ofNat 64 a) = some (0, BitVec.ofNat 64 a) := by
  have h := hmpGetHmNodeId_globalAddr (hcnt.trans (by decide)) hc ha
  rwa [hmpGetHybridMempoolAddr, BitVec.zero_shiftLeft, BitVec.zero_add] at h

/-- The first address behind the user addresses is the hybrid base of node 1. -/
theorem not_ownAddr_end {nd : Node} (hid : nd.config.curnodeId = 0) : ¬ OwnAddr nd (2 ^ 48) := by
  intro h
  have hs := h.split
  unfold hmpGetHmNodeId at hs
  simp only [Option.ite_none_right_eq_some, Option.some.injEq, Prod.mk.injEq] at hs
  obtain ⟨-, h₁, -⟩ := hs
  rw [hid] at h₁
  exact absurd h₁ (by decide)

/-- The blocks that a node allocates are its own as global addresses if and only if it is node 0,
and the blocks end within the user addresses. -/
theorem malloc_blocks_own_iff {nd : Node} (hcnt : nd.config.nodeCnt ≤ HMP_NODE_NUM)
    (hid : nd.config.curnodeId < nd.config.nodeCnt) {pool : HmpMempool}
    {base : Option (Block (poolPages HMP_DRAM_MEM_SIZE * HMP_PAGE_SIZE))} {pageArray : Bool}
    {keys : Option MrKeys}
    (hpool : hmpMempoolCreate HMP_DRAM_MEM_SIZE base pageArray keys = some pool)
    {lens : List ℤ} (hpos : ∀ n ∈ lens, 0 < n) :
    OwnBlocks nd (mallocCalls nd.config.nodeCnt pool lens) ↔
      lens = [] ∨ nd.config.curnodeId = 0 ∧
        (pool.baseAddr + msgArea nd.config.nodeCnt + lens.sum : ℤ) ≤ 2 ^ 48 := by
  obtain ⟨hsize, halloc⟩ := hmpMempoolCreate_some hpool
  have hc : 0 < nd.config.nodeCnt := by omega
  have harea : msgArea nd.config.nodeCnt ≤ msgArea HMP_NODE_NUM :=
    Nat.mul_le_mul_right _ (Nat.mul_le_mul_right _ hcnt)
  have hall : msgArea HMP_NODE_NUM < poolPages HMP_DRAM_MEM_SIZE * HMP_PAGE_SIZE := by decide
  have hfits := pool.fits
  rw [OwnBlocks, mallocCalls_tile _ lens hpos, halloc]
  constructor
  · intro h
    rcases List.eq_nil_or_concat lens with hnil | ⟨init, n, hlens⟩
    · exact .inl hnil
    · have hn := hpos n (by simp [hlens])
      have hinit : 0 ≤ init.sum := List.sum_nonneg fun m hm => (hpos m (by simp [hlens, hm])).le
      have hsum : lens.sum = init.sum + n := by simp [hlens]
      -- the first byte of the first block is a user address, and so one of node 0
      have hzero : nd.config.curnodeId = 0 := by
        have hs := (h (pool.baseAddr + msgArea nd.config.nodeCnt) (by omega) (by omega)).split
        rw [hmpGetHmNodeId_user hcnt hc (by omega)] at hs
        exact (congrArg Prod.fst (Option.some.inj hs)).symm
      refine .inr ⟨hzero, ?_⟩
      by_contra hlt
      exact not_ownAddr_end hzero (h (2 ^ 48) (by omega) (by push_cast; omega))
  · rintro (rfl | ⟨hzero, hle⟩) a h₁ h₂
    · simp only [List.sum_nil] at h₂
      omega
    · have ha : a < 2 ^ 48 := by omega
      refine .of_split ha ?_
      rw [hmpGetHmNodeId_user hcnt hc ha, hzero]

/-- Node `id` of two, with the pool of `samplePool`. -/
def sampleNode (id : ℕ) : Node := { config := sampleConfig id, dramMempool := some samplePool }

theorem malloc_blocks_own_iff_zero :
    OwnBlocks (sampleNode 0) (mallocCalls 2 samplePool [64, 100]) ↔
      ([64, 100] : List ℤ) = [] ∨ (sampleNode 0).config.curnodeId = 0 ∧
        (samplePool.baseAddr + msgArea 2 + ([64, 100] : List ℤ).sum : ℤ) ≤ 2 ^ 48 :=
  malloc_blocks_own_iff (by decide) (by decide) samplePool_created (by decide)

/-- On node 1 the first block is taken for memory of node 0. -/
theorem malloc_block_of_other_node :
    ¬ ∀ id < 2, OwnBlocks (sampleNode id) (mallocCalls 2 samplePool [64]) := by
  intro h
  have hs := (h 1 (by decide) _ (List.mem_singleton_self _) 0 (by decide)).split
  have h₁ := congrArg (·.map Prod.fst) hs
  exact absurd h₁ (by decide)

end HMP
