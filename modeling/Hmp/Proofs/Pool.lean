import Hmp.Sanity.PoolRun
import Hmp.Proofs.Malloc

/-! The message slots of all peers and the blocks of the allocator never
overlap. -/

namespace HMP.PoolRun

theorem RangesDisjoint.symm {a b : ℕ × ℕ} (h : RangesDisjoint a b) : RangesDisjoint b a := Or.symm h

/-- The 40-byte slot that a message area belongs to: peer and position in its 4 slots. -/
def areaSlot (s : PoolRun) : Area → Option (ℕ × ℕ)
  | .send t => (s.owner t).map fun i => (i, 0)
  | .recv t r => if r < 3 then (s.owner t).map fun i => (i, r + 1) else none
  | .block _ => none

theorem slot_disjoint (base : ℕ) {i j k l : ℕ} (hk : k < 4) (hl : l < 4) (h : (i, k) ≠ (j, l)) :
    RangesDisjoint (slotAddr base i + k * HMP_TASK_SIZE, HMP_TASK_SIZE)
      (slotAddr base j + l * HMP_TASK_SIZE, HMP_TASK_SIZE) := by
  rw [ne_eq, Prod.mk.injEq, not_and_or] at h
  simp only [RangesDisjoint, slotAddr, HMP_TASK_SIZE]
  omega

/-- A message area is the slot of its peer. -/
theorem area_eq_slot {s : PoolRun} (h : Inv s) {x : Area} {i k : ℕ}
    (hx : s.areaSlot x = some (i, k)) :
    s.areaRange x = some (slotAddr s.node.baseAddr i + k * HMP_TASK_SIZE, HMP_TASK_SIZE) ∧
      i < s.node.config.nodeCnt ∧ k < 4 := by
  cases x with
  | send t =>
    obtain ⟨j, hj, hij⟩ := Option.map_eq_some_iff.mp hx
    obtain ⟨rfl, rfl⟩ := Prod.mk.inj hij
    obtain ⟨hlt, hok⟩ := h.peer t j hj
    exact ⟨by simp [areaRange, hj, hok.send], hlt, by omega⟩
  | recv t r =>
    obtain ⟨hr, hx⟩ := Option.ite_none_right_eq_some.mp hx
    obtain ⟨j, hj, hij⟩ := Option.map_eq_some_iff.mp hx
    obtain ⟨rfl, rfl⟩ := Prod.mk.inj hij
    obtain ⟨hlt, hok⟩ := h.peer t j hj
    refine ⟨?_, hlt, by omega⟩
    simp only [areaRange, hj, hr, hok.recv, Option.isSome_some, and_self, if_true]
    congr 2
    ring
  | block k => cases hx

theorem areaSlot_of_range {s : PoolRun} {x : Area} {a : ℕ × ℕ} (hx : s.areaRange x = some a) :
    (∃ p, s.areaSlot x = some p) ∨ ∃ k, x = .block k := by
  cases x with
  | send t =>
    obtain ⟨ho, -⟩ := Option.ite_none_right_eq_some.mp hx
    obtain ⟨i, hi⟩ := Option.isSome_iff_exists.mp ho
    exact Or.inl ⟨(i, 0), by simp [areaSlot, hi]⟩
  | recv t r =>
    obtain ⟨⟨ho, hr⟩, -⟩ := Option.ite_none_right_eq_some.mp hx
    obtain ⟨i, hi⟩ := Option.isSome_iff_exists.mp ho
    exact Or.inl ⟨(i, r + 1), by simp [areaSlot, hi, hr]⟩
  | block k => exact Or.inr ⟨k, rfl⟩

/-- With one transport for each peer, different areas are different slots. -/
theorem areaSlot_injective {s : PoolRun} (h : Inv s) {x y : Area} {p : ℕ × ℕ}
    (hx : s.areaSlot x = some p) (hy : s.areaSlot y = some p) : x = y := by
  cases x <;> cases y <;>
    simp only [areaSlot, Option.map_eq_some_iff, Option.ite_none_right_eq_some, reduceCtorEq] at hx hy
  case send.send t t' =>
    obtain ⟨i, hi, rfl⟩ := hx
    obtain ⟨j, hj, hij⟩ := hy
    obtain ⟨rfl, -⟩ := Prod.mk.inj hij
    rw [h.once t t' j hi hj]
  case send.recv t t' r =>
    obtain ⟨i, -, rfl⟩ := hx
    obtain ⟨-, j, -, hij⟩ := hy
    exact absurd (Prod.mk.inj hij).2 (by omega)
  case recv.send t r t' =>
    obtain ⟨-, i, -, rfl⟩ := hx
    obtain ⟨j, -, hij⟩ := hy
    exact absurd (Prod.mk.inj hij).2 (by omega)
  case recv.recv t r t' r' =>
    obtain ⟨-, i, hi, rfl⟩ := hx
    obtain ⟨-, j, hj, hij⟩ := hy
    obtain ⟨rfl, hrr⟩ := Prod.mk.inj hij
    rw [h.once t t' j hi hj, show r = r' by omega]

/-- A block begins behind the message area. -/
theorem slot_block_disjoint {s : PoolRun} (h : Inv s) {i k n : ℕ} {a b : ℕ × ℕ}
    (hi : i < s.node.config.nodeCnt) (hk : k < 4)
    (ha : a = (slotAddr s.node.baseAddr i + k * HMP_TASK_SIZE, HMP_TASK_SIZE))
    (hb : s.blocks[n]? = some b) : RangesDisjoint a b := by
  obtain ⟨pool, hpool, hblocks⟩ := h.pool
  have hlow := hblocks.lower b (List.mem_of_getElem? hb)
  have hbase : s.node.baseAddr = pool.baseAddr := by simp [Node.baseAddr, hpool]
  left
  subst ha
  simp only [slotAddr, msgArea, HMP_TASK_SIZE, hbase] at hlow ⊢
  omega

theorem areas_disjoint {s : PoolRun} (h : Inv s) {x y : Area} (hne : x ≠ y) {a b : ℕ × ℕ}
    (hx : s.areaRange x = some a) (hy : s.areaRange y = some b) : RangesDisjoint a b := by
  rcases areaSlot_of_range hx with ⟨⟨i, k⟩, hxs⟩ | ⟨k, rfl⟩ <;>
    rcases areaSlot_of_range hy with ⟨⟨j, l⟩, hys⟩ | ⟨l, rfl⟩
  · obtain ⟨hxr, -, hk⟩ := area_eq_slot h hxs
    obtain ⟨hyr, -, hl⟩ := area_eq_slot h hys
    rw [Option.some.inj (hx.symm.trans hxr), Option.some.inj (hy.symm.trans hyr)]
    apply slot_disjoint _ hk hl
    intro heq
    exact hne (areaSlot_injective h hxs (heq ▸ hys))
  · obtain ⟨hxr, hi, hk⟩ := area_eq_slot h hxs
    exact slot_block_disjoint h hi hk (Option.some.inj (hx.symm.trans hxr)) hy
  · obtain ⟨hyr, hj, hl⟩ := area_eq_slot h hys
    exact (slot_block_disjoint h hj hl (Option.some.inj (hy.symm.trans hyr)) hx).symm
  · obtain ⟨pool, -, hblocks⟩ := h.pool
    simp only [areaRange] at hx hy
    obtain ⟨hk, rfl⟩ := List.getElem?_eq_some_iff.mp hx
    obtain ⟨hl, rfl⟩ := List.getElem?_eq_some_iff.mp hy
    have hsorted := List.pairwise_iff_getElem.mp hblocks.sorted
    rcases Nat.lt_or_gt_of_ne (fun hkl : k = l => hne (hkl ▸ rfl)) with hlt | hgt
    · exact Or.inl (hsorted k l hk hl hlt)
    · exact Or.inr (hsorted l k hl hk hgt)

/-- The areas of every run are as they must be exactly if every receive that was accepted came after
a number of refused ones that the ring of three slots does not notice. -/
theorem pool_areas_apart_iff {s : PoolRun} (h : sys.Reach OncePerPeer s) :
    s.AreasApart ↔ ∀ t i, s.owner t = some i → ∀ r ∈ s.recvs t, 3 ∣ r.refused := by
  have hi := inv_reach h
  constructor
  · intro ha t i ht r hr
    obtain ⟨n, hn⟩ := List.mem_iff_getElem?.mp hr
    have hslot := ((hi.peer t i ht).2.recvs n r hn).1
    rw [(ha.recvs t i ht n r hn).1] at hslot
    simp only [HMP_TASK_SIZE] at hslot
    omega
  · intro hdvd
    have hrecvs : ∀ t i, s.owner t = some i → ∀ n r, (s.recvs t)[n]? = some r →
        r.sge.addr = slotAddr s.node.baseAddr i + HMP_TASK_SIZE * (1 + n % 3) ∧
          r.sge.length = HMP_TASK_SIZE := by
      intro t i ht n r hn
      obtain ⟨k, hk⟩ := hdvd t i ht r (List.mem_of_getElem? hn)
      have hmod : (n + r.refused) % 3 = n % 3 := by omega
      rw [← hmod]
      exact (hi.peer t i ht).2.recvs n r hn
    refine ⟨fun t i ht => (hi.peer t i ht).2.sends, hrecvs, ?_, fun x y hne a b => areas_disjoint hi hne⟩
    intro t i ht n m a b hnm hm ha hb
    rw [(hrecvs t i ht n a ha).1, (hrecvs t i ht m b hb).1]
    have : n % 3 ≠ m % 3 := by omega
    simp only [HMP_TASK_SIZE]
    omega

/-- Node 0 of two, with its pool. -/
def sampleStart : PoolRun :=
  { node := { config := sampleConfig 0, dramMempool := some samplePool } }

theorem sampleStart_start : Start sampleStart :=
  ⟨by decide, by decide, ⟨samplePool, rfl, rfl⟩, rfl, rfl, rfl, rfl, rfl, rfl⟩

/-- Node 0 sets up its transport, posts two receives and allocates. -/
theorem pool_areas_apart_iff_two : ∃ s : PoolRun, sys.Reach OncePerPeer s ∧
    s.owner 0 = some 1 ∧ (s.recvs 0).length = 2 ∧ s.blocks = [(4416, 64)] ∧ s.AreasApart := by
  obtain ⟨s, hr, hown, hlen, hblocks, hdvd⟩ := Sys.exists_run_of_replay sys OncePerPeer sampleStart
    [.active 1, .postRecv 0 {}, .postRecv 0 {}, .malloc 64]
    (p := fun s => s.owner 0 = some 1 ∧ (s.recvs 0).length = 2 ∧ s.blocks = [(4416, 64)] ∧
      ∀ t < s.node.nextTrans, ∀ r ∈ s.recvs t, 3 ∣ r.refused) (by decide)
  have hreach : sys.Reach OncePerPeer s := ⟨sampleStart, sampleStart_start, hr⟩
  refine ⟨s, hreach, hown, hlen, hblocks, (pool_areas_apart_iff hreach).mpr fun t i ht => ?_⟩
  refine hdvd t (not_le.mp fun hle => ?_)
  rw [((inv_reach hreach).fresh t hle).1] at ht
  cases ht

/-- Of four receives the second is refused: its slot is left out, and the first and the third of the
receives that are posted have the same buffer. -/
theorem refused_receive_moves_ring : ∃ s, sys.Reach OncePerPeer s ∧ ¬ s.AreasApart ∧
    (s.recvs 0).map (·.sge.addr) = [4296, 4376, 4296] := by
  obtain ⟨s, hr, hown, haddr⟩ := Sys.exists_run_of_replay sys OncePerPeer sampleStart
    [.active 1, .postRecv 0 {}, .postRecv 0 { err := 12 }, .postRecv 0 {}, .postRecv 0 {}]
    (p := fun s => s.owner 0 = some 1 ∧ (s.recvs 0).map (·.sge.addr) = [4296, 4376, 4296])
    (by decide)
  refine ⟨s, ⟨sampleStart, sampleStart_start, hr⟩, fun ha => ?_, haddr⟩
  obtain ⟨x, y, z, hrecvs⟩ : ∃ x y z, s.recvs 0 = [x, y, z] := List.length_eq_three.mp (by
    simpa using congrArg List.length haddr)
  rw [hrecvs] at haddr
  simp only [List.map_cons, List.map_nil, List.cons.injEq, and_true] at haddr
  exact ha.three 0 1 hown 0 2 x z (by decide) (by decide) (by rw [hrecvs]; rfl)
    (by rw [hrecvs]; rfl) (haddr.1.trans haddr.2.2.symm)

end HMP.PoolRun
