import Hmp.Spec.PoolRun
import Hmp.Sanity.Node

/-! The layout of the pool is kept by every run: the two setups compute the
same region from the peer id, the ring counter of a transport counts its
receives modulo 3, also those that were refused, and the allocator starts behind the last slot. -/

namespace HMP.PoolRun

/-- The region of the transport of peer `i` and the requests posted on it. -/
structure PeerOk (s : PoolRun) (t i : ℕ) : Prop where
  send : (s.node.trans t).region.sendAddr = slotAddr s.node.baseAddr i
  recv : (s.node.trans t).region.recvAddr = slotAddr s.node.baseAddr i + HMP_TASK_SIZE
  ring : (s.node.trans t).region.curRecv = ((s.recvs t).length + s.refused t) % 3
  recvs : ∀ n r, (s.recvs t)[n]? = some r →
    r.sge.addr = slotAddr s.node.baseAddr i + HMP_TASK_SIZE * (1 + (n + r.refused) % 3) ∧
      r.sge.length = HMP_TASK_SIZE
  sends : ∀ sge ∈ s.sends t, sge.addr = slotAddr s.node.baseAddr i

/-- The blocks lie one behind the other between the message area and the bump offset. -/
structure BlocksOk (s : PoolRun) (pool : HmpMempool) : Prop where
  lower : ∀ b ∈ s.blocks, pool.baseAddr + msgArea s.node.config.nodeCnt ≤ b.1
  upper : ∀ b ∈ s.blocks,
    b.1 + b.2 ≤ pool.baseAddr + msgArea s.node.config.nodeCnt + pool.allocSize
  sorted : s.blocks.Pairwise fun b c => b.1 + b.2 ≤ c.1

structure Inv (s : PoolRun) : Prop where
  cur : s.node.config.curnodeId < s.node.config.nodeCnt
  pool : ∃ pool, s.node.dramMempool = some pool ∧ BlocksOk s pool
  fresh : ∀ t, s.node.nextTrans ≤ t →
    s.owner t = none ∧ s.recvs t = [] ∧ s.refused t = 0 ∧ s.sends t = []
  peer : ∀ t i, s.owner t = some i → i < s.node.config.nodeCnt ∧ PeerOk s t i
  once : ∀ t t' i, s.owner t = some i → s.owner t' = some i → t = t'

theorem inv_start {s : PoolRun} (h : Start s) : Inv s := by
  obtain ⟨-, hcur, ⟨pool, hpool, -⟩, -, hown, hrec, href, hsend, hblocks⟩ := h
  refine ⟨hcur, ⟨pool, hpool, ?_⟩, ?_, ?_, ?_⟩
  · constructor <;> simp [hblocks]
  · simp [hown, hrec, href, hsend]
  · simp [hown]
  · simp [hown]

/-- A new transport for peer `i` is the next one of the heap, with the region of peer `i`. -/
structure Adds (s s' : PoolRun) (i : ℕ) : Prop where
  config : s'.node.config = s.node.config
  pool : s'.node.dramMempool = s.node.dramMempool
  next : s'.node.nextTrans = s.node.nextTrans + 1
  others : ∀ t ≠ s.node.nextTrans, s'.node.trans t = s.node.trans t
  region : (s'.node.trans s.node.nextTrans).region = slotRegion s.node i
  owner : s'.owner = Function.update s.owner s.node.nextTrans (some i)
  recvs : s'.recvs = s.recvs
  refused : s'.refused = s.refused
  sends : s'.sends = s.sends
  blocks : s'.blocks = s.blocks

theorem BlocksOk.congr {s s' : PoolRun} {pool : HmpMempool} (h : BlocksOk s pool)
    (hb : s'.blocks = s.blocks) (hc : s'.node.config.nodeCnt = s.node.config.nodeCnt) :
    BlocksOk s' pool := by
  refine ⟨?_, ?_, ?_⟩
  · rw [hb, hc]; exact h.lower
  · rw [hb, hc]; exact h.upper
  · rw [hb]; exact h.sorted

theorem baseAddr_congr {nd nd' : Node} (h : nd'.dramMempool = nd.dramMempool) :
    nd'.baseAddr = nd.baseAddr := by
  simp only [Node.baseAddr, h]

/-- Nothing about a peer changes unless its transport or its requests do. -/
theorem PeerOk.congr {s s' : PoolRun} {t i : ℕ} (h : PeerOk s t i)
    (hp : s'.node.baseAddr = s.node.baseAddr)
    (ht : (s'.node.trans t).region = (s.node.trans t).region) (hr : s'.recvs t = s.recvs t)
    (hf : s'.refused t = s.refused t) (hs : s'.sends t = s.sends t) : PeerOk s' t i := by
  refine ⟨?_, ?_, ?_, ?_, ?_⟩
  · rw [ht, hp]; exact h.send
  · rw [ht, hp]; exact h.recv
  · rw [ht, hr, hf]; exact h.ring
  · rw [hr, hp]; exact h.recvs
  · rw [hs, hp]; exact h.sends

/-- A transport with an owner has been allocated. -/
theorem not_owned {s : PoolRun} (h : Inv s) {i : ℕ} (hi : ∀ t < s.node.nextTrans, s.owner t ≠ some i)
    (t : ℕ) : s.owner t ≠ some i := by
  by_cases ht : t < s.node.nextTrans
  · exact hi t ht
  · rw [(h.fresh t (by omega)).1]
    nofun

theorem inv_adds {s s' : PoolRun} {i : ℕ} (h : Inv s) (ha : Adds s s' i)
    (hi : i < s.node.config.nodeCnt) (honce : ∀ t, s.owner t ≠ some i) : Inv s' := by
  have hbase := baseAddr_congr ha.pool
  obtain ⟨pool, hpool, hblocks⟩ := h.pool
  have hfresh := h.fresh s.node.nextTrans le_rfl
  refine ⟨?_, ⟨pool, ha.pool.trans hpool, hblocks.congr ha.blocks (by rw [ha.config])⟩, ?_, ?_, ?_⟩
  · rw [ha.config]; exact h.cur
  · intro t ht
    rw [ha.next] at ht
    rw [ha.owner, ha.recvs, ha.refused, ha.sends, Function.update_of_ne (by omega)]
    exact h.fresh t (by omega)
  · intro t j hj
    rw [ha.owner] at hj
    rw [ha.config]
    by_cases ht : t = s.node.nextTrans
    · subst ht
      obtain rfl : i = j := by simpa using hj
      refine ⟨hi, ?_, ?_, ?_, ?_, ?_⟩
      · rw [ha.region, hbase]; rfl
      · rw [ha.region, hbase]; rfl
      · rw [ha.region, ha.recvs, ha.refused, hfresh.2.1, hfresh.2.2.1]; rfl
      · rw [ha.recvs, hfresh.2.1]; simp
      · rw [ha.sends, hfresh.2.2.2]; simp
    · rw [Function.update_of_ne ht] at hj
      obtain ⟨hlt, hok⟩ := h.peer t j hj
      exact ⟨hlt, hok.congr hbase (by rw [ha.others t ht]) (by rw [ha.recvs])
        (by rw [ha.refused]) (by rw [ha.sends])⟩
  · intro t t' j hj hj'
    rw [ha.owner] at hj hj'
    -- the peer of the new transport has no other one
    have key : ∀ x, Function.update s.owner s.node.nextTrans (some i) x = some j →
        x ≠ s.node.nextTrans → s.owner x = some j ∧ j ≠ i := by
      intro x hx hne
      rw [Function.update_of_ne hne] at hx
      exact ⟨hx, fun hji => honce x (hji ▸ hx)⟩
    by_cases ht : t = s.node.nextTrans <;> by_cases ht' : t' = s.node.nextTrans
    · rw [ht, ht']
    · have hji : i = j := by simpa [ht] using hj
      exact absurd hji.symm (key t' hj' ht').2
    · have hji : i = j := by simpa [ht'] using hj'
      exact absurd hji.symm (key t hj ht).2
    · exact h.once t t' j (key t hj ht).1 (key t' hj' ht').1

theorem adds_active (s : PoolRun) (i : ℕ) {nd : Node} {t : ℕ}
    (hc : peerCreate s.node i true = (nd, some t)) :
    Adds s { s with node := peerRegion nd t i, owner := Function.update s.owner t (some i) } i := by
  rw [peerCreate_eq] at hc
  obtain ⟨rfl, ht⟩ := Prod.mk.inj hc
  obtain rfl := Option.some.inj ht
  rw [peerRegion_eq]
  constructor <;> simp +contextual [slotRegion, Node.baseAddr]

/-- A request that leaves the shared fields alone and whose transport stays without an owner. -/
theorem inv_unowned {s s' : PoolRun} (h : Inv s) (hc : s'.node.config = s.node.config)
    (hp : s'.node.dramMempool = s.node.dramMempool) (hn : s.node.nextTrans ≤ s'.node.nextTrans)
    (ht : ∀ t, t ≠ s.node.nextTrans → s'.node.trans t = s.node.trans t)
    (ho : ∀ t, t ≠ s.node.nextTrans → s'.owner t = s.owner t)
    (ho' : s'.owner s.node.nextTrans = none) (hr : s'.recvs = s.recvs)
    (hf : s'.refused = s.refused) (hs : s'.sends = s.sends) (hb : s'.blocks = s.blocks) : Inv s' := by
  have hown : ∀ t i, s'.owner t = some i → t ≠ s.node.nextTrans ∧ s.owner t = some i := by
    intro t i hi
    have hne : t ≠ s.node.nextTrans := by
      rintro rfl
      rw [ho'] at hi
      cases hi
    exact ⟨hne, by rw [← ho t hne]; exact hi⟩
  obtain ⟨pool, hpool, hblocks⟩ := h.pool
  refine ⟨hc ▸ h.cur, ⟨pool, hp.trans hpool, hblocks.congr hb (by rw [hc])⟩, ?_, ?_, ?_⟩
  · intro t hle
    have hnew := h.fresh t (by omega)
    rw [hr, hf, hs]
    refine ⟨?_, hnew.2⟩
    by_cases hne : t = s.node.nextTrans
    · rw [hne]; exact ho'
    · rw [ho t hne]; exact hnew.1
  · intro t i hi
    obtain ⟨hne, hi⟩ := hown t i hi
    obtain ⟨hlt, hok⟩ := h.peer t i hi
    exact ⟨hc ▸ hlt, hok.congr (baseAddr_congr hp) (by rw [ht t hne]) (by rw [hr]) (by rw [hf])
      (by rw [hs])⟩
  · intro t t' i hi hi'
    exact h.once t t' i (hown t i hi).2 (hown t' i hi').2

theorem inv_request {s : PoolRun} (h : Inv s) {p : ℕ} (cm : CmId) (o : RequestOutcome)
    (hp : p < s.node.config.curnodeId)
    (hid : hmpSetCurnodeId s.node.config (s.node.config.nodeInfos p).addr = some p)
    (honce : ∀ t, s.owner t ≠ some p) :
    Inv (s.request (s.node.config.nodeInfos p).addr cm o (some p)) := by
  have hf := requestTransport_frame s.node cm o
  unfold request
  split
  · rename_i nd heq
    rw [heq] at hf
    obtain ⟨hc, hpool, -, hn, ht⟩ := hf
    exact inv_unowned h hc hpool hn ht (fun _ _ => rfl) (h.fresh _ le_rfl).1 rfl rfl rfl rfl
  · rename_i nd t heq
    rw [heq] at hf
    obtain ⟨hc, hpool, -, -, ht⟩ := hf
    simp only at hc hpool ht
    obtain ⟨rfl, hnd⟩ := requestTransport_some heq
    have hnext : nd.nextTrans = s.node.nextTrans + 1 := by rw [hnd]; rfl
    have hreg := @requestRegister_of_curnodeId nd p s.node.nextTrans
      (by rw [hc]; exact hp) (by rw [hc]; exact hid)
    rw [hc] at hreg
    refine inv_adds h (i := p) ?_ (by have := h.cur; omega) honce
    rw [hreg]
    refine ⟨hc, hpool, hnext, ?_, ?_, rfl, rfl, rfl, rfl, rfl⟩
    · intro t hne
      simp only [Node.setTrans_trans, Function.update_of_ne hne]
      exact ht t hne
    · simp [slotRegion, baseAddr_congr hpool]

theorem inv_stranger {s : PoolRun} (h : Inv s) {addr : String} (cm : CmId) (o : RequestOutcome)
    (haddr : ∀ i < s.node.config.curnodeId, (s.node.config.nodeInfos i).addr ≠ addr) :
    Inv (s.request addr cm o none) := by
  have hf := requestTransport_frame s.node cm o
  unfold request
  split
  · rename_i nd heq
    rw [heq] at hf
    obtain ⟨hc, hpool, -, hn, ht⟩ := hf
    exact inv_unowned h hc hpool hn ht (fun _ _ => rfl) (h.fresh _ le_rfl).1 rfl rfl rfl rfl
  · rename_i nd t heq
    rw [heq] at hf
    obtain ⟨hc, hpool, -, hn, ht⟩ := hf
    simp only at hc hpool hn ht
    obtain ⟨rfl, -⟩ := requestTransport_some heq
    have hreg : requestRegister nd s.node.nextTrans addr = nd :=
      requestRegister_stranger _ (by rwa [hc])
    rw [hreg]
    exact inv_unowned h hc hpool hn ht (fun t hne => by simp [Function.update_of_ne hne])
      (by simp) rfl rfl rfl rfl

theorem accepted_recv (nd : Node) (t : ℕ) (o : PostOutcome) :
    accepted nd (hmpPostRecv nd t o) o =
      if o.task ∧ o.err = 0 then [{ addr := (nd.trans t).region.recvAddr +
                                      (nd.trans t).region.curRecv * HMP_TASK_SIZE
                                    length := HMP_TASK_SIZE, lkey := nd.lkey }] else [] := by
  unfold accepted
  split_ifs with h
  · rw [hmpPostRecv_task nd t o h.1]
  · rfl

/-- The next receive of a peer goes to the slot after that of the last one, refused or not. -/
theorem peerOk_postRecv {s : PoolRun} {t i : ℕ} (h : PeerOk s t i) (o : PostOutcome) :
    PeerOk (s.postRecv t o) t i := by
  have hbase : (hmpPostRecv s.node t o).baseAddr = s.node.baseAddr := baseAddr_congr (by simp)
  cases ho : o.task
  · refine h.congr hbase ?_ ?_ ?_ rfl
    · simp [postRecv, hmpPostRecv_trans, ho]
    · simp [postRecv, accepted_recv, ho]
    · simp [postRecv, ho]
  · refine ⟨?_, ?_, ?_, ?_, ?_⟩
    · simpa [postRecv, hmpPostRecv_trans, ho, hbase] using h.send
    · simpa [postRecv, hmpPostRecv_trans, ho, hbase] using h.recv
    · -- the counter has gone on in both cases
      simp only [postRecv, hmpPostRecv_trans, accepted_recv, ho, true_and, ne_eq, if_true,
        Function.update_self, h.ring]
      by_cases herr : o.err = 0
      · simp only [herr, if_true, not_true_eq_false, if_false, List.map_cons, List.map_nil,
          List.length_append, List.length_singleton]
        omega
      · simp only [herr, if_false, not_false_eq_true, if_true, List.map_nil, List.append_nil,
          Function.update_self]
        omega
    · intro n r hn
      simp only [postRecv, accepted_recv, ho, true_and, Function.update_self] at hn
      simp only [postRecv, hbase]
      rw [List.getElem?_append] at hn
      split_ifs at hn with hlt herr
      · exact h.recvs n r hn
      · obtain ⟨hlen, rfl⟩ : n = (s.recvs t).length ∧ _ = r := by
          rw [List.map_singleton, List.getElem?_singleton] at hn
          split_ifs at hn with h0
          exact ⟨by omega, Option.some.inj hn⟩
        simp only [h.recv, h.ring, hlen, and_true]
        ring
      · cases hn
    · simpa [postRecv, hbase] using h.sends

theorem inv_postRecv {s : PoolRun} (h : Inv s) {t : ℕ} (o : PostOutcome)
    (ht : t < s.node.nextTrans) : Inv (s.postRecv t o) := by
  have hbase : (hmpPostRecv s.node t o).baseAddr = s.node.baseAddr := baseAddr_congr (by simp)
  have hrefused : ∀ t' ≠ t, (s.postRecv t o).refused t' = s.refused t' := by
    intro t' hne
    simp only [postRecv]
    split_ifs
    · exact Function.update_of_ne hne ..
    · rfl
  obtain ⟨pool, hpool, hblocks⟩ := h.pool
  refine ⟨by simpa [postRecv] using h.cur,
    ⟨pool, by simpa [postRecv] using hpool, hblocks.congr rfl (by simp [postRecv])⟩, ?_, ?_, h.once⟩
  · intro t' hle
    simp only [postRecv, hmpPostRecv_nextTrans] at hle
    have hne : t' ≠ t := by omega
    rw [hrefused t' hne]
    simpa [postRecv, Function.update_of_ne hne] using h.fresh t' hle
  · intro t' i hi
    obtain ⟨hlt, hok⟩ := h.peer t' i hi
    refine ⟨by simpa [postRecv] using hlt, ?_⟩
    by_cases htt : t' = t
    · subst htt
      exact peerOk_postRecv hok o
    · refine hok.congr hbase ?_ (by simp [postRecv, Function.update_of_ne htt])
        (hrefused t' htt) rfl
      simp only [postRecv, hmpPostRecv_trans]
      split_ifs <;> simp [Function.update_of_ne htt]

theorem inv_postSend {s : PoolRun} (h : Inv s) {t : ℕ} (msg : HmpMsg) (o : PostOutcome)
    (ht : t < s.node.nextTrans) :
    Inv { s with node := hmpPostSend s.node t msg o
                 sends := Function.update s.sends t
                   (s.sends t ++ accepted s.node (hmpPostSend s.node t msg o) o) } := by
  have hbase : (hmpPostSend s.node t msg o).baseAddr = s.node.baseAddr := baseAddr_congr (by simp)
  obtain ⟨pool, hpool, hblocks⟩ := h.pool
  refine ⟨by simpa using h.cur, ⟨pool, by simpa using hpool, hblocks.congr rfl (by simp)⟩, ?_, ?_,
    h.once⟩
  · intro t' hle
    simp only [hmpPostSend_nextTrans] at hle
    simpa [Function.update_of_ne (show t' ≠ t by omega)] using h.fresh t' hle
  · intro t' i hi
    obtain ⟨hlt, hok⟩ := h.peer t' i hi
    refine ⟨by simpa using hlt, ?_⟩
    by_cases htt : t' = t
    · subst htt
      refine ⟨by simpa [hbase] using hok.send, by simpa [hbase] using hok.recv,
        by simpa using hok.ring, by simpa [hbase] using hok.recvs, ?_⟩
      intro sge hsge
      simp only [Function.update_self, List.mem_append, accepted] at hsge
      simp only [hbase]
      rcases hsge with hsge | hsge
      · exact hok.sends sge hsge
      · split_ifs at hsge with ho
        · rw [List.mem_singleton.mp hsge, hmpPostSend_task_addr _ _ _ _ ho.1]
          exact hok.send
        · cases hsge
    · exact hok.congr hbase (by simp) rfl rfl (by simp [Function.update_of_ne htt])

theorem inv_malloc {s s' : PoolRun} (h : Inv s) {n : ℤ} (hs : s.step (.malloc n) = some s') :
    Inv s' := by
  obtain ⟨pool, hpool, hblocks⟩ := h.pool
  simp only [step, hpool, Option.map_eq_some_iff] at hs
  obtain ⟨r, hr, rfl⟩ := hs
  obtain ⟨hn, heq⟩ := Option.ite_none_right_eq_some.mp hr
  obtain rfl := Option.some.inj heq
  have hbase : s.node.baseAddr = pool.baseAddr := by simp [Node.baseAddr, hpool]
  refine ⟨h.cur, ⟨_, rfl, ?_, ?_, ?_⟩, h.fresh, ?_, h.once⟩
  · intro b hb
    rcases List.mem_append.mp hb with hb | hb
    · exact hblocks.lower b hb
    · rw [List.mem_singleton.mp hb]
      exact Nat.le_add_right _ _
  · intro b hb
    simp only
    rcases List.mem_append.mp hb with hb | hb
    · have := hblocks.upper b hb
      omega
    · rw [List.mem_singleton.mp hb]
      simp only
      omega
  · rw [List.pairwise_append]
    refine ⟨hblocks.sorted, List.pairwise_singleton _ _, ?_⟩
    intro b hb c hc
    rw [List.mem_singleton.mp hc]
    exact hblocks.upper b hb
  · intro t i hi
    obtain ⟨hlt, hok⟩ := h.peer t i hi
    exact ⟨hlt, hok.congr (by rw [hbase]; rfl) rfl rfl rfl rfl⟩

theorem inv_step {s s' : PoolRun} {e : PoolEvent} (h : Inv s) (hok : OncePerPeer s e)
    (hs : s.step e = some s') : Inv s' := by
  cases e with
  | active i =>
    simp only [step, Option.ite_none_right_eq_some] at hs
    obtain ⟨⟨-, hi⟩, hs⟩ := hs
    split at hs
    · rename_i nd t hc
      obtain rfl := Option.some.inj hs
      exact inv_adds h (adds_active s i hc) hi (not_owned h hok)
    · cases hs
  | request p cm o =>
    simp only [step, Option.ite_none_right_eq_some, Option.some.injEq] at hs
    obtain ⟨⟨hp, hid⟩, rfl⟩ := hs
    exact inv_request h cm o hp hid (not_owned h hok)
  | stranger addr cm o =>
    simp only [step, Option.ite_none_right_eq_some, Option.some.injEq] at hs
    obtain ⟨haddr, rfl⟩ := hs
    exact inv_stranger h cm o haddr
  | postRecv t o =>
    simp only [step, Option.ite_none_right_eq_some, Option.some.injEq] at hs
    obtain ⟨ht, rfl⟩ := hs
    exact inv_postRecv h o ht
  | postSend t msg o =>
    simp only [step, Option.ite_none_right_eq_some, Option.some.injEq] at hs
    obtain ⟨ht, rfl⟩ := hs
    exact inv_postSend h msg o ht
  | malloc n => exact inv_malloc h hs

theorem inv_reach {s : PoolRun} (h : sys.Reach OncePerPeer s) : Inv s :=
  h.inv (I := Inv) (fun _ => inv_start) fun _ _ _ hi hok hs => inv_step hi hok hs

end HMP.PoolRun
