import Hmp.Sanity.GlobalAddr
import Hmp.Sanity.Transfer

/-! The two paths of `hmp_read`. The copy inside the own pool delivers the bytes. The
one-sided read never does: no pool is registered for remote reads. -/

namespace HMP.Transfer

variable {pools : ℕ → HmpMempool} {s : Transfer} {j a dst : ℕ} {length : ℤ}

theorem PoolOf.spec {pool : HmpMempool} (h : PoolOf pool) :
    pool.size = 4096 ∧ pool.mr.access = poolAccess ∧ pool.mr.length = 4096 := by
  obtain ⟨base, pageArray, keys, pool₀, hc, hp⟩ := h
  obtain ⟨b, -, hb⟩ := Option.bind_eq_some_iff.mp hc
  obtain ⟨-, hm⟩ := Option.ite_none_right_eq_some.mp hb
  obtain ⟨k, -, rfl⟩ := Option.map_eq_some_iff.mp hm
  rw [hp]
  exact ⟨rfl, rfl, rfl⟩

/-- `IBV_ACCESS_REMOTE_READ` is missing, whatever the connection. -/
theorem not_readAllowed (h : FullyConnected pools s) {s' : Transfer}
    (hfar : s'.far = s.far) (t : ℕ) (wr : IbvSendWr) : ¬ ReadAllowed pools s' t wr := by
  rintro ⟨hacc, -⟩
  rw [hfar, (h.pool _ (h.far t)).spec.2.1] at hacc
  exact absurd hacc (by decide)

/-- What the length of a range in a pool rules out: no conversion changes it. -/
theorem InPool.length_lt {pool : HmpMempool} (hp : PoolOf pool) (h : InPool pool a length)
    (hl : 0 < length) : a < 2 ^ 48 ∧ length ≤ 4096 := by
  have hs := hp.spec.1
  have hf := pool.fits
  obtain ⟨h1, h2⟩ := h
  rw [hs] at h2 hf
  omega

/-- The call decides for the copy, or for the transport in the table. -/
theorem call_eq (h : FullyConnected pools s) (hj : j < s.node.config.nodeCnt)
    (ha : a < 2 ^ 48) (hl : 0 < length) (hl' : length ≤ 4096) :
    s.step (.call .read dst (hmpGetHybridMempoolAddr j + BitVec.ofNat 64 a) length) =
      if j = s.node.config.curnodeId then
        (memcpy s.node.mem dst a length.toNat).map fun mem => { s with
          node := { s.node with mem := mem }
          hist := s.hist ++ [⟨.read, j, a, mem.read dst length.toNat⟩] }
      else
        (s.node.connectTrans j).map fun t => { s with
          app := .checking ⟨.read, j, t, dst, a, length⟩ } := by
  have hmod : (length % 2 ^ 64).toNat = length.toNat := by omega
  have haddr : (BitVec.ofNat 64 a).toNat = a := by
    rw [BitVec.toNat_ofNat]
    omega
  simp only [step, callStep, h.idle, if_true, access_eq, accessPath,
    hmpGetHmNodeId_globalAddr (h.nodeCnt.trans (by decide)) hj ha, Option.bind_some, haddr, copyOf, hmod]
  split_ifs with hc
  · cases memcpy s.node.mem dst a length.toNat <;> simp
  · cases s.node.connectTrans j <;> simp

/-! ## The copy -/

theorem transferData_mem {t : ℕ} {wr : IbvSendWr} (h : wr.opcode ≠ .rdmaRead) :
    (s.transferData t wr).node.mem = s.node.mem := by
  unfold transferData
  cases ho : wr.opcode with
  | send => rfl
  | rdmaWrite => rfl
  | rdmaRead => exact absurd ho h

/-- With no call under way, the adapter and the event thread leave the memory alone. -/
structure Quiet (s x : Transfer) : Prop where
  far : x.far = s.far
  app : x.app = .idle
  mem : x.node.mem = s.node.mem
  cur : x.node.config.curnodeId = s.node.config.curnodeId

theorem quiet_step {s₁ x x' : Transfer} {e : TransferEvent} (h : FullyConnected pools s)
    (hfar : s₁.far = s.far) (hq : Quiet s₁ x) (hv : VerbsReads pools x e)
    (hs : x.step e = some x') : Quiet s₁ x' := by
  cases e with
  | check o =>
    obtain ⟨c, happ, -⟩ := checkStep_some hs
    exact absurd (happ.symm.trans hq.app) (by simp)
  | ret =>
    obtain ⟨c, p, happ, -⟩ := retStep_some hs
    exact absurd (happ.symm.trans hq.app) (by simp)
  | complete t status =>
    obtain ⟨wr, rest, mem, remote, hsq, hdata, hmem, rfl⟩ := completeStep_some hs
    refine ⟨hq.far, hq.app, ?_, hq.cur⟩
    by_cases hst : status = .success
    · have hop : wr.opcode ≠ .rdmaRead := by
        intro hop
        exact not_readAllowed h (hq.far.trans hfar) t wr ((hv wr (by simp [hsq]) hop).mp hst)
      exact (hdata hst).1.trans ((transferData_mem hop).trans hq.mem)
    · exact (hmem hst).1.trans hq.mem
  | poll t =>
    obtain ⟨wc, rest, -, -, -, rfl⟩ := pollStep_some hs
    exact ⟨hq.far, hq.app, (dispatchWc_frame _ wc).2.2.2.2.1.trans hq.mem,
      (dispatchWc_curnodeId _ wc).trans hq.cur⟩
  | loopExit =>
    obtain ⟨-, hs⟩ := Option.ite_none_right_eq_some.mp hs
    obtain rfl := Option.some.inj hs
    exact ⟨hq.far, hq.app, hq.mem, hq.cur⟩
  | call | recv | cm | store | storeRemote => exact hv.elim

/-! ## The one-sided read -/

/-- The call waits for task `p`, and no completion is there that would finish it. -/
structure Unserved (s : Transfer) (c : RemoteCall) (p : ℕ) (x : Transfer) : Prop where
  far : x.far = s.far
  app : x.app = .waiting c p
  task : (x.node.task p).type ≠ .done
  cq : ∀ t, ∀ wc ∈ (x.node.qp t).cq, wc.wrId = p → ¬ (wc.opcode = .rdmaRead ∧ wc.status = .success)

theorem unserved_step {c : RemoteCall} {p : ℕ} {x x' : Transfer} {e : TransferEvent}
    (h : FullyConnected pools s) (hu : Unserved s c p x) (hv : VerbsReads pools x e)
    (hs : x.step e = some x') : Unserved s c p x' := by
  cases e with
  | check o =>
    obtain ⟨c', happ, -⟩ := checkStep_some hs
    exact absurd (happ.symm.trans hu.app) (by simp)
  | ret =>
    obtain ⟨c', p', happ, hd, -⟩ := retStep_some hs
    obtain ⟨rfl, rfl⟩ := AppPc.waiting.inj (happ.symm.trans hu.app)
    exact absurd hd hu.task
  | complete t status =>
    obtain ⟨wr, rest, mem, remote, hsq, -, -, rfl⟩ := completeStep_some hs
    refine ⟨hu.far, hu.app, hu.task, fun u wc hw hid => ?_⟩
    by_cases hut : u = t
    · subst hut
      simp only [Node.setQp_qp, Function.update_self, List.mem_append, List.mem_singleton] at hw
      rcases hw with hw | rfl
      · exact hu.cq u wc hw hid
      · rintro ⟨hop, hst⟩
        have hop' : wr.opcode = .rdmaRead := by
          cases ho : wr.opcode <;> simp [ho, IbvWrOpcode.wc] at hop ⊢
        exact not_readAllowed h hu.far u wr ((hv wr (by simp [hsq]) hop').mp hst)
    · exact hu.cq u wc (by simpa [hut] using hw) hid
  | poll t =>
    obtain ⟨wc, rest, hcq, -, -, rfl⟩ := pollStep_some hs
    refine ⟨hu.far, hu.app, ?_, fun u wc' hw hid => ?_⟩
    · rcases dispatchWc_cases (x.node.setQp t { x.node.qp t with cq := rest }) wc with
        he | ⟨-, -, he⟩ | ⟨hst, hop, he⟩ <;> simp only [he]
      · exact hu.task
      · exact hu.task
      · have hne : p ≠ wc.wrId := fun hp => hu.cq t wc (by simp [hcq]) hp.symm ⟨hop, hst⟩
        simpa [hne] using hu.task
    · simp only [(dispatchWc_frame _ wc).1] at hw
      by_cases hut : u = t
      · subst hut
        exact hu.cq u wc' (by simp at hw; simp [hcq, hw]) hid
      · exact hu.cq u wc' (by simpa [hut] using hw) hid
  | loopExit =>
    obtain ⟨-, hs⟩ := Option.ite_none_right_eq_some.mp hs
    obtain rfl := Option.some.inj hs
    exact ⟨hu.far, hu.app, hu.task, hu.cq⟩
  | call | recv | cm | store | storeRemote => exact hv.elim

theorem unserved_start (h : FullyConnected pools s) {c : RemoteCall}
    (hst : (s.node.trans c.t).transState = .connected) (hop : c.op = .read) :
    ∃ s₂, { s with app := .checking c }.step (.check {}) = some s₂ ∧
      Unserved s c s.node.nextTask s₂ := by
  refine ⟨{ s with node := (hmpRdmaReadPost s.node c.t c.localAddr c.addr c.length {}).1
                   app := .waiting c s.node.nextTask }, ?_, rfl, rfl, ?_, fun u wc hw hid => ?_⟩
  · simp [step, checkStep, hst, hop, hmpTransportCheckState, hmpRdmaReadPost_eq]
  · simp [hmpRdmaReadPost_eq]
  · have hw' : wc ∈ (s.node.qp u).cq := by
      rw [hmpRdmaReadPost_eq] at hw
      by_cases hut : u = c.t
      · subst hut; simpa using hw
      · simpa [hut] using hw
    have := ((h.tasks u).cq wc hw').1
    omega

theorem remote_read_waits (h : FullyConnected pools s) (hj : j < s.node.config.nodeCnt)
    (hc : j ≠ s.node.config.curnodeId) (ha : a < 2 ^ 48) (hl : 0 < length)
    (hl' : length ≤ 4096) : ¬ ReadReturns pools s j a dst length := by
  rintro ⟨s₁, hs₁, hruns⟩
  obtain ⟨t, ht, -, -, hst⟩ := h.conn j hj hc
  rw [call_eq h hj ha hl hl', if_neg hc, ht] at hs₁
  obtain rfl := Option.some.inj hs₁
  obtain ⟨s₂, hs₂, hu⟩ := unserved_start h (c := ⟨.read, j, t, dst, a, length⟩) hst rfl
  -- from here on, no run returns
  have hv : VerbsReads pools { s with app := .checking ⟨.read, j, t, dst, a, length⟩ }
      (.check {}) := fun _ _ _ _ => rfl
  obtain ⟨s', hr, hidle⟩ := (hruns s₂ (Sys.Run.nil.snoc hv hs₂)).1
  have hu' : Unserved s ⟨.read, j, t, dst, a, length⟩ s.node.nextTask s' :=
    hr.keeps (fun _ _ _ hx hv hst => unserved_step h hx hv hst) hu
  exact absurd (hu'.app.symm.trans hidle) (by simp)

theorem local_read_returns (h : FullyConnected pools s) (hj : j < s.node.config.nodeCnt)
    (hc : j = s.node.config.curnodeId) (ha : a < 2 ^ 48) (hl : 0 < length)
    (hl' : length ≤ 4096) (hdis : dst + length.toNat ≤ a ∨ a + length.toNat ≤ dst) :
    ReadReturns pools s j a dst length := by
  obtain ⟨s₁, hs₁, hfar, happ, hcur, hmem₁⟩ : ∃ s₁,
      s.step (.call .read dst (hmpGetHybridMempoolAddr j + BitVec.ofNat 64 a) length) = some s₁ ∧
      s₁.far = s.far ∧ s₁.app = .idle ∧
      s₁.node.config.curnodeId = s.node.config.curnodeId ∧
      s₁.node.mem = s.node.mem.write dst (s.node.mem.read a length.toNat) := by
    rw [call_eq h hj ha hl hl', if_pos hc, memcpy, if_pos hdis]
    exact ⟨_, rfl, rfl, h.idle, rfl, rfl⟩
  refine ⟨s₁, hs₁, fun s' hr => ?_⟩
  have hq : Quiet s₁ s' :=
    hr.keeps (fun _ _ _ hx hv hst => quiet_step h hfar hx hv hst) ⟨rfl, happ, rfl, rfl⟩
  refine ⟨⟨s', .nil, hq.app⟩, fun _ => ?_⟩
  have hmem := hq.mem.trans hmem₁
  have hown : s'.memOf j = s'.node.mem := if_pos (hc.trans (hq.cur.trans hcur).symm)
  rw [hown, hmem]
  refine ⟨?_, fun x hx => ?_⟩
  · have hself := Mem.read_write_self s.node.mem dst (s.node.mem.read a length.toNat)
    rw [Mem.read_length] at hself
    rw [hself, Mem.read_write_of_disjoint]
    simpa using hdis.symm
  · rcases hx with hx | hx
    · exact Mem.write_of_lt _ _ hx
    · exact Mem.write_of_le _ _ (by simpa using hx)

/-- `hmp_read` keeps its promise exactly for ranges of the own pool that do not overlap
the buffer. -/
theorem read_returns_iff (h : FullyConnected pools s) (hj : j < s.node.config.nodeCnt)
    (hl : 0 < length) (ha : InPool (pools j) a length)
    (_ : InPool (pools s.node.config.curnodeId) dst length) :
    ReadReturns pools s j a dst length ↔
      j = s.node.config.curnodeId ∧ (dst + length.toNat ≤ a ∨ a + length.toNat ≤ dst) := by
  obtain ⟨ha', hl'⟩ := ha.length_lt (h.pool j hj) hl
  constructor
  · intro hr
    by_cases hc : j = s.node.config.curnodeId
    · refine ⟨hc, ?_⟩
      by_contra hdis
      obtain ⟨s₁, hs₁, -⟩ := hr
      rw [call_eq h hj ha' hl hl', if_pos hc, memcpy, if_neg hdis] at hs₁
      exact absurd hs₁ (by simp)
    · exact absurd hr (remote_read_waits h hj hc ha' hl hl')
  · rintro ⟨hc, hdis⟩
    exact local_read_returns h hj hc ha' hl hl' hdis

theorem sampleTransfer_connected : FullyConnected (fun _ => samplePool) sampleTransfer :=
  ⟨sampleTransfer_conn, fun _ _ => ⟨_, _, _, _, samplePool_created, rfl⟩, rfl,
    fun _ => Nat.lt_succ_self 1⟩

/-- Node 0 reads 64 bytes of its own pool. -/
theorem read_returns_iff_own : ReadReturns (fun _ => samplePool) sampleTransfer 0 4096 4416 64 :=
  (read_returns_iff sampleTransfer_connected (by decide) (by decide) (by unfold InPool; decide)
    (by unfold InPool; decide)).mpr ⟨rfl, by decide⟩

/-- Node 0 reads 64 bytes of node 1: the call never returns. -/
theorem remote_read_fails :
    ¬ ∀ (pools : ℕ → HmpMempool) (s : Transfer) (j a dst : ℕ) (length : ℤ),
      FullyConnected pools s → j < s.node.config.nodeCnt → 0 < length →
      InPool (pools j) a length → InPool (pools s.node.config.curnodeId) dst length →
      ReadReturns pools s j a dst length := by
  intro h
  exact remote_read_waits sampleTransfer_connected (by decide)
    (by decide) (by decide) (by decide) (by decide)
    (h (fun _ => samplePool) sampleTransfer 1 4096 4416 64 sampleTransfer_connected (by decide)
      (by decide) (by unfold InPool; decide) (by unfold InPool; decide))

end HMP.Transfer
