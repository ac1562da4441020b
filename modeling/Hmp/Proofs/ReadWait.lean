import Hmp.Sanity.Transfer

/-! A remote read is released by its own completion and by nothing else. While it
waits, that completion is still to come from the adapter or still to be polled. -/

namespace HMP.Transfer

/-- The request of read `p` is in the queue of `t`, or its completion is, with success. -/
def Queued (nd : Node) (t p : ℕ) : Prop :=
  (∃ wr ∈ (nd.qp t).sq, wr.wrId = p ∧ wr.opcode = .rdmaRead) ∨
    ∃ wc ∈ (nd.qp t).cq, wc.wrId = p ∧ wc.opcode = .rdmaRead ∧ wc.status = .success

/-- Read `p` on `t` is done, or its completion will reach the success handler. -/
structure Served (s : Transfer) (t p : ℕ) : Prop where
  task : p < s.node.nextTask
  trans : t < s.node.nextTrans
  live : (s.node.task p).type ≠ .done →
    s.running = true ∧ (s.node.qp t).registered = true ∧ Queued s.node t p

structure WaitInv (s : Transfer) : Prop where
  table : s.node.TableOk
  checking : ∀ c, s.app = .checking c → c.t < s.node.nextTrans
  waiting : ∀ c p, s.app = .waiting c p → Served s c.t p

theorem Queued.grows {nd nd' : Node} {t p : ℕ} (h : Queued nd t p) (hg : nd.QueueGrows nd' t) :
    Queued nd' t p := by
  rcases h with ⟨wr, hw, hwr⟩ | ⟨wc, hw, hwc⟩
  · exact .inl ⟨wr, hg.sq.subset hw, hwr⟩
  · exact .inr ⟨wc, hg.cq ▸ hw, hwc⟩

theorem Queued.congr {nd nd' : Node} {t p : ℕ} (h : Queued nd t p) (hq : nd'.qp t = nd.qp t) :
    Queued nd' t p := by
  unfold Queued
  rw [hq]
  exact h

theorem Queued.ne_default {nd : Node} {t p : ℕ} (h : Queued nd t p) : nd.qp t ≠ {} := by
  intro he
  rcases h with ⟨wr, hw, -⟩ | ⟨wc, hw, -⟩ <;> simp [he] at hw

theorem Served.grows {s s' : Transfer} {t p : ℕ} (h : Served s t p)
    (hg : s.node.QueueGrows s'.node t) (hn : s.node.nextTrans ≤ s'.node.nextTrans)
    (hr : s'.running = s.running) : Served s' t p := by
  refine ⟨h.task.trans_le hg.adds.nextTask, h.trans.trans_le hn, fun hd => ?_⟩
  rw [hg.adds.task p h.task] at hd
  obtain ⟨h1, h2, h3⟩ := h.live hd
  exact ⟨hr.trans h1, hg.registered.trans h2, h3.grows hg⟩

theorem waitsOn_waiting {s : Transfer} {c : RemoteCall} {p : ℕ} (h : s.app = .waiting c p) :
    s.waitsOn = if (s.node.task p).type = .done then none else some p := by
  simp [waitsOn, h]

theorem waitInv_start {s : Transfer} (h : Start s) : WaitInv s := by
  obtain ⟨happ, -, htable, -⟩ := h
  exact ⟨htable, by simp [happ], by simp [happ]⟩

/-- A step that leaves the calling thread, the loop and the queues as they are. -/
theorem WaitInv.congr {s s' : Transfer} (hi : WaitInv s) (happ : s'.app = s.app)
    (hr : s'.running = s.running) (hc : s'.node.connectTrans = s.node.connectTrans)
    (hn : s'.node.nextTrans = s.node.nextTrans) (ha : s.node.AddsTasks s'.node)
    (hq : s'.node.qp = s.node.qp) : WaitInv s' := by
  refine ⟨hi.table.congr hc hn, fun c hc => ?_, fun c p hw => ?_⟩
  · rw [hn]
    exact hi.checking c (happ ▸ hc)
  · exact (hi.waiting c p (happ ▸ hw)).grows (.same ha (by rw [hq])) hn.ge hr

theorem waitInv_call {s s' : Transfer} {op : TransferOp} {localAddr : ℕ} {hmAddr : BitVec 64}
    {length : ℤ} (hi : WaitInv s) (h : s.step (.call op localAddr hmAddr length) = some s') :
    WaitInv s' := by
  obtain ⟨happ, r, -, ⟨mem, -, rfl⟩ | ⟨t, addr, hacc, rfl⟩⟩ := callStep_some h
  · exact hi.congr rfl rfl rfl rfl (.same rfl rfl) rfl
  · obtain ⟨r', -, -, ht, -⟩ := access_remote hacc
    refine ⟨hi.table, fun c hc => ?_, fun c p hw => absurd hw (by simp)⟩
    obtain rfl := AppPc.checking.inj hc
    exact hi.table _ _ ht

theorem waitInv_check {s s' : Transfer} {o : PostOutcome} (hi : WaitInv s)
    (hv : ReleasesReads s (.check o)) (h : s.step (.check o) = some s') : WaitInv s' := by
  obtain ⟨c, happ, rfl | ⟨hst, ⟨hop, rfl⟩ | ⟨hop, rfl⟩⟩⟩ := checkStep_some h
  · exact ⟨hi.table, by simp, by simp⟩
  · have hv' : o.task = true → o.err = 0 ∧ s.running = true ∧ (s.node.qp c.t).registered = true := by
      intro ho
      simpa [ReleasesReads, releasesReads, happ, hop, hst, ho] using hv
    rw [hmpRdmaReadPost_eq]
    cases ho : o.task
    · exact ⟨by simpa using hi.table, by simp, by simp⟩
    · obtain ⟨he, hr, hreg⟩ := hv' ho
      have ht := hi.checking c happ
      simp only [he, if_true]
      refine ⟨hi.table.congr rfl rfl, by simp, fun c' p hw => ?_⟩
      obtain ⟨rfl, rfl⟩ := AppPc.waiting.inj hw
      exact ⟨Nat.lt_succ_self _, ht, fun _ => ⟨hr, by simpa using hreg,
        .inl ⟨_, by simp; right; rfl, rfl, rfl⟩⟩⟩
  · rw [hmpRdmaWritePost_eq]
    refine ⟨?_, by simp, by simp⟩
    split_ifs <;> exact hi.table.congr rfl rfl

theorem waitInv_complete {s s' : Transfer} {t : ℕ} {status : IbvWcStatus} (hi : WaitInv s)
    (hv : ReleasesReads s (.complete t status)) (h : s.step (.complete t status) = some s') :
    WaitInv s' := by
  obtain ⟨wr, rest, mem, remote, hsq, -, -, rfl⟩ := completeStep_some h
  refine ⟨hi.table, hi.checking, fun c p hw => ?_⟩
  have happ : s.app = .waiting c p := hw
  have hs := hi.waiting c p happ
  refine ⟨hs.task, hs.trans, fun hd => ?_⟩
  have hnd : (s.node.task p).type ≠ .done := hd
  obtain ⟨hr, hreg, hq⟩ := hs.live hnd
  refine ⟨hr, ?_, ?_⟩
  · by_cases hct : c.t = t
    · subst hct; simpa using hreg
    · simpa [hct] using hreg
  · by_cases hct : c.t = t
    · subst hct
      rcases hq with ⟨wr', hw', hid, hop⟩ | ⟨wc, hw', hwc⟩
      · rw [hsq, List.mem_cons] at hw'
        rcases hw' with rfl | hw'
        · -- the request of the read itself completes
          have hst : status = .success := by
            have hwait : s.waitsOn = some wr'.wrId := by
              rw [waitsOn_waiting happ, hid, if_neg hnd]
            simpa [ReleasesReads, releasesReads, hsq, hwait] using hv
          refine .inr ⟨⟨wr'.wrId, status, wr'.opcode.wc, 0⟩, by simp, hid, ?_, hst⟩
          simp [hop, IbvWrOpcode.wc]
        · exact .inl ⟨wr', by simpa using hw', hid, hop⟩
      · exact .inr ⟨wc, by simp [hw'], hwc⟩
    · exact hq.congr (by simp [hct])

/-- The handler of a completion finishes the read, or leaves its completion in the queue. -/
theorem served_dispatch {s : Transfer} {t u p : ℕ} {wc : IbvWc} {rest : List IbvWc}
    (h : Served s t p) (hcq : (s.node.qp u).cq = wc :: rest) :
    Served { s with node := dispatchWc (s.node.setQp u { s.node.qp u with cq := rest }) wc } t p := by
  obtain ⟨hfqp, hfnext, hftrans, -⟩ :=
    dispatchWc_frame (s.node.setQp u { s.node.qp u with cq := rest }) wc
  refine ⟨by simpa [hfnext] using h.task, by simpa [hftrans] using h.trans, fun hd => ?_⟩
  have hd' : (s.node.task p).type ≠ .done := by
    rcases dispatchWc_cases (s.node.setQp u { s.node.qp u with cq := rest }) wc with
      he | ⟨-, -, he⟩ | ⟨-, -, he⟩ <;> simp only [he] at hd
    · exact hd
    · exact hd
    · by_cases hp : p = wc.wrId
      · simp [hp] at hd
      · simpa [hp] using hd
  obtain ⟨hr, hreg, hq⟩ := h.live hd'
  refine ⟨hr, ?_, ?_⟩
  · rw [hfqp]
    by_cases htu : t = u
    · subst htu; simpa using hreg
    · simpa [htu] using hreg
  · by_cases htu : t = u
    · subst htu
      unfold Queued
      rw [hfqp]
      rcases hq with ⟨wr, hw, hwr⟩ | ⟨wc', hw, hid, hop, hst⟩
      · exact .inl ⟨wr, by simpa using hw, hwr⟩
      · rw [hcq, List.mem_cons] at hw
        rcases hw with rfl | hw
        · -- it is handled now, and the task is done
          refine absurd ?_ hd
          simp [dispatchWc_read hst hop, hid]
        · exact .inr ⟨wc', by simpa using hw, hid, hop, hst⟩
    · exact hq.congr (by rw [hfqp]; simp [htu])

theorem waitInv_cm {s s' : Transfer} {t : ℕ} {e : CmEvent} (hi : WaitInv s)
    (hv : ReleasesReads s (.cm t e)) (h : s.step (.cm t e) = some s') : WaitInv s' := by
  obtain ⟨hroute, rfl⟩ := cmStep_some h
  obtain ⟨hn, htable⟩ := hmpHandleEcEvent_table t e hi.table
  refine ⟨htable, fun c hc => (hi.checking c hc).trans_le hn, fun c p hw => ?_⟩
  have happ : s.app = .waiting c p := hw
  have hs := hi.waiting c p happ
  by_cases hd : (s.node.task p).type = .done
  · have ha := hmpHandleEcEvent_adds s.node t e
    refine ⟨hs.task.trans_le ha.nextTask, hs.trans.trans_le hn, fun hnd => ?_⟩
    rw [ha.task p hs.task] at hnd
    exact absurd hd hnd
  · obtain ⟨-, -, hq⟩ := hs.live hd
    refine hs.grows (hmpHandleEcEvent_grows s.node t e hs.trans.ne ?_ ?_) hn rfl
    · rintro hr rfl
      exact hq.ne_default (hroute hr)
    · rintro rfl rfl
      have hnone : s.waitsOn = none := by
        simpa [ReleasesReads, releasesReads, happ] using hv
      rw [waitsOn_waiting happ, if_neg hd] at hnone
      exact absurd hnone (by simp)

theorem waitInv_step {s s' : Transfer} {e : TransferEvent} (hi : WaitInv s)
    (hv : ReleasesReads s e) (h : s.step e = some s') : WaitInv s' := by
  cases e with
  | call op localAddr hmAddr length => exact waitInv_call hi h
  | check o => exact waitInv_check hi hv h
  | ret =>
    obtain ⟨c, p, -, -, rfl⟩ := retStep_some h
    exact ⟨hi.table, by simp, by simp⟩
  | complete t status => exact waitInv_complete hi hv h
  | recv t status bytes =>
    obtain ⟨wr, rest, hrq, rfl⟩ := recvStep_some h
    refine ⟨hi.table, hi.checking, fun c p hw => ?_⟩
    have hs := hi.waiting c p hw
    refine ⟨hs.task, hs.trans, fun hd => ?_⟩
    obtain ⟨hr, hreg, hq⟩ := hs.live hd
    by_cases hct : c.t = t
    · subst hct
      refine ⟨hr, by simpa using hreg, ?_⟩
      rcases hq with ⟨wr', hw', hwr⟩ | ⟨wc, hw', hwc⟩
      · exact .inl ⟨wr', by simpa using hw', hwr⟩
      · exact .inr ⟨wc, by simp [hw'], hwc⟩
    · exact ⟨hr, by simpa [hct] using hreg, hq.congr (by simp [hct])⟩
  | poll t =>
    obtain ⟨wc, rest, hcq, -, -, rfl⟩ := pollStep_some h
    obtain ⟨-, -, hftrans, hftable, -⟩ :=
      dispatchWc_frame (s.node.setQp t { s.node.qp t with cq := rest }) wc
    exact ⟨hi.table.congr hftable hftrans, fun c hc => by simpa [hftrans] using hi.checking c hc,
      fun c p hw => served_dispatch (hi.waiting c p hw) hcq⟩
  | cm t e => exact waitInv_cm hi hv h
  | loopExit =>
    obtain ⟨-, hs⟩ := Option.ite_none_right_eq_some.mp h
    obtain rfl := Option.some.inj hs
    refine ⟨hi.table, hi.checking, fun c p hw => ?_⟩
    have happ : s.app = .waiting c p := hw
    have hserved := hi.waiting c p happ
    refine ⟨hserved.task, hserved.trans, fun hd => ?_⟩
    have hnone : s.waitsOn = none := by simpa [ReleasesReads, releasesReads] using hv
    rw [waitsOn_waiting happ, if_neg hd] at hnone
    exact absurd hnone (by simp)
  | store addr bytes =>
    obtain rfl := Option.some.inj h
    exact hi.congr rfl rfl rfl rfl (.same rfl rfl) rfl
  | storeRemote j addr bytes =>
    obtain rfl := Option.some.inj h
    exact hi.congr rfl rfl rfl rfl (.same rfl rfl) rfl

/-- Node 0 reads 64 bytes at address 4096 of node 1 into its own pool. -/
def sampleRead : TransferEvent :=
  .call .read 4416 (hmpGetHybridMempoolAddr 1 + BitVec.ofNat 64 4096) 64

instance (s : Transfer) (e : TransferEvent) : Decidable (ReleasesReads s e) :=
  inferInstanceAs (Decidable (s.releasesReads e = true))

/-- Nothing is left for the adapter and the event thread where all queues are empty. -/
theorem stuck_of_empty {s : Transfer} (hq : ∀ t, (s.node.qp t).sq = [] ∧ (s.node.qp t).cq = [])
    (hs : s.node.stop = false) : sys.Stuck Background s := by
  intro e he
  cases e with
  | complete t status => simp [sys, step, completeStep, (hq t).1]
  | poll t => simp [sys, step, pollStep, (hq t).2]
  | loopExit => simp [sys, step, hs]
  | _ => exact he.elim

end HMP.Transfer
