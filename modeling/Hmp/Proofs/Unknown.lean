import Hmp.Proofs.Overlay

/-! A connection request from an unknown address is without consequences exactly if the handler
fails before it accepts it. -/

namespace HMP

namespace Transfer

variable {b b' : Transfer} {x : Extra} {e : TransferEvent}

def overlay (b : Transfer) (x : Extra) : Transfer := { b with node := b.node.overlay x }

@[simp] theorem overlay_app : (b.overlay x).app = b.app := rfl

@[simp] theorem overlay_running : (b.overlay x).running = b.running := rfl

/-- The run refers to nothing of `x`. -/
structure Apart (b : Transfer) (x : Extra) : Prop where
  trans : x.t < b.node.nextTrans
  task : x.p₁ ≤ b.node.nextTask
  table : ∀ k, b.node.connectTrans k ≠ some x.t
  call : ∀ c, b.app = .checking c → c.t ≠ x.t
  wait : ∀ c p, b.app = .waiting c p → x.Outside p
  names : ∀ u ≠ x.t, ∀ p, b.node.Mentions u p → x.Outside p ∧ b.node.Owns u p

theorem Apart.step (h : Apart b x) (hs : b.step e = some b') : Apart b' x := by
  have hg := step_refsGrow hs
  refine ⟨h.trans.trans_le hg.nextTrans, h.task.trans hg.tasks.nextTask, fun k hk => ?_,
    fun c hc => ?_, fun c p hw => ?_, fun u hu p hm => ?_⟩
  · rcases hg.table k x.t hk with hk | ⟨hk, -⟩
    · exact h.table k hk
    · exact absurd h.trans hk.not_gt
  · rcases hg.call c hc with hc | ⟨k, hc⟩
    · exact h.call c hc
    · rintro he
      exact h.table k (he ▸ hc)
  · rcases hg.wait c p hw with hw | ⟨hw, -⟩
    · exact h.wait c p hw
    · exact .inr (h.task.trans hw)
  · rcases hg.names u p hm with hm | hn
    · obtain ⟨hout, hown⟩ := h.names u hu p hm
      exact ⟨hout, hg.tasks.owns hown⟩
    · exact ⟨.inr (h.task.trans hn.1), hn.2⟩

/-! ## The steps of the run without the transport -/

theorem callStep_overlay (op : TransferOp) (localAddr : ℕ) (hmAddr : BitVec 64) (length : ℤ) :
    (b.overlay x).callStep op localAddr hmAddr length =
      (b.callStep op localAddr hmAddr length).map (overlay · x) := by
  have hacc : access (b.node.overlay x) op localAddr hmAddr length =
      access b.node op localAddr hmAddr length := by
    cases op <;> rfl
  unfold callStep
  rw [overlay_app]
  by_cases happ : b.app = .idle
  · rw [if_pos happ, if_pos happ]
    change (hmpGetHmNodeId b.node.config.nodeCnt hmAddr).bind _ = _
    cases hmpGetHmNodeId b.node.config.nodeCnt hmAddr with
    | none => rfl
    | some r =>
      change (access (b.node.overlay x) op localAddr hmAddr length).map _ = _
      rw [hacc]
      dsimp only [Option.bind_some]
      cases access b.node op localAddr hmAddr length with
      | none => rfl
      | some acc => cases acc <;> rfl
  · rw [if_neg happ, if_neg happ]
    rfl

theorem checkStep_overlay (h : Apart b x) (o : PostOutcome) :
    (b.overlay x).checkStep o = (b.checkStep o).map (overlay · x) := by
  unfold checkStep
  rw [overlay_app]
  cases happ : b.app with
  | idle => rfl
  | waiting c p => rfl
  | checking c =>
    have hc := h.call c happ
    have hread := hmpRdmaReadPost_overlay hc h.task c.localAddr c.addr c.length o
    have hwrite := hmpRdmaWritePost_overlay hc h.task c.localAddr c.addr c.length o
    dsimp only
    change (hmpTransportCheckState ((b.node.overlay x).trans c.t).transState).map _ = _
    rw [Node.overlay_trans b.node x hc, Option.map_map]
    congr 1
    funext ret
    dsimp only [Function.comp]
    by_cases hret : ret = -1
    · rw [if_pos hret, if_pos hret]
      rfl
    · rw [if_neg hret, if_neg hret]
      cases c.op with
      | read =>
        dsimp only [overlay]
        rw [hread]
      | write =>
        dsimp only [overlay]
        rw [hwrite]
        rfl

theorem retStep_overlay (h : Apart b x) :
    (b.overlay x).retStep = b.retStep.map (overlay · x) := by
  unfold retStep
  rw [overlay_app]
  cases happ : b.app with
  | idle => rfl
  | checking c => rfl
  | waiting c p =>
    dsimp only
    rw [show (b.overlay x).node.task p = b.node.task p from
      Node.overlay_task b.node x (h.wait c p happ)]
    split_ifs <;> rfl

theorem transferData_overlay (t : ℕ) (wr : IbvSendWr) :
    (b.overlay x).transferData t wr = (b.transferData t wr).overlay x := by
  unfold transferData
  cases wr.opcode <;> rfl

theorem completeStep_overlay {t : ℕ} (ht : t ≠ x.t) (status : IbvWcStatus) :
    (b.overlay x).completeStep t status = (b.completeStep t status).map (overlay · x) := by
  have hq : (b.overlay x).node.qp t = b.node.qp t := Node.overlay_qp b.node x ht
  unfold completeStep
  dsimp only
  rw [hq]
  cases (b.node.qp t).sq with
  | nil => rfl
  | cons wr rest =>
    dsimp only
    rw [transferData_overlay]
    split_ifs
    · exact congrArg some (congrArg (fun nd => { b.transferData t wr with node := nd })
        (Node.overlay_setQp (b.transferData t wr).node x ht _))
    · exact congrArg some (congrArg (fun nd => { b with node := nd })
        (Node.overlay_setQp b.node x ht _))

theorem recvStep_overlay {t : ℕ} (ht : t ≠ x.t) (status : IbvWcStatus) (bytes : List UInt8) :
    (b.overlay x).recvStep t status bytes = (b.recvStep t status bytes).map (overlay · x) := by
  have hq : (b.overlay x).node.qp t = b.node.qp t := Node.overlay_qp b.node x ht
  unfold recvStep
  dsimp only
  rw [hq]
  cases (b.node.qp t).rq with
  | nil => rfl
  | cons wr rest =>
    dsimp only
    split_ifs
    · exact congrArg some (congrArg
        (fun nd => { b with node := { nd with mem := b.node.mem.write wr.sge.addr bytes } })
        (Node.overlay_setQp b.node x ht _))
    · rfl

theorem pollStep_overlay (h : Apart b x) {t : ℕ} (ht : t ≠ x.t) :
    (b.overlay x).pollStep t = (b.pollStep t).map (overlay · x) := by
  have hq : (b.overlay x).node.qp t = b.node.qp t := Node.overlay_qp b.node x ht
  unfold pollStep
  dsimp only
  rw [hq]
  cases hcq : (b.node.qp t).cq with
  | nil => rfl
  | cons wc rest =>
    obtain ⟨hout, hown⟩ := h.names t ht wc.wrId (.inr (.inr ⟨wc, by simp [hcq], rfl⟩))
    have hd : dispatchWc ((b.node.overlay x).setQp t { b.node.qp t with cq := rest }) wc =
        (dispatchWc (b.node.setQp t { b.node.qp t with cq := rest }) wc).overlay x := by
      rw [Node.overlay_setQp b.node x ht]
      exact dispatchWc_overlay hout (fun he => ht (hown.2.symm.trans he))
    dsimp only
    rw [overlay_running]
    split_ifs
    · exact congrArg some (congrArg (fun nd => { b with node := nd }) hd)
    · rfl

theorem cmStep_overlay (h : Apart b x) {t : ℕ} (ht : t ≠ x.t) (e : CmEvent) :
    (b.overlay x).cmStep t e = (b.cmStep t e).map (overlay · x) := by
  have hq : (b.overlay x).node.qp t = b.node.qp t := Node.overlay_qp b.node x ht
  have he : (hmpHandleEcEvent (b.node.overlay x) t e).1 =
      (hmpHandleEcEvent b.node t e).1.overlay x :=
    hmpHandleEcEvent_overlay ht h.trans.ne' h.task e
  unfold cmStep
  rw [hq, overlay_running]
  split_ifs
  · exact congrArg some (congrArg (fun nd => { b with node := nd }) he)
  · rfl

/-- A step that is not about the transport is the same step of the run without it. -/
theorem step_overlay (h : Apart b x) (he : e.trans ≠ some x.t) :
    (b.overlay x).step e = (b.step e).map (overlay · x) := by
  cases e with
  | call op localAddr hmAddr length => exact callStep_overlay op localAddr hmAddr length
  | check o => exact checkStep_overlay h o
  | ret => exact retStep_overlay h
  | complete t status => exact completeStep_overlay (fun ht => he (congrArg some ht)) status
  | recv t status bytes => exact recvStep_overlay (fun ht => he (congrArg some ht)) status bytes
  | poll t => exact pollStep_overlay h fun ht => he (congrArg some ht)
  | cm t e => exact cmStep_overlay h (fun ht => he (congrArg some ht)) e
  | loopExit =>
    change (if b.node.stop ∧ b.running then some _ else none) = Option.map _ (if _ then _ else _)
    split_ifs <;> rfl
  | store addr bytes | storeRemote j addr bytes => rfl

end Transfer

namespace Twin

variable {s s' : Twin} {x : Extra} {e : TransferEvent} {pool : HmpMempool}

/-! ## A connection that has not been accepted -/

/-- Of the request, only the transport is left, whose receives lie in the pool. -/
structure Ghost (pool : HmpMempool) (s : Twin) (x : Extra) : Prop where
  t : s.t = some x.t
  accepted : s.accepted = false
  real : s.real = s.without.overlay x
  apart : s.without.Apart x
  mempool : s.without.node.dramMempool = some pool
  rq : ∀ wr ∈ x.qp.rq, Transfer.InPool pool wr.sge.addr wr.sge.length
  sq : x.qp.sq = []
  cq : ∀ wc ∈ x.qp.cq, wc.status ≠ .success

theorem step_some (h : s.step e = some s') :
    ∃ real, s.real.step e = some real ∧ s' = { s with
      real := real
      without := if s.OnIt e then s.without else (s.without.step e).getD s.without } := by
  obtain ⟨real, hr, he⟩ := Option.map_eq_some_iff.mp h
  exact ⟨real, hr, he.symm⟩

theorem Ghost.onIt_iff (h : Ghost pool s x) : s.OnIt e ↔ e.trans = some x.t := by
  simp [OnIt, h.t]

/-- The steps of other connections go on in both runs. -/
theorem Ghost.other (h : Ghost pool s x) (he : ¬ s.OnIt e) (hs : s.step e = some s') :
    Ghost pool s' x := by
  obtain ⟨real, hr, rfl⟩ := step_some hs
  rw [h.real, Transfer.step_overlay h.apart (fun ht => he (h.onIt_iff.mpr ht))] at hr
  obtain ⟨b, hb, rfl⟩ := Option.map_eq_some_iff.mp hr
  have hw : (if s.OnIt e then s.without else (s.without.step e).getD s.without) = b := by
    rw [if_neg he, hb, Option.getD_some]
  rw [hw]
  exact ⟨h.t, h.accepted, rfl, h.apart.step hb, (Transfer.step_refsGrow hb).pool.trans h.mempool,
    h.rq, h.sq, h.cq⟩

/-- A flush moves receives of the transport to its completion queue, and its handler only logs. -/
theorem Ghost.flush (h : Ghost pool s x) (he : s.OnIt e) (hf : e.Flushes)
    (hs : s.step e = some s') : ∃ q, Ghost pool s' { x with qp := q } := by
  have htrans := h.onIt_iff.mp he
  obtain ⟨real, hr, rfl⟩ := step_some hs
  rw [h.real] at hr
  rw [if_pos he]
  have hq : (s.without.overlay x).node.qp x.t = x.qp := Function.update_self ..
  have hset : ∀ q, (s.without.overlay x).node.setQp x.t q =
      s.without.node.overlay { x with qp := q } := by
    intro q
    simp only [Transfer.overlay, Node.overlay, Node.setQp, Function.update_idem]
  have hapart : ∀ q, s.without.Apart { x with qp := q } := fun q =>
    ⟨h.apart.trans, h.apart.task, h.apart.table, h.apart.call, h.apart.wait, h.apart.names⟩
  cases e with
  | recv t status bytes =>
    obtain rfl : t = x.t := Option.some.inj htrans
    have hb : bytes = [] := (Transfer.recvStep_bytes hr).resolve_left hf
    subst hb
    obtain ⟨wr, rest, hrq, rfl⟩ := Transfer.recvStep_some hr
    rw [hq] at hrq
    refine ⟨{ x.qp with
        rq := rest
        cq := x.qp.cq ++ [{ wrId := wr.wrId, status := status, opcode := .recv }] },
      h.t, h.accepted, ?_, hapart _, h.mempool, fun w hw => h.rq w (by simp [hrq, hw]), h.sq,
      fun w hw => ?_⟩
    · rw [hq, hset, Mem.write_nil]
      rfl
    · rcases List.mem_append.mp hw with hw | hw
      · exact h.cq w hw
      · obtain rfl := List.mem_singleton.mp hw
        exact hf
  | poll t =>
    obtain rfl : t = x.t := Option.some.inj htrans
    obtain ⟨wc, rest, hcq, -, -, rfl⟩ := Transfer.pollStep_some hr
    rw [hq] at hcq
    have hwc : wc.status ≠ .success := h.cq wc (by simp [hcq])
    refine ⟨{ x.qp with cq := rest }, h.t, h.accepted, ?_, hapart _, h.mempool, h.rq, h.sq,
      fun w hw => h.cq w (by simp [hcq, hw])⟩
    rw [dispatchWc, if_neg hwc, hmpWcErrorHandler, hq, hset]
    rfl
  | call | check | ret | complete | cm | loopExit | store | storeRemote => exact hf.elim

/-- No transport has been created, or what has been created is a ghost. -/
def Inv (pool : HmpMempool) (s : Twin) : Prop :=
  s.t = none ∧ s.real = s.without ∨ ∃ x, Ghost pool s x

theorem inv_step (h : Inv pool s) (hok : Connected s e) (hs : s.step e = some s') :
    Inv pool s' := by
  rcases h with ⟨ht, hreal⟩ | ⟨x, hx⟩
  · left
    have hno : ¬ s.OnIt e := by simp [OnIt, ht]
    obtain ⟨real, hr, rfl⟩ := step_some hs
    rw [hreal] at hr
    exact ⟨ht, by rw [if_neg hno, hr, Option.getD_some]⟩
  · right
    by_cases he : s.OnIt e
    · have hf := (hok he).resolve_left (by simp [hx.accepted])
      obtain ⟨q, hq⟩ := hx.flush he hf hs
      exact ⟨_, hq⟩
    · exact ⟨x, hx.other he hs⟩

theorem Inv.unaffected (h : Inv pool s) : Unaffected s := by
  rcases h with ⟨ht, hreal⟩ | ⟨x, hx⟩
  · exact ⟨by rw [hreal], by rw [hreal], fun t h => absurd h (by simp [ht]),
      fun pool hp y hy => by rw [hreal]⟩
  · refine ⟨by rw [hx.real]; rfl, by rw [hx.real]; rfl, fun t ht => ?_,
      fun pool hp y hy => by rw [hx.real]; rfl⟩
    obtain rfl : t = x.t := Option.some.inj (ht.symm.trans hx.t)
    intro pool' hp
    have hqp : s.real.node.qp x.t = x.qp := by
      rw [hx.real]
      exact Function.update_self ..
    have hpool : s.real.node.dramMempool = some pool := by
      rw [hx.real]
      exact hx.mempool
    obtain rfl : pool' = pool := Option.some.inj (hp.symm.trans hpool)
    rw [hqp]
    exact ⟨hx.rq, fun wr hw => by simp [hx.sq] at hw⟩

/-! ## The handler of the request -/

/-- The two receives of a transport without a region. -/
theorem receives_iff {nd : Node} {t : ℕ} (o : RequestOutcome) (hrq : (nd.qp t).rq = [])
    (hregion : (nd.trans t).region = {}) (hp : nd.dramMempool = some pool) :
    (∀ wr ∈ ((hmpPrePostRecv nd t o.recv₁ o.recv₂).qp t).rq,
      Transfer.InPool pool wr.sge.addr wr.sge.length) ↔ ReceivesInPool nd o := by
  have h0 : ¬ Transfer.InPool pool 0 HMP_TASK_SIZE := fun h => absurd h.1 pool.base_pos.not_ge
  have hcur : ((hmpPostRecv nd t o.recv₁).trans t).region.recvAddr = 0 ∧
      ((hmpPostRecv nd t o.recv₁).trans t).region.curRecv = if o.recv₁.task then 1 else 0 := by
    rw [hmpPostRecv_trans]
    split_ifs <;> simp [hregion]
  rw [hmpPrePostRecv, hmpPostRecv_rq, hmpPostRecv_rq, hrq, hregion, hcur.1, hcur.2,
    List.forall_mem_append]
  unfold ReceivesInPool
  refine and_congr ?_ ?_
  · cases o.recv₁.posted <;> simp [h0]
  · cases o.recv₂.posted <;> cases o.recv₁.task <;> simp [h0, hp]

theorem onCmConnectRequest_givesUp {nd : Node} {o : RequestOutcome} (cm : CmId)
    (peerAddr : String) (h : GivesUp nd o) : onCmConnectRequest nd cm peerAddr o = (nd, -1) ∨
      onCmConnectRequest nd cm peerAddr o = (withRequest nd cm (hmpDeviceLookup nd o.verbs), -1) := by
  have hr := requestTransport_eq nd cm o
  by_cases hc : o.create = false
  · rw [if_pos hc] at hr
    left
    rw [onCmConnectRequest, hr]
  · rw [if_neg hc, if_pos (h.resolve_left hc)] at hr
    right
    rw [onCmConnectRequest, hr]

/-- The process behind the search that has found nothing and the two receives. -/
def searched (nd : Node) (cm : CmId) (o : RequestOutcome) : Node :=
  hmpPrePostRecv (withRequestQp nd cm o) nd.nextTrans o.recv₁ o.recv₂

theorem onCmConnectRequest_unknown {nd : Node} {peerAddr : String} {o : RequestOutcome} (cm : CmId)
    (hu : UnknownPeer nd peerAddr) (h : ¬ GivesUp nd o) : onCmConnectRequest nd cm peerAddr o =
      if o.accept ≠ 0 then (searched nd cm o, -1)
      else ((searched nd cm o).setState nd.nextTrans .connecting, 0) := by
  obtain ⟨hc, hrest⟩ := not_or.mp h
  have hr := requestTransport_eq nd cm o
  rw [if_neg hc, if_neg hrest] at hr
  have hreg : requestRegister (withRequestQp nd cm o) nd.nextTrans peerAddr = _ :=
    requestRegister_stranger _ hu
  rw [onCmConnectRequest, hr]
  dsimp only [requestAccept]
  rw [hreg]
  by_cases ha : o.accept = 0 <;> simp [ha, searched]

theorem searched_onlyAt (nd : Node) (cm : CmId) (o : RequestOutcome) :
    nd.OnlyAt (searched nd cm o) nd.nextTrans :=
  ((withRequest_onlyAt nd cm _).comp (setQp_onlyAt _ nd.nextTrans _)).comp
    (hmpPrePostRecv_onlyAt _ nd.nextTrans o.recv₁ o.recv₂)

theorem searched_nextTrans (nd : Node) (cm : CmId) (o : RequestOutcome) :
    (searched nd cm o).nextTrans = nd.nextTrans + 1 :=
  (hmpPrePostRecv_frame _ nd.nextTrans o.recv₁ o.recv₂).2.1

theorem searched_receives_iff {nd : Node} (cm : CmId) (o : RequestOutcome)
    (hp : nd.dramMempool = some pool) :
    (∀ wr ∈ ((searched nd cm o).qp nd.nextTrans).rq,
      Transfer.InPool pool wr.sge.addr wr.sge.length) ↔ ReceivesInPool nd o :=
  receives_iff o (by simp [withRequestQp]) (by simp [withRequestQp, withRequest]) hp

theorem searched_sends (nd : Node) (cm : CmId) (o : RequestOutcome) :
    ((searched nd cm o).qp nd.nextTrans).sq = [] ∧ ((searched nd cm o).qp nd.nextTrans).cq = [] := by
  rw [searched, (hmpPrePostRecv_grows ..).cq, hmpPrePostRecv, hmpPostRecv_sq, hmpPostRecv_sq]
  simp [withRequestQp]

/-- The request has created a transport that it does not enter into the table, and failed. -/
theorem ghost_start {s : Transfer} {cm : CmId} {peerAddr : String} {o : RequestOutcome} {nd : Node}
    (h : Transfer.Placed s) (hp : s.node.dramMempool = some pool)
    (hr : onCmConnectRequest s.node cm peerAddr o = (nd, -1))
    (hon : s.node.OnlyAt nd s.node.nextTrans) (hn : nd.nextTrans = s.node.nextTrans + 1)
    (hrq : ∀ wr ∈ (nd.qp s.node.nextTrans).rq, Transfer.InPool pool wr.sge.addr wr.sge.length)
    (hsq : (nd.qp s.node.nextTrans).sq = []) (hcq : (nd.qp s.node.nextTrans).cq = []) :
    Ghost pool (request s cm peerAddr o) ⟨s.node.nextTrans, nd.trans s.node.nextTrans,
      nd.qp s.node.nextTrans, s.node.nextTask, nd.nextTask, nd.task⟩ := by
  have hlt : s.node.nextTrans < nd.nextTrans := by omega
  have hreq : request s cm peerAddr o = {
      real := { s with node := nd }
      without := { s with node := { s.node with
        nextTrans := nd.nextTrans, nextTask := nd.nextTask } }
      t := some s.node.nextTrans, accepted := false } := by
    simp [request, hr, hlt]
  rw [hreq]
  refine ⟨rfl, rfl, congrArg (fun nd => { s with node := nd }) hon.overlay_eq, ?_, hp, hrq, hsq,
    fun wc hw => by simp [hcq] at hw⟩
  refine ⟨hlt, le_rfl, fun k hk => (h.table k _ hk).ne rfl, fun c hc => (h.call c hc).ne,
    fun c p hw => .inl (h.wait c p hw), fun u hu p hm => ?_⟩
  obtain ⟨hp, ht⟩ := h.names u p hm
  exact ⟨.inl hp, hp.trans_le hon.nextTask, ht⟩

section Request

variable {b : Transfer} {cm : CmId} {peerAddr : String} {o : RequestOutcome}

theorem inv_request (h : Transfer.Placed b) (hp : b.node.dramMempool = some pool)
    (hu : UnknownPeer b.node peerAddr)
    (hc : GivesUp b.node o ∨ o.accept ≠ 0 ∧ ReceivesInPool b.node o) :
    Inv pool (request b cm peerAddr o) := by
  by_cases hg : GivesUp b.node o
  · rcases onCmConnectRequest_givesUp cm peerAddr hg with hr | hr
    · exact .inl ⟨by simp [request, hr], by simp [request, hr]⟩
    · have hq := h.fresh b.node.nextTrans le_rfl
      exact .inr ⟨_, ghost_start h hp hr (withRequest_onlyAt ..) rfl (by simp [withRequest, hq])
        (by simp [withRequest, hq]) (by simp [withRequest, hq])⟩
  · obtain ⟨ha, hrecv⟩ := hc.resolve_left hg
    have hr := onCmConnectRequest_unknown cm hu hg
    rw [if_pos ha] at hr
    exact .inr ⟨_, ghost_start h hp hr (searched_onlyAt ..) (searched_nextTrans ..)
      ((searched_receives_iff cm o hp).mpr hrecv) (searched_sends ..).1 (searched_sends ..).2⟩

theorem accepted_iff (hu : UnknownPeer b.node peerAddr) :
    (request b cm peerAddr o).accepted = false ↔ GivesUp b.node o ∨ o.accept ≠ 0 := by
  by_cases hg : GivesUp b.node o
  · rcases onCmConnectRequest_givesUp cm peerAddr hg with hr | hr <;> simp [request, hr, hg]
  · have hr := onCmConnectRequest_unknown cm hu hg
    by_cases ha : o.accept = 0 <;> simp [request, hr, hg, ha]

/-- A request from an unknown address is rejected without a trace exactly if its handler fails
before the search, or at `rdma_accept` with no receive outside the pool. -/
theorem rejected_iff (h : Transfer.sys.Reach Transfer.OnExisting b)
    (hp : b.node.dramMempool = some pool) (hu : UnknownPeer b.node peerAddr) :
    Rejected b cm peerAddr o ↔
      GivesUp b.node o ∨ o.accept ≠ 0 ∧ ReceivesInPool b.node o := by
  have hplaced := Transfer.placed_reach h
  constructor
  · rintro ⟨hacc, hrun⟩
    by_cases hg : GivesUp b.node o
    · exact .inl hg
    · have ha := ((accepted_iff hu).mp hacc).resolve_left hg
      refine .inr ⟨ha, (searched_receives_iff cm o hp).mp ?_⟩
      have hr := onCmConnectRequest_unknown cm hu hg
      rw [if_pos ha] at hr
      have hn := searched_nextTrans b.node cm o
      -- what the handler has posted, before anything else happens
      have hposted := (hrun _ ⟨_, rfl, .nil⟩).posted b.node.nextTrans (by simp [request, hr, hn])
      have hreal : (request b cm peerAddr o).real.node = searched b.node cm o := by
        simp [request, hr]
      have hpool : (searched b.node cm o).dramMempool = some pool :=
        (hmpPrePostRecv_frame _ b.node.nextTrans o.recv₁ o.recv₂).2.2.2.trans hp
      rw [hreal] at hposted
      exact (hposted pool hpool).1
  · intro hc
    refine ⟨(accepted_iff hu).mpr (hc.imp_right And.left), fun x hx => ?_⟩
    obtain ⟨_, rfl, hrun⟩ := hx
    have hinv := hrun.keeps (I := Inv pool) (fun _ _ _ hi hok hs => inv_step hi hok hs)
      (inv_request hplaced hp hu hc)
    exact hinv.unaffected

end Request

/-- Node 1 of two, with a device, before anybody has connected. -/
def sampleListener : Transfer :=
  { node := { config := sampleConfig 1, dramMempool := some samplePool, devList := [⟨1, 1, {}⟩] }
    remote := fun _ _ => 0, far := fun _ => 0 }

theorem sampleListener_reach : Transfer.sys.Reach Transfer.OnExisting sampleListener :=
  ⟨_, ⟨rfl, rfl, fun _ _ h => absurd h (by simp [sampleListener]), fun _ _ => rfl,
    fun _ => Node.tasksOk_of_default rfl⟩, .nil⟩

theorem sampleListener_unknown : UnknownPeer sampleListener.node "192.168.31.190" := by
  intro i hi
  obtain rfl : i = 0 := Nat.lt_one_iff.mp hi
  decide

/-- A device that is not in the list. -/
theorem rejected_iff_no_device :
    Rejected sampleListener ⟨7, false⟩ "192.168.31.190" { verbs := 2 } :=
  (rejected_iff sampleListener_reach rfl sampleListener_unknown).mpr
    (.inl (.inr (.inl (by decide))))

/-- The request is accepted, and its two receives are posted at the addresses 0 and 40. -/
theorem unknown_peer_accepted :
    ((request sampleListener ⟨7, false⟩ "192.168.31.190" { verbs := 1 }).accepted = true ∧
      ((request sampleListener ⟨7, false⟩ "192.168.31.190" { verbs := 1 }).real.node.qp 0).rq.map
        (·.sge.addr) = [0, 40]) ∧
    ¬ ∀ b pool cm peerAddr o, Transfer.sys.Reach Transfer.OnExisting b →
      b.node.dramMempool = some pool → UnknownPeer b.node peerAddr → Rejected b cm peerAddr o := by
  refine ⟨⟨by decide, by decide⟩, fun h => ?_⟩
  have hr := (h sampleListener samplePool ⟨7, false⟩ "192.168.31.190" { verbs := 1 }
    sampleListener_reach rfl sampleListener_unknown).1
  exact absurd hr (by decide)

end Twin

end HMP
