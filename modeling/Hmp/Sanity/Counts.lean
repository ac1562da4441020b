import Hmp.Sanity.Steady

/-! How many messages an end of a connection has under way: in its send queue, among its completions,
in the hands of the event thread, and handled. -/

namespace HMP

namespace VerbsQp

/-- Messages that the adapter has yet to send. -/
def sends (q : VerbsQp) : ℕ := q.sq.countP fun wr => wr.opcode = .send

/-- Messages that the event thread has yet to take. -/
def arrived (q : VerbsQp) : ℕ := q.cq.countP fun wc => wc.opcode = .recv ∧ wc.status = .success

end VerbsQp

/-- `hmp_node_init` has neither exited nor is it at a place that it never comes to. -/
def MainPc.goesOn : MainPc → Prop
  | .exited | .connect _ _ (.returned _) => False
  | _ => True

namespace LoopPc

/-- The event thread has a message of transport `u` in hand. -/
def handles : LoopPc → ℕ → ℕ
  | .mr t _ _, u => if t = u then 1 else 0
  | _, _ => 0

/-- The request of connection `c` waits for `rdma_accept`, with transport `u`. -/
def replies : LoopPc → ℕ → ℕ → Prop
  | .storing d t, c, u | .accepting d t, c, u => d = c ∧ t = u
  | _, _, _ => False

/-- The event thread answers a request with transport `u`. -/
def answers : LoopPc → ℕ → Prop
  | .storing _ t, u | .accepting _ t, u | .connecting t, u => t = u
  | _, _ => False

end LoopPc

namespace Node

/-- Messages that have come in on transport `t`. -/
def got (nd : Node) (l : LoopPc) (t : ℕ) : ℕ :=
  (nd.qp t).arrived + l.handles t + if (nd.trans t).transState = .connected then 1 else 0

/-- Transport `t` has as much under way as before. -/
structure SameEnd (nd : Node) (l : LoopPc) (nd' : Node) (l' : LoopPc) (t : ℕ) : Prop where
  cmId : (nd'.trans t).cmId = (nd.trans t).cmId
  live : (nd'.qp t).live = (nd.qp t).live
  rq : (nd'.qp t).rq.length = (nd.qp t).rq.length
  sends : (nd'.qp t).sends = (nd.qp t).sends
  got : nd'.got l' t = nd.got l t

theorem SameEnd.refl (nd : Node) (l : LoopPc) (t : ℕ) : nd.SameEnd l nd l t :=
  ⟨rfl, rfl, rfl, rfl, rfl⟩

theorem SameEnd.of_qp {nd nd' : Node} {l l' : LoopPc} {t : ℕ}
    (hc : (nd'.trans t).cmId = (nd.trans t).cmId) (hq : nd'.qp t = nd.qp t)
    (hs : (nd'.trans t).transState = .connected ↔ (nd.trans t).transState = .connected)
    (hl : l'.handles t = l.handles t) : nd.SameEnd l nd' l' t :=
  ⟨hc, by rw [hq], by rw [hq], by rw [hq], by simp only [Node.got, hq, hl, hs]⟩

/-- What a step leaves of the process beside its transports and its message area. -/
structure SameSite (nd nd' : Node) : Prop where
  stop : nd'.stop = nd.stop
  devList : nd'.devList = nd.devList
  listenState : nd'.listenState = nd.listenState
  port : ∀ k, (nd'.config.nodeInfos k).port = (nd.config.nodeInfos k).port

theorem SameSite.of_eq {nd nd' : Node} (hs : nd'.stop = nd.stop) (hd : nd'.devList = nd.devList)
    (hl : nd'.listenState = nd.listenState) (hc : nd'.config = nd.config) : nd.SameSite nd' :=
  ⟨hs, hd, hl, fun k => by rw [hc]⟩

theorem SameSite.trans {nd nd₁ nd₂ : Node} (h₁ : nd.SameSite nd₁) (h₂ : nd₁.SameSite nd₂) :
    nd.SameSite nd₂ :=
  ⟨h₂.stop.trans h₁.stop, h₂.devList.trans h₁.devList, h₂.listenState.trans h₁.listenState,
    fun k => (h₂.port k).trans (h₁.port k)⟩

/-- New values in the entry of a node that keep its port. -/
theorem SameSite.setInfo (nd : Node) (k : ℕ) {x : HmpNodeInfo}
    (h : x.port = (nd.config.nodeInfos k).port) : nd.SameSite (nd.setInfo k x) := by
  refine ⟨rfl, rfl, rfl, fun j => ?_⟩
  by_cases hj : j = k
  · subst hj
    simpa using h
  · simp [hj]

end Node

open Node

theorem hmpPostRecv_site (nd : Node) (t : ℕ) (o : PostOutcome) :
    nd.SameSite (hmpPostRecv nd t o) := by
  unfold hmpPostRecv
  split_ifs <;> exact .of_eq rfl rfl rfl rfl

theorem hmpPrePostRecv_site (nd : Node) (t : ℕ) (o₁ o₂ : PostOutcome) :
    nd.SameSite (hmpPrePostRecv nd t o₁ o₂) :=
  (hmpPostRecv_site nd t o₁).trans (hmpPostRecv_site _ t o₂)

theorem hmpPostSend_site (nd : Node) (t : ℕ) (msg : HmpMsg) (o : PostOutcome) :
    nd.SameSite (hmpPostSend nd t msg o) := by
  unfold hmpPostSend
  split_ifs <;> exact .of_eq rfl rfl rfl rfl

theorem requestRegister_site (nd : Node) (t : ℕ) (addr : String) :
    nd.SameSite (requestRegister nd t addr) := by
  unfold requestRegister
  split <;> exact .of_eq rfl rfl rfl rfl

theorem mrStmt_site (nd : Node) (t data : ℕ) (stmt : MrStmt) :
    nd.SameSite (stmt.exec nd t data) := by
  cases stmt with
  | state => exact .of_eq rfl rfl rfl rfl
  | _ => exact .setInfo nd _ rfl

theorem rdmaPostOf_site (nd : Node) (t : ℕ) (op : TransferOp) (localAddr remoteAddr : ℕ)
    (length : ℤ) (o : PostOutcome) :
    nd.SameSite (Cluster.rdmaPostOf op nd t localAddr remoteAddr length o).1 := by
  cases op <;> simp only [Cluster.rdmaPostOf, hmpRdmaReadPost, hmpRdmaWritePost, rdmaPost] <;>
    split_ifs <;> exact .of_eq rfl rfl rfl rfl

theorem rdmaPostOf_other (nd : Node) {t u : ℕ} (op : TransferOp) (localAddr remoteAddr : ℕ)
    (length : ℤ) (o : PostOutcome) (h : u ≠ t) :
    (Cluster.rdmaPostOf op nd t localAddr remoteAddr length o).1.qp u = nd.qp u := by
  cases op <;> simp only [Cluster.rdmaPostOf, hmpRdmaReadPost, hmpRdmaWritePost, rdmaPost] <;>
    split_ifs <;> first | rfl | exact Function.update_of_ne h ..

theorem rdmaPostOf_live (nd : Node) (t : ℕ) (op : TransferOp) (localAddr remoteAddr : ℕ)
    (length : ℤ) (o : PostOutcome) :
    ((Cluster.rdmaPostOf op nd t localAddr remoteAddr length o).1.qp t).live = (nd.qp t).live := by
  cases op <;> simp only [Cluster.rdmaPostOf, hmpRdmaReadPost, hmpRdmaWritePost, rdmaPost] <;>
    split_ifs <;> first | rfl | rw [Node.setQp_qp, Function.update_self]; rfl

theorem peerStmt_site (nd : Node) (k t : ℕ) (stmt : PeerStmt) : nd.SameSite (stmt.exec nd k t) := by
  cases stmt <;> exact .of_eq rfl rfl rfl rfl

theorem hmpMemInit_site (nd : Node) (pool : HmpMempool) : nd.SameSite (hmpMemInit nd pool) :=
  .trans (.setInfo nd nd.config.curnodeId (by rfl)) (.of_eq rfl rfl rfl rfl)

/-! ## Receives and sends -/

theorem hmpPostRecv_other (nd : Node) {t u : ℕ} (o : PostOutcome) (h : u ≠ t) :
    (hmpPostRecv nd t o).qp u = nd.qp u := by
  rw [hmpPostRecv_qp]
  split_ifs
  · exact Function.update_of_ne h ..
  · rfl

theorem hmpPostSend_other (nd : Node) {t u : ℕ} (msg : HmpMsg) (o : PostOutcome) (h : u ≠ t) :
    (hmpPostSend nd t msg o).qp u = nd.qp u := by
  rw [hmpPostSend_qp]
  split_ifs
  · exact Function.update_of_ne h ..
  · rfl

/-- A receive is one more entry of the receive queue. -/
theorem hmpPostRecv_counts (nd : Node) (t : ℕ) {o : PostOutcome} (h : o.posted = true) :
    ((hmpPostRecv nd t o).qp t).live = (nd.qp t).live ∧
      ((hmpPostRecv nd t o).qp t).rq.length = (nd.qp t).rq.length + 1 ∧
      ((hmpPostRecv nd t o).qp t).sq = (nd.qp t).sq ∧
      ((hmpPostRecv nd t o).qp t).cq = (nd.qp t).cq := by
  rw [hmpPostRecv_qp, if_pos (o.posted_iff.mp h), Function.update_self]
  exact ⟨rfl, List.length_append, rfl, rfl⟩

theorem hmpPrePostRecv_counts (nd : Node) (t : ℕ) {o₁ o₂ : PostOutcome} (h₁ : o₁.posted = true)
    (h₂ : o₂.posted = true) :
    ((hmpPrePostRecv nd t o₁ o₂).qp t).live = (nd.qp t).live ∧
      ((hmpPrePostRecv nd t o₁ o₂).qp t).rq.length = (nd.qp t).rq.length + 2 ∧
      ((hmpPrePostRecv nd t o₁ o₂).qp t).sq = (nd.qp t).sq ∧
      ((hmpPrePostRecv nd t o₁ o₂).qp t).cq = (nd.qp t).cq := by
  obtain ⟨hl₁, hr₁, hs₁, hc₁⟩ := hmpPostRecv_counts nd t h₁
  obtain ⟨hl₂, hr₂, hs₂, hc₂⟩ := hmpPostRecv_counts (hmpPostRecv nd t o₁) t h₂
  exact ⟨hl₂.trans hl₁, by rw [hmpPrePostRecv, hr₂, hr₁], hs₂.trans hs₁, hc₂.trans hc₁⟩

theorem hmpPrePostRecv_other (nd : Node) {t u : ℕ} (o₁ o₂ : PostOutcome) (h : u ≠ t) :
    (hmpPrePostRecv nd t o₁ o₂).qp u = nd.qp u := by
  rw [hmpPrePostRecv, hmpPostRecv_other _ _ h, hmpPostRecv_other _ _ h]

/-- A receive has room for a whole slot. -/
theorem hmpPostRecv_room (nd : Node) (t : ℕ) (o : PostOutcome) {u : ℕ} {wr : IbvRecvWr}
    (h : wr ∈ ((hmpPostRecv nd t o).qp u).rq) :
    wr ∈ (nd.qp u).rq ∨ wr.sge.length = HMP_TASK_SIZE := by
  by_cases hut : u = t
  · subst hut
    rw [hmpPostRecv_rq, List.mem_append] at h
    refine h.imp_right fun h => ?_
    split_ifs at h
    · rw [List.mem_singleton.mp h]
    · exact absurd h List.not_mem_nil
  · rw [hmpPostRecv_other nd o hut] at h
    exact .inl h

theorem hmpPrePostRecv_room (nd : Node) (t : ℕ) (o₁ o₂ : PostOutcome) {u : ℕ} {wr : IbvRecvWr}
    (h : wr ∈ ((hmpPrePostRecv nd t o₁ o₂).qp u).rq) :
    wr ∈ (nd.qp u).rq ∨ wr.sge.length = HMP_TASK_SIZE :=
  (hmpPostRecv_room _ t o₂ h).elim (hmpPostRecv_room nd t o₁) .inr

/-- A send is one more message of the send queue. -/
theorem hmpPostSend_counts (nd : Node) (t : ℕ) (msg : HmpMsg) {o : PostOutcome}
    (h : o.posted = true) :
    ((hmpPostSend nd t msg o).qp t).live = (nd.qp t).live ∧
      ((hmpPostSend nd t msg o).qp t).rq = (nd.qp t).rq ∧
      ((hmpPostSend nd t msg o).qp t).sq.length = (nd.qp t).sq.length + 1 ∧
      ((hmpPostSend nd t msg o).qp t).sends = (nd.qp t).sends + 1 ∧
      ((hmpPostSend nd t msg o).qp t).cq = (nd.qp t).cq := by
  rw [hmpPostSend_qp, if_pos (o.posted_iff.mp h), Function.update_self]
  refine ⟨rfl, rfl, List.length_append, ?_, rfl⟩
  simp [VerbsQp.sends]

end HMP
