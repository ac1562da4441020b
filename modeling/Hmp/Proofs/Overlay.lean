import Hmp.Sanity.Refs

/-! A transport that nothing refers to, with its queue pair and its tasks: the steps for other
transports go on over it as if it were not there. -/

namespace HMP

/-- Transport `t`, its queue pair, and the tasks from `p₀` to `p₁`. -/
structure Extra where
  t : ℕ
  trans : HmpTransport
  qp : VerbsQp
  p₀ : ℕ
  p₁ : ℕ
  task : ℕ → HmpTask

/-- The task is not one of those. -/
def Extra.Outside (x : Extra) (p : ℕ) : Prop := p < x.p₀ ∨ x.p₁ ≤ p

namespace Node

/-- The process with the transport in it. -/
def overlay (nd : Node) (x : Extra) : Node :=
  { nd with
    trans := Function.update nd.trans x.t x.trans
    qp := Function.update nd.qp x.t x.qp
    task := fun p => if x.p₀ ≤ p ∧ p < x.p₁ then x.task p else nd.task p }

variable (nd : Node) (x : Extra)

theorem overlay_trans {u : ℕ} (hu : u ≠ x.t) : (nd.overlay x).trans u = nd.trans u :=
  Function.update_of_ne hu ..

theorem overlay_qp {u : ℕ} (hu : u ≠ x.t) : (nd.overlay x).qp u = nd.qp u :=
  Function.update_of_ne hu ..

theorem overlay_task {p : ℕ} (hp : x.Outside p) : (nd.overlay x).task p = nd.task p :=
  if_neg fun h => by rcases hp with hp | hp <;> omega

theorem overlay_setTrans {u : ℕ} (hu : u ≠ x.t) (y : HmpTransport) :
    (nd.overlay x).setTrans u y = (nd.setTrans u y).overlay x := by
  simp only [overlay, setTrans, Function.update_comm hu]

theorem overlay_setQp {u : ℕ} (hu : u ≠ x.t) (q : VerbsQp) :
    (nd.overlay x).setQp u q = (nd.setQp u q).overlay x := by
  simp only [overlay, setQp, Function.update_comm hu]

theorem overlay_setTask {p : ℕ} (hp : x.Outside p) (y : HmpTask) :
    (nd.overlay x).setTask p y = (nd.setTask p y).overlay x := by
  simp only [overlay, setTask, Node.mk.injEq, true_and, and_true]
  funext q
  by_cases hq : q = p
  · subst hq
    rw [Function.update_self, Function.update_self, if_neg]
    rcases hp with hp | hp <;> omega
  · simp only [Function.update_of_ne hq]

theorem overlay_setState {u : ℕ} (hu : u ≠ x.t) (st : TransportState) :
    (nd.overlay x).setState u st = (nd.setState u st).overlay x := by
  rw [setState, overlay_trans nd x hu, overlay_setTrans nd x hu, setState]

theorem overlay_allocTask (hp : x.p₁ ≤ nd.nextTask) (y : HmpTask) :
    (nd.overlay x).allocTask y = ((nd.allocTask y).1.overlay x, (nd.allocTask y).2) := by
  have h := overlay_setTask nd x (p := nd.nextTask) (.inr hp) y
  simp only [allocTask]
  rw [show (nd.overlay x).nextTask = nd.nextTask from rfl, h]
  rfl

end Node

/-- What `t` has got lies over the process as it was. -/
theorem Node.OnlyAt.overlay_eq {nd nd₁ : Node} {t : ℕ} (h : nd.OnlyAt nd₁ t) :
    nd₁ = ({ nd with nextTrans := nd₁.nextTrans, nextTask := nd₁.nextTask } : Node).overlay
      ⟨t, nd₁.trans t, nd₁.qp t, nd.nextTask, nd₁.nextTask, nd₁.task⟩ := by
  have htrans : nd₁.trans = Function.update nd.trans t (nd₁.trans t) := by
    funext u
    by_cases hu : u = t
    · subst hu; simp
    · rw [h.trans u hu, Function.update_of_ne hu]
  have hqp : nd₁.qp = Function.update nd.qp t (nd₁.qp t) := by
    funext u
    by_cases hu : u = t
    · subst hu; simp
    · rw [h.qp u hu, Function.update_of_ne hu]
  have htask : nd₁.task =
      fun p => if nd.nextTask ≤ p ∧ p < nd₁.nextTask then nd₁.task p else nd.task p := by
    funext p
    split_ifs with hp
    · rfl
    · exact h.task p (by omega)
  conv_lhs => rw [h.rest, htrans, hqp, htask]
  rfl

open Node

variable {nd : Node} {x : Extra} {u : ℕ}

theorem hmpPostRecv_overlay (hu : u ≠ x.t) (hp : x.p₁ ≤ nd.nextTask) (o : PostOutcome) :
    hmpPostRecv (nd.overlay x) u o = (hmpPostRecv nd u o).overlay x := by
  have htask : hmpRecvTaskCreate (nd.overlay x) u HMP_TASK_SIZE true =
      ((hmpRecvTaskCreate nd u HMP_TASK_SIZE true).1.overlay x,
        (hmpRecvTaskCreate nd u HMP_TASK_SIZE true).2) := by
    simp only [hmpRecvTaskCreate, overlay_trans nd x hu, overlay_setTrans nd x hu]
    refine overlay_allocTask _ x ?_ _
    exact hp
  have hout : x.Outside (hmpRecvTaskCreate nd u HMP_TASK_SIZE true).2 := .inr hp
  unfold hmpPostRecv
  split_ifs
  · rw [htask]
    simp only [overlay_qp _ x hu, overlay_task _ x hout, overlay_setQp _ x hu]
  · rw [htask]
  · rfl

theorem hmpPostSend_overlay (hu : u ≠ x.t) (hp : x.p₁ ≤ nd.nextTask) (msg : HmpMsg)
    (o : PostOutcome) : hmpPostSend (nd.overlay x) u msg o = (hmpPostSend nd u msg o).overlay x := by
  have htask : hmpSendTaskCreate (nd.overlay x) u msg true =
      ((hmpSendTaskCreate nd u msg true).1.overlay x, (hmpSendTaskCreate nd u msg true).2) := by
    simp only [hmpSendTaskCreate, overlay_trans nd x hu]
    exact overlay_allocTask
      { nd with mem := nd.mem.write (nd.trans u).region.sendAddr (frameBytes msg) } x hp _
  have hout : x.Outside (hmpSendTaskCreate nd u msg true).2 := .inr hp
  unfold hmpPostSend
  split_ifs
  · rw [htask]
    simp only [overlay_qp _ x hu, overlay_task _ x hout, overlay_setQp _ x hu]
  · rw [htask]
  · rfl

theorem hmpPrePostRecv_overlay (hu : u ≠ x.t) (hp : x.p₁ ≤ nd.nextTask) (o₁ o₂ : PostOutcome) :
    hmpPrePostRecv (nd.overlay x) u o₁ o₂ = (hmpPrePostRecv nd u o₁ o₂).overlay x := by
  rw [hmpPrePostRecv, hmpPostRecv_overlay hu hp, hmpPostRecv_overlay hu, hmpPrePostRecv]
  exact hp.trans (hmpPostRecv_addsTasks nd u o₁).nextTask

theorem hmpQpRelease_overlay (hu : u ≠ x.t) :
    hmpQpRelease (nd.overlay x) u = (hmpQpRelease nd u).overlay x := by
  simp only [hmpQpRelease, overlay_qp nd x hu, overlay_setQp nd x hu]
  split_ifs <;> rfl

theorem onCmRouteResolved_overlay (hu : u ≠ x.t) (hp : x.p₁ ≤ nd.nextTask) (o : RouteOutcome) :
    (onCmRouteResolved (nd.overlay x) u o).1 = (onCmRouteResolved nd u o).1.overlay x := by
  have hpre : hmpPrePostRecv ((nd.overlay x).setQp u { live := true, registered := true }) u
      o.recv₁ o.recv₂ = (hmpPrePostRecv (nd.setQp u { live := true, registered := true }) u
        o.recv₁ o.recv₂).overlay x := by
    rw [overlay_setQp nd x hu, hmpPrePostRecv_overlay hu]
    exact hp
  rcases onCmRouteResolved_cases nd u o with ⟨hq, he⟩ | ⟨hq, hc, he⟩ | ⟨hq, hc, he⟩ <;>
    rcases onCmRouteResolved_cases (nd.overlay x) u o with
      ⟨hq', he'⟩ | ⟨hq', hc', he'⟩ | ⟨hq', hc', he'⟩ <;>
    first | contradiction | rw [he, he']
  · rw [hpre, hmpQpRelease_overlay hu]
    generalize hmpQpRelease (hmpPrePostRecv _ u o.recv₁ o.recv₂) u = nd'
    exact overlay_setState { nd' with stop := true } x hu .error
  · exact hpre

theorem requestRegister_overlay (hu : u ≠ x.t) (peerAddr : String) :
    requestRegister (nd.overlay x) u peerAddr = (requestRegister nd u peerAddr).overlay x := by
  unfold requestRegister
  rw [show (nd.overlay x).config = nd.config from rfl]
  split
  · rw [overlay_trans nd x hu, overlay_setTrans nd x hu]
    rfl
  · rfl

theorem withRequest_overlay (hu : nd.nextTrans ≠ x.t) (cm : CmId) (d : Option HmpDevice) :
    withRequest (nd.overlay x) cm d = (withRequest nd cm d).overlay x := by
  simp only [withRequest, overlay, Function.update_comm hu]

theorem withRequestQp_overlay (hu : nd.nextTrans ≠ x.t) (cm : CmId) (o : RequestOutcome) :
    withRequestQp (nd.overlay x) cm o = (withRequestQp nd cm o).overlay x := by
  rw [withRequestQp, withRequest_overlay hu]
  exact overlay_setQp _ x hu _

theorem requestTransport_overlay (hu : nd.nextTrans ≠ x.t) (cm : CmId) (o : RequestOutcome) :
    requestTransport (nd.overlay x) cm o =
      ((requestTransport nd cm o).1.overlay x, (requestTransport nd cm o).2) := by
  have hd : hmpDeviceLookup (nd.overlay x) o.verbs = hmpDeviceLookup nd o.verbs := rfl
  rw [requestTransport_eq, requestTransport_eq, hd, withRequest_overlay hu, withRequestQp_overlay hu,
    show (nd.overlay x).nextTrans = nd.nextTrans from rfl]
  split_ifs <;> rfl

theorem requestTransport_nextTask (nd : Node) (cm : CmId) (o : RequestOutcome) :
    (requestTransport nd cm o).1.nextTask = nd.nextTask := by
  rw [requestTransport_eq]
  split_ifs <;> rfl

theorem onCmConnectRequest_overlay (hu : nd.nextTrans ≠ x.t) (hp : x.p₁ ≤ nd.nextTask) (cm : CmId)
    (peerAddr : String) (o : RequestOutcome) :
    (onCmConnectRequest (nd.overlay x) cm peerAddr o).1 =
      (onCmConnectRequest nd cm peerAddr o).1.overlay x := by
  have hnext := requestTransport_nextTask nd cm o
  unfold onCmConnectRequest
  rw [requestTransport_overlay hu]
  cases hr : requestTransport nd cm o with
  | mk nd₁ r =>
    cases r with
    | none => rfl
    | some t =>
      obtain rfl : t = nd.nextTrans := (requestTransport_some hr).1
      have hp₁ : x.p₁ ≤ (requestRegister nd₁ nd.nextTrans peerAddr).nextTask := by
        rw [(requestRegister_frame ..).2.2.2.1,
          ← congrArg (fun r : Node × Option ℕ => r.1.nextTask) hr, hnext]
        exact hp
      have hacc : hmpPrePostRecv (requestRegister (nd₁.overlay x) nd.nextTrans peerAddr)
          nd.nextTrans o.recv₁ o.recv₂ = (hmpPrePostRecv (requestRegister nd₁ nd.nextTrans peerAddr)
            nd.nextTrans o.recv₁ o.recv₂).overlay x := by
        rw [requestRegister_overlay hu, hmpPrePostRecv_overlay hu hp₁]
      dsimp only [requestAccept]
      rw [hacc]
      by_cases ha : o.accept = 0
      · simp only [ha, ne_eq, not_true_eq_false, if_false]
        exact overlay_setState _ x hu .connecting
      · simp [ha]

/-- The handlers of CM events for other transports. -/
theorem hmpHandleEcEvent_overlay (hu : u ≠ x.t) (ht : nd.nextTrans ≠ x.t)
    (hp : x.p₁ ≤ nd.nextTask) (e : CmEvent) :
    (hmpHandleEcEvent (nd.overlay x) u e).1 = (hmpHandleEcEvent nd u e).1.overlay x := by
  cases e with
  | addrResolved verbs route =>
    rw [hmpHandleEcEvent, hmpHandleEcEvent, onCmAddrResolved_eq, onCmAddrResolved_eq,
      overlay_trans nd x hu]
    exact overlay_setTrans nd x hu _
  | routeResolved o => exact onCmRouteResolved_overlay hu hp o
  | connectRequest cm peerAddr o => exact onCmConnectRequest_overlay ht hp cm peerAddr o
  | established peer o =>
    simp only [hmpHandleEcEvent, onCmEstablished, overlay_trans nd x hu, overlay_setTrans nd x hu]
    exact @hmpPostSend_overlay (nd.setTrans u _) x u hu hp _ o
  | disconnected =>
    simp only [hmpHandleEcEvent, onCmDisconnected, overlay_qp nd x hu]
    exact overlay_setQp nd x hu _
  | other type =>
    obtain ⟨type, _⟩ := type
    cases type <;> first | rfl | exact overlay_setState { nd with stop := true } x hu .error

theorem hmpHandleMrMsg_overlay (hu : u ≠ x.t) (data : ℕ) :
    hmpHandleMrMsg (nd.overlay x) u data = (hmpHandleMrMsg nd u data).overlay x := by
  have haddr : ∀ nd : Node, mrMsgAddr (nd.overlay x) u data = (mrMsgAddr nd u data).overlay x := by
    intro nd
    simp only [mrMsgAddr, overlay_trans nd x hu]
    rfl
  have hlength : ∀ nd : Node,
      mrMsgLength (nd.overlay x) u data = (mrMsgLength nd u data).overlay x := by
    intro nd
    simp only [mrMsgLength, overlay_trans nd x hu]
    rfl
  have hrkey : ∀ nd : Node, mrMsgRkey (nd.overlay x) u data = (mrMsgRkey nd u data).overlay x := by
    intro nd
    simp only [mrMsgRkey, overlay_trans nd x hu]
    rfl
  rw [hmpHandleMrMsg, haddr, hlength, hrkey, mrMsgState, overlay_setState _ x hu]
  rfl

/-- A completion whose task is none of those, and belongs to another transport. -/
theorem dispatchWc_overlay {wc : IbvWc} (hp : x.Outside wc.wrId)
    (ht : (nd.task wc.wrId).rdmaTrans ≠ x.t) :
    dispatchWc (nd.overlay x) wc = (dispatchWc nd wc).overlay x := by
  have htask := overlay_task nd x hp
  have hinit : isInitMsg (nd.overlay x) wc = isInitMsg nd wc := by
    simp only [isInitMsg, htask]
    rfl
  have hsuccess : hmpWcSuccessHandler (nd.overlay x) wc = (hmpWcSuccessHandler nd wc).overlay x := by
    simp only [hmpWcSuccessHandler, htask, hinit]
    cases wc.opcode with
    | recv =>
      dsimp only
      split_ifs
      · exact hmpHandleMrMsg_overlay ht _
      · rfl
    | rdmaRead => exact overlay_setTask nd x hp _
    | _ => rfl
  unfold dispatchWc
  split_ifs
  · exact hsuccess
  · rfl

theorem rdmaPost_overlay {create : Node → ℕ → ℕ → ℤ → Bool → Node × ℕ} {type : TaskType}
    (hcreate : create = fun nd t addr length d => transferTask nd type t addr length d)
    (hu : u ≠ x.t) (hp : x.p₁ ≤ nd.nextTask) (opcode : IbvWrOpcode) (localAddr addr : ℕ)
    (length : ℤ) (o : PostOutcome) :
    rdmaPost create opcode (nd.overlay x) u localAddr addr length o =
      ((rdmaPost create opcode nd u localAddr addr length o).1.overlay x,
        (rdmaPost create opcode nd u localAddr addr length o).2) := by
  have htask : create (nd.overlay x) u localAddr length true =
      ((create nd u localAddr length true).1.overlay x, (create nd u localAddr length true).2) := by
    rw [hcreate]
    exact overlay_allocTask nd x hp _
  have hout : x.Outside (create nd u localAddr length true).2 := by
    rw [hcreate]
    exact .inr hp
  unfold rdmaPost
  split_ifs
  · rw [htask]
    simp only [overlay_qp _ x hu, overlay_task _ x hout, overlay_trans _ x hu]
    rw [overlay_setQp _ x hu]
    rfl
  · rw [htask]
  · rfl

theorem hmpRdmaReadPost_overlay (hu : u ≠ x.t) (hp : x.p₁ ≤ nd.nextTask) (localAddr addr : ℕ)
    (length : ℤ) (o : PostOutcome) : hmpRdmaReadPost (nd.overlay x) u localAddr addr length o =
      ((hmpRdmaReadPost nd u localAddr addr length o).1.overlay x,
        (hmpRdmaReadPost nd u localAddr addr length o).2) :=
  rdmaPost_overlay rfl hu hp .rdmaRead localAddr addr length o

theorem hmpRdmaWritePost_overlay (hu : u ≠ x.t) (hp : x.p₁ ≤ nd.nextTask) (localAddr addr : ℕ)
    (length : ℤ) (o : PostOutcome) : hmpRdmaWritePost (nd.overlay x) u localAddr addr length o =
      ((hmpRdmaWritePost nd u localAddr addr length o).1.overlay x,
        (hmpRdmaWritePost nd u localAddr addr length o).2) :=
  rdmaPost_overlay rfl hu hp .rdmaWrite localAddr addr length o

end HMP
