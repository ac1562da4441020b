import Hmp.Sanity.Node
import Hmp.Sanity.Verbs

/-! The functions on a process do to its node what the functions of the same name on nodes do, with
the results that the calls inside add up to. -/

namespace HMP

/-- What `hmp_qp_create` returns. -/
def QpCalls.ret (o : QpCalls) : ℤ :=
  if o.early = true ∨ o.reqNotify ≠ 0 then -1 else o.createQp

namespace Proc

def RouteCalls.outcome (o : RouteCalls) : RouteOutcome :=
  { qp := o.qp.ret, recv₁ := o.recv₁, recv₂ := o.recv₂, connect := o.connect }

def RequestCalls.outcome (o : RequestCalls) : RequestOutcome :=
  { create := o.create.ok, verbs := o.verbs, qp := o.qp.ret, recv₁ := o.recv₁, recv₂ := o.recv₂
    accept := o.accept }

def CmCalls.outcome : CmCalls → CmEvent
  | .addrResolved verbs route => .addrResolved verbs route
  | .routeResolved o => .routeResolved o.outcome
  | .connectRequest cm peerAddr o => .connectRequest cm peerAddr o.outcome
  | .established peer o => .established peer o
  | .disconnected => .disconnected
  | .other type => .other type

variable (p : Proc) (t : ℕ) (cm : CmId) (d : HmpDevice)

/-! ## Queue pairs -/

theorem hmpQpCreate_early {o : QpCalls} (h : o.early = true) :
    p.hmpQpCreate t cm d o = (p.setWorld (p.world.hmpCqGet o).1, -1) := by
  have hnone := (p.world.hmpCqGet_early h).1
  unfold hmpQpCreate
  split
  · rename_i w hw
    rw [hw]
  · rename_i w x hw
    rw [hw] at hnone
    cases hnone

theorem hmpQpCreate_notify {o : QpCalls} (h : o.early = false) (hn : o.reqNotify ≠ 0) :
    p.hmpQpCreate t cm d o = (p.setWorld
      (p.world.withCq.cleanEventFd p.world.hcqs.next p.world.files.next), -1) := by
  rw [hmpQpCreate, p.world.hmpCqGet_late h, if_neg hn]

theorem hmpQpCreate_rdma {o : QpCalls} (h : o.early = false) (hn : o.reqNotify = 0)
    (hq : o.createQp ≠ 0) : p.hmpQpCreate t cm d o =
      (p.setWorld (p.world.withCq.freeHcq p.world.hcqs.next), o.createQp) := by
  rw [hmpQpCreate, p.world.hmpCqGet_late h, if_pos hn]
  exact if_pos hq

/-- The world behind a call that succeeds. -/
def withQp (w : World) (d : HmpDevice) : World :=
  w.withCq.createQp
    { verbs := d.verbs, pd := d.pd, cq := (w.withCq.hcqs.get w.hcqs.next).bind (·.cq) }

theorem hmpQpCreate_ok {o : QpCalls} (h : o.early = false) (hn : o.reqNotify = 0)
    (hq : o.createQp = 0) : p.hmpQpCreate t cm d o =
      ((((p.setWorld (withQp p.world d)).setNode (HMP.hmpQpCreate p.node t 0).1).setCm cm
        { p.cm cm with qp := some p.world.withCq.qps.next }).setPtrs t
        { p.ptrs t with
          hcq := some p.world.hcqs.next, qp := some p.world.withCq.qps.next }, 0) := by
  rw [hmpQpCreate, p.world.hmpCqGet_late h, if_pos hn]
  exact if_neg (not_not.mpr hq)

/-- A call fails and changes the world alone, or it succeeds. -/
theorem hmpQpCreate_cases (o : QpCalls) :
    (o.ret ≠ 0 ∧ ∃ w, p.hmpQpCreate t cm d o = (p.setWorld w, o.ret)) ∨
      (o.ret = 0 ∧ o.early = false ∧ o.reqNotify = 0 ∧ o.createQp = 0) := by
  cases he : o.early with
  | true =>
    have hret : o.ret = -1 := if_pos (.inl he)
    exact .inl ⟨by rw [hret]; norm_num, _, by rw [hret, hmpQpCreate_early p t cm d he]⟩
  | false =>
    by_cases hn : o.reqNotify = 0
    · have hret : o.ret = o.createQp := if_neg (by simp [he, hn])
      by_cases hq : o.createQp = 0
      · exact .inr ⟨hret.trans hq, rfl, hn, hq⟩
      · exact .inl ⟨by rwa [hret], _, by rw [hret, hmpQpCreate_rdma p t cm d he hn hq]⟩
    · have hret : o.ret = -1 := if_pos (.inr hn)
      exact .inl ⟨by rw [hret]; norm_num, _, by rw [hret, hmpQpCreate_notify p t cm d he hn]⟩

theorem hmpQpCreate_node (o : QpCalls) : (p.hmpQpCreate t cm d o).2 = o.ret ∧
    (p.hmpQpCreate t cm d o).1.node = (HMP.hmpQpCreate p.node t o.ret).1 := by
  rcases p.hmpQpCreate_cases t cm d o with ⟨h, w, he⟩ | ⟨h, he, hn, hq⟩
  · rw [he, HMP.hmpQpCreate, if_neg h]
    exact ⟨rfl, rfl⟩
  · rw [hmpQpCreate_ok p t cm d he hn hq, h]
    simp

/-- The context of a connection is set elsewhere. -/
theorem hmpQpCreate_context (o : QpCalls) (id : CmId) :
    ((p.hmpQpCreate t cm d o).1.cm id).context = (p.cm id).context := by
  rcases p.hmpQpCreate_cases t cm d o with ⟨-, w, he⟩ | ⟨-, he, hn, hq⟩
  · rw [he]
    rfl
  · rw [hmpQpCreate_ok p t cm d he hn hq]
    by_cases hid : id = cm
    · simp [hid]
    · simp [Function.update_of_ne hid]

@[simp] theorem hmpQpRelease_node : (p.hmpQpRelease t).node =
    if (p.ptrs t).qp.isSome then HMP.hmpQpRelease p.node t else p.node := by
  unfold hmpQpRelease
  split
  · rename_i h
    rw [h]
    rfl
  · rename_i h
    rw [h]
    rfl

theorem onCmRouteResolved_node (o : RouteCalls) :
    (p.onCmRouteResolved t cm d o).1.node = (HMP.onCmRouteResolved p.node t o.outcome).1 := by
  obtain ⟨hret, hnode⟩ := p.hmpQpCreate_node t cm d o.qp
  unfold onCmRouteResolved HMP.onCmRouteResolved
  have hcoarse : (HMP.hmpQpCreate p.node t o.qp.ret).2 = o.qp.ret := by
    unfold HMP.hmpQpCreate
    split_ifs with h0
    · exact h0.symm
    · rfl
  simp only [RouteCalls.outcome, hret, hcoarse]
  split_ifs with hq hc
  · exact hnode
  · have hok : o.qp.ret = 0 := not_not.mp hq
    rcases p.hmpQpCreate_cases t cm d o.qp with ⟨h, -⟩ | ⟨-, he, hn, hz⟩
    · exact absurd hok h
    · rw [hmpQpCreate_ok p t cm d he hn hz, hok]
      simp [hc]
  · simp [hnode, hc]

/-! ## Transports -/

/-- A transport that cannot be created leaves what there was before. -/
theorem hmpTransportCreate_failed {o : CreateCalls} (h : o.ok = false) :
    ∃ w, p.hmpTransportCreate o = (p.setWorld w, none) ∧ p.world.Same w := by
  unfold hmpTransportCreate World.hmpEventChannelCreate
  by_cases hc : o.calloc
  · by_cases hn : o.create
    · have hf : ¬ (o.getFl = true ∧ o.setFl = true) := by
        rintro ⟨hg, hs⟩
        simp [CreateCalls.ok, hc, hn, hg, hs] at h
      refine ⟨(p.world.openFd .eventChannel).closeFd p.world.files.next, ?_, ?_⟩
      · simp [hc, hn, hf]
      · exact p.world.closeFd_openFd .eventChannel
    · refine ⟨p.world, by simp [hc, hn], .refl _⟩
  · exact ⟨p.world, by simp [hc]; rfl, .refl _⟩

/-- The process with a new transport that has an event channel. -/
def withTrans (p : Proc) (o : CreateCalls) : Proc :=
  ((p.setWorld ((p.world.openFd .eventChannel).addEventFd p.world.files.next p.world.files.next
    .hmpEventChannelHandler o.addFd).1).setNode (HMP.hmpTransportCreate p.node true).1).setPtrs
      p.node.nextTrans { eventChannel := some p.world.files.next }

theorem hmpTransportCreate_ok {o : CreateCalls} (h : o.ok = true) :
    p.hmpTransportCreate o = (p.withTrans o, some p.node.nextTrans) := by
  simp only [CreateCalls.ok, Bool.and_eq_true] at h
  obtain ⟨⟨hc, hn⟩, hf⟩ := h
  simp [hmpTransportCreate, World.hmpEventChannelCreate, hc, hn, hf, HMP.hmpTransportCreate,
    withTrans]

theorem requestDevice_node (o : RequestCalls) :
    ((p.withTrans o.create).requestDevice p.node.nextTrans cm o).node =
      withRequest p.node cm (hmpDeviceLookup p.node o.verbs) := by
  have hd : hmpDeviceLookup (HMP.hmpTransportCreate p.node true).1 o.verbs =
    hmpDeviceLookup p.node o.verbs := rfl
  simp only [requestDevice, withTrans, setCm_node, setNode_node, setPtrs_node, hd]
  simp [HMP.hmpTransportCreate, withRequest, Node.setTrans]

/-! ## Events -/

theorem requestAccept_node (peerAddr : String) (o : RequestCalls) :
    (p.requestAccept t peerAddr o).1.node =
      if o.accept ≠ 0 then
        hmpPrePostRecv (requestRegister p.node t peerAddr) t o.recv₁ o.recv₂
      else (hmpPrePostRecv (requestRegister p.node t peerAddr) t o.recv₁ o.recv₂).setState t
        .connecting := by
  unfold requestAccept HMP.requestAccept
  by_cases ha : o.accept = 0
  · simp [ha]
  · simp [ha]

theorem onCmConnectRequest_node (peerAddr : String) (o : RequestCalls) :
    (p.onCmConnectRequest cm peerAddr o).1.node =
      (HMP.onCmConnectRequest p.node cm peerAddr o.outcome).1 := by
  unfold onCmConnectRequest HMP.onCmConnectRequest
  rw [requestTransport_eq]
  have hcreate : o.outcome.create = o.create.ok := rfl
  cases hok : o.create.ok with
  | false =>
    obtain ⟨w, hw, -⟩ := p.hmpTransportCreate_failed hok
    rw [hw, if_pos (hcreate.trans hok)]
    rfl
  | true =>
    have hdev := p.requestDevice_node cm o
    have hlookup : hmpDeviceLookup (p.withTrans o.create).node o.verbs =
      hmpDeviceLookup p.node o.verbs := rfl
    have hverbs : o.outcome.verbs = o.verbs := rfl
    rw [p.hmpTransportCreate_ok hok, if_neg (by simp [hcreate, hok]), hverbs]
    simp only [hlookup]
    cases hd : hmpDeviceLookup p.node o.verbs with
    | none =>
      rw [if_pos (.inl rfl)]
      exact hdev.trans (by rw [hd])
    | some d =>
      rw [hd] at hdev
      set p₁ := (p.withTrans o.create).requestDevice p.node.nextTrans cm o
      obtain ⟨hret, hnode⟩ := p₁.hmpQpCreate_node p.node.nextTrans cm d o.qp
      have hqp : o.outcome.qp = o.qp.ret := rfl
      simp only [hret, hqp]
      by_cases hq : o.qp.ret = 0
      · rw [hq, hdev] at hnode
        have hwith : (p₁.hmpQpCreate p.node.nextTrans cm d o.qp).1.node =
            withRequestQp p.node cm o.outcome := by
          rw [hnode, withRequestQp, hverbs, hd]
          rfl
        rw [if_neg (not_not.mpr hq), if_neg (by simp [hq]), requestAccept_node, hwith]
        by_cases ha : o.accept = 0
        · simp [HMP.requestAccept, RequestCalls.outcome, ha]
        · simp [HMP.requestAccept, RequestCalls.outcome, ha]
      · rw [if_pos hq, if_pos (.inr hq), hnode, HMP.hmpQpCreate, if_neg hq]
        exact hdev

theorem hmpHandleEcEvent_node {p p' : Proc} {t : ℕ} {e : CmCalls} {r : ℤ}
    (h : p.hmpHandleEcEvent t e = some (p', r)) :
    p'.node = (HMP.hmpHandleEcEvent p.node t e.outcome).1 := by
  cases e with
  | addrResolved | established | other =>
    simp only [hmpHandleEcEvent, Option.some.injEq, Prod.mk.injEq] at h
    obtain ⟨rfl, -⟩ := h
    rfl
  | routeResolved o =>
    simp only [hmpHandleEcEvent, Option.bind_eq_some_iff, Option.map_eq_some_iff] at h
    obtain ⟨cm, -, d, -, h⟩ := h
    have hp : p' = (p.onCmRouteResolved t cm d o).1 := by rw [h]
    rw [hp]
    exact p.onCmRouteResolved_node t cm d o
  | connectRequest cm peerAddr o =>
    have hp : p' = (p.onCmConnectRequest cm peerAddr o).1 := by rw [Option.some.inj h]
    rw [hp]
    exact p.onCmConnectRequest_node cm peerAddr o
  | disconnected =>
    simp only [hmpHandleEcEvent, Option.map_eq_some_iff] at h
    obtain ⟨cm, -, h⟩ := h
    have hp : p' = (p.onCmDisconnected t cm).1 := by rw [h]
    rw [hp]
    rfl

end Proc

end HMP
