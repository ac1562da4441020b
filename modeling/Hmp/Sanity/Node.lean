import Hmp.Spec.Startup

/-! What each function of a process changes, and what it leaves alone. The
proofs about runs use these facts and do not unfold the functions. -/

namespace HMP

attribute [local simp] Node.allocTask

@[simp] theorem hmpPostRecv_config (nd : Node) (t : ℕ) (o : PostOutcome) :
    (hmpPostRecv nd t o).config = nd.config := by
  unfold hmpPostRecv; split_ifs <;> rfl

@[simp] theorem hmpPostRecv_dramMempool (nd : Node) (t : ℕ) (o : PostOutcome) :
    (hmpPostRecv nd t o).dramMempool = nd.dramMempool := by
  unfold hmpPostRecv; split_ifs <;> rfl

@[simp] theorem hmpPostRecv_nextTrans (nd : Node) (t : ℕ) (o : PostOutcome) :
    (hmpPostRecv nd t o).nextTrans = nd.nextTrans := by
  unfold hmpPostRecv; split_ifs <;> rfl

@[simp] theorem hmpPostRecv_connectTrans (nd : Node) (t : ℕ) (o : PostOutcome) :
    (hmpPostRecv nd t o).connectTrans = nd.connectTrans := by
  unfold hmpPostRecv; split_ifs <;> rfl

/-- A receive moves the ring of its own transport by one slot. -/
theorem hmpPostRecv_trans (nd : Node) (t : ℕ) (o : PostOutcome) :
    (hmpPostRecv nd t o).trans =
      if o.task then Function.update nd.trans t { nd.trans t with region :=
        { (nd.trans t).region with curRecv := ((nd.trans t).region.curRecv + 1) % 3 } }
      else nd.trans := by
  unfold hmpPostRecv; split_ifs <;> rfl

@[simp] theorem hmpPostRecv_transState (nd : Node) (t : ℕ) (o : PostOutcome) (u : ℕ) :
    ((hmpPostRecv nd t o).trans u).transState = (nd.trans u).transState := by
  rw [hmpPostRecv_trans]
  split_ifs
  · by_cases h : u = t
    · subst h; simp
    · simp [h]
  · rfl

/-- The task of a receive points at the current slot of the ring. -/
theorem hmpPostRecv_task (nd : Node) (t : ℕ) (o : PostOutcome) (h : o.task = true) :
    ((hmpPostRecv nd t o).task nd.nextTask).sge =
      { addr := (nd.trans t).region.recvAddr + (nd.trans t).region.curRecv * HMP_TASK_SIZE
        length := HMP_TASK_SIZE, lkey := nd.lkey } := by
  unfold hmpPostRecv
  rw [if_pos h]
  split_ifs <;> simp [hmpRecvTaskCreate, taskLkey, Node.lkey]

@[simp] theorem hmpPostSend_config (nd : Node) (t : ℕ) (msg : HmpMsg) (o : PostOutcome) :
    (hmpPostSend nd t msg o).config = nd.config := by
  unfold hmpPostSend; split_ifs <;> rfl

@[simp] theorem hmpPostSend_dramMempool (nd : Node) (t : ℕ) (msg : HmpMsg) (o : PostOutcome) :
    (hmpPostSend nd t msg o).dramMempool = nd.dramMempool := by
  unfold hmpPostSend; split_ifs <;> rfl

@[simp] theorem hmpPostSend_nextTrans (nd : Node) (t : ℕ) (msg : HmpMsg) (o : PostOutcome) :
    (hmpPostSend nd t msg o).nextTrans = nd.nextTrans := by
  unfold hmpPostSend; split_ifs <;> rfl

@[simp] theorem hmpPostSend_connectTrans (nd : Node) (t : ℕ) (msg : HmpMsg) (o : PostOutcome) :
    (hmpPostSend nd t msg o).connectTrans = nd.connectTrans := by
  unfold hmpPostSend; split_ifs <;> rfl

@[simp] theorem hmpPostSend_trans (nd : Node) (t : ℕ) (msg : HmpMsg) (o : PostOutcome) :
    (hmpPostSend nd t msg o).trans = nd.trans := by
  unfold hmpPostSend; split_ifs <;> rfl

/-- The task of a send points at the send slot, whatever the message. -/
theorem hmpPostSend_task_addr (nd : Node) (t : ℕ) (msg : HmpMsg) (o : PostOutcome)
    (h : o.task = true) :
    ((hmpPostSend nd t msg o).task nd.nextTask).sge.addr = (nd.trans t).region.sendAddr := by
  unfold hmpPostSend
  rw [if_pos h]
  split_ifs <;> simp [hmpSendTaskCreate]

theorem onCmAddrResolved_eq (nd : Node) (t verbs : ℕ) (route : ℤ) :
    onCmAddrResolved nd t verbs route =
      (nd.setTrans t { nd.trans t with device := hmpDeviceLookup nd verbs },
        if (hmpDeviceLookup nd verbs).isNone then -1 else route) := by
  unfold onCmAddrResolved
  dsimp only
  split_ifs <;> rfl

/-- The three ways out of the route handler. -/
theorem onCmRouteResolved_cases (nd : Node) (t : ℕ) (o : RouteOutcome) :
    (o.qp ≠ 0 ∧ onCmRouteResolved nd t o = (nd, o.qp)) ∨
      (o.qp = 0 ∧ o.connect ≠ 0 ∧ onCmRouteResolved nd t o =
        (({ hmpQpRelease (hmpPrePostRecv (nd.setQp t { live := true, registered := true }) t
              o.recv₁ o.recv₂) t with stop := true }).setState t .error, o.connect)) ∨
      (o.qp = 0 ∧ o.connect = 0 ∧ onCmRouteResolved nd t o =
        (hmpPrePostRecv (nd.setQp t { live := true, registered := true }) t o.recv₁ o.recv₂, 0)) := by
  by_cases hq : o.qp = 0
  · by_cases hc : o.connect = 0
    · exact .inr (.inr ⟨hq, hc, by simp [onCmRouteResolved, hmpQpCreate, hq, hc]⟩)
    · exact .inr (.inl ⟨hq, hc, by simp [onCmRouteResolved, hmpQpCreate, hq, hc]⟩)
  · exact .inl ⟨hq, by simp [onCmRouteResolved, hmpQpCreate, hq]⟩

theorem hmpQpRelease_qp (nd : Node) (t : ℕ) :
    (hmpQpRelease nd t).qp =
      if (nd.qp t).live then Function.update nd.qp t {} else nd.qp := by
  unfold hmpQpRelease; split_ifs <;> rfl

@[simp] theorem hmpQpRelease_trans (nd : Node) (t : ℕ) : (hmpQpRelease nd t).trans = nd.trans := by
  unfold hmpQpRelease; split_ifs <;> rfl

/-- A new transport is the next object of the heap, with the fields `calloc` leaves. -/
theorem peerCreate_eq (nd : Node) (i : ℕ) :
    peerCreate nd i true =
      ({ nd with trans := Function.update nd.trans nd.nextTrans {}
                 nextTrans := nd.nextTrans + 1
                 connectTrans := Function.update nd.connectTrans i (some nd.nextTrans) },
        some nd.nextTrans) := rfl

/-- The process with the transport that `on_cm_connect_request` creates. -/
def withRequest (nd : Node) (cm : CmId) (d : Option HmpDevice) : Node :=
  { nd with trans := Function.update nd.trans nd.nextTrans { cmId := some cm, device := d }
            nextTrans := nd.nextTrans + 1 }

/-- The same with the queue pair. -/
def withRequestQp (nd : Node) (cm : CmId) (o : RequestOutcome) : Node :=
  (withRequest nd cm (hmpDeviceLookup nd o.verbs)).setQp nd.nextTrans
    { live := true, registered := true }

/-- The first part of `on_cm_connect_request`. -/
theorem requestTransport_eq (nd : Node) (cm : CmId) (o : RequestOutcome) :
    requestTransport nd cm o =
      if o.create = false then (nd, none)
      else if hmpDeviceLookup nd o.verbs = none ∨ o.qp ≠ 0 then
        (withRequest nd cm (hmpDeviceLookup nd o.verbs), none)
      else (withRequestQp nd cm o, some nd.nextTrans) := by
  cases hc : o.create
  · simp [requestTransport, hmpTransportCreate, hc]
  · have hd : hmpDeviceLookup { nd.setTrans nd.nextTrans {} with nextTrans := nd.nextTrans + 1 }
        o.verbs = hmpDeviceLookup nd o.verbs := rfl
    cases hl : hmpDeviceLookup nd o.verbs with
    | none =>
      simp only [requestTransport, hmpTransportCreate, hc, if_true, hd, hl]
      simp [withRequest, Node.setTrans]
    | some d =>
      by_cases hq : o.qp = 0
      · simp only [requestTransport, hmpTransportCreate, hc, if_true, hd, hl, hmpQpCreate, hq]
        simp [withRequestQp, withRequest, hl, Node.setTrans]
      · simp only [requestTransport, hmpTransportCreate, hc, if_true, hd, hl, hmpQpCreate, hq]
        simp [withRequest, Node.setTrans, hq]

/-- The ways out of the first part of `on_cm_connect_request`. -/
theorem requestTransport_cases (nd : Node) (cm : CmId) (o : RequestOutcome) :
    requestTransport nd cm o = (nd, none) ∨
      requestTransport nd cm o = (withRequest nd cm (hmpDeviceLookup nd o.verbs), none) ∨
      requestTransport nd cm o = (withRequestQp nd cm o, some nd.nextTrans) := by
  rw [requestTransport_eq]
  split_ifs
  · exact .inl rfl
  · exact .inr (.inl rfl)
  · exact .inr (.inr rfl)

/-- The first part of `on_cm_connect_request` only adds the next transport, with no
node id and no region. -/
theorem requestTransport_frame (nd : Node) (cm : CmId) (o : RequestOutcome) :
    (requestTransport nd cm o).1.config = nd.config ∧
      (requestTransport nd cm o).1.dramMempool = nd.dramMempool ∧
      (requestTransport nd cm o).1.connectTrans = nd.connectTrans ∧
      nd.nextTrans ≤ (requestTransport nd cm o).1.nextTrans ∧
      ∀ t ≠ nd.nextTrans, (requestTransport nd cm o).1.trans t = nd.trans t := by
  rcases requestTransport_cases nd cm o with h | h | h <;> rw [h] <;>
    simp +contextual [withRequestQp, withRequest, Function.update_of_ne]

theorem requestTransport_some {nd nd' : Node} {cm : CmId} {o : RequestOutcome} {t : ℕ}
    (h : requestTransport nd cm o = (nd', some t)) :
    t = nd.nextTrans ∧ nd' = withRequestQp nd cm o := by
  rcases requestTransport_cases nd cm o with h' | h' | h' <;> rw [h'] at h
  · simp at h
  · simp at h
  · simp only [Prod.mk.injEq, Option.some.injEq] at h
    exact ⟨h.2.symm, h.1.symm⟩

/-- `on_cm_connect_request` gives up early, or it goes through to `rdma_accept`. -/
theorem onCmConnectRequest_cases (nd : Node) (cm : CmId) (peerAddr : String) (o : RequestOutcome) :
    ((requestTransport nd cm o).2 = none ∧
      onCmConnectRequest nd cm peerAddr o = ((requestTransport nd cm o).1, -1)) ∨
    ∃ nd₂, nd₂ = hmpPrePostRecv (requestRegister (withRequestQp nd cm o) nd.nextTrans peerAddr)
        nd.nextTrans o.recv₁ o.recv₂ ∧
      (o.accept ≠ 0 ∧ onCmConnectRequest nd cm peerAddr o = (nd₂, -1) ∨
        o.accept = 0 ∧
          onCmConnectRequest nd cm peerAddr o = (nd₂.setState nd.nextTrans .connecting, 0)) := by
  unfold onCmConnectRequest
  cases hr : requestTransport nd cm o with
  | mk nd₁ r =>
    cases r with
    | none => exact .inl ⟨rfl, rfl⟩
    | some t =>
      obtain ⟨rfl, rfl⟩ := requestTransport_some hr
      refine .inr ⟨_, rfl, ?_⟩
      by_cases ha : o.accept = 0
      · exact .inr ⟨ha, by simp [requestAccept, ha]⟩
      · exact .inl ⟨ha, by simp [requestAccept, ha]⟩

/-- The search of `on_cm_connect_request` for the address of a lower node finds that node. -/
theorem requestRegister_of_curnodeId {nd : Node} {p : ℕ} (t : ℕ) (hp : p < nd.config.curnodeId)
    (hid : hmpSetCurnodeId nd.config (nd.config.nodeInfos p).addr = some p) :
    requestRegister nd t (nd.config.nodeInfos p).addr =
      { nd.setTrans t { nd.trans t with nodeId := p, region := slotRegion nd p } with
        connectTrans := Function.update nd.connectTrans p (some t) } := by
  have hf : (List.range nd.config.curnodeId).find?
      (fun i => decide ((nd.config.nodeInfos i).addr = (nd.config.nodeInfos p).addr)) = some p := by
    rw [hmpSetCurnodeId, List.find?_range_eq_some] at hid
    rw [List.find?_range_eq_some]
    exact ⟨hid.1, List.mem_range.mpr hp, hid.2.2⟩
  unfold requestRegister
  rw [hf]

/-- The search falls through for any other address. -/
theorem requestRegister_stranger {nd : Node} {peerAddr : String} (t : ℕ)
    (h : ∀ i < nd.config.curnodeId, (nd.config.nodeInfos i).addr ≠ peerAddr) :
    requestRegister nd t peerAddr = nd := by
  have hf : (List.range nd.config.curnodeId).find?
      (fun i => decide ((nd.config.nodeInfos i).addr = peerAddr)) = none := by
    rw [List.find?_eq_none]
    intro i hi
    simpa using h i (List.mem_range.mp hi)
  unfold requestRegister
  rw [hf]

/-- Entries of the table point at transports that exist. -/
def Node.TableOk (nd : Node) : Prop := ∀ k t, nd.connectTrans k = some t → t < nd.nextTrans

theorem Node.TableOk.congr {nd nd' : Node} (h : nd.TableOk)
    (hc : nd'.connectTrans = nd.connectTrans) (hn : nd'.nextTrans = nd.nextTrans) : nd'.TableOk := by
  intro k t ht
  rw [hc] at ht
  rw [hn]
  exact h k t ht

/-- The search touches the table and the transport only. -/
theorem requestRegister_frame (nd : Node) (t : ℕ) (peerAddr : String) :
    (requestRegister nd t peerAddr).config = nd.config ∧
      (requestRegister nd t peerAddr).dramMempool = nd.dramMempool ∧
      (requestRegister nd t peerAddr).nextTrans = nd.nextTrans ∧
      (requestRegister nd t peerAddr).nextTask = nd.nextTask ∧
      (requestRegister nd t peerAddr).task = nd.task ∧ (requestRegister nd t peerAddr).qp = nd.qp ∧
      (requestRegister nd t peerAddr).mem = nd.mem := by
  unfold requestRegister
  split <;> exact ⟨rfl, rfl, rfl, rfl, rfl, rfl, rfl⟩

theorem requestRegister_entry {nd : Node} {t k u : ℕ} {peerAddr : String}
    (h : (requestRegister nd t peerAddr).connectTrans k = some u) :
    nd.connectTrans k = some u ∨ u = t := by
  unfold requestRegister at h
  split at h
  · rename_i i _
    by_cases hk : k = i
    · subst hk
      simp only [Function.update_self, Option.some.injEq] at h
      exact .inr h.symm
    · exact .inl (by simpa [hk] using h)
  · exact .inl h

theorem hmpPrePostRecv_frame (nd : Node) (t : ℕ) (o₁ o₂ : PostOutcome) :
    (hmpPrePostRecv nd t o₁ o₂).connectTrans = nd.connectTrans ∧
      (hmpPrePostRecv nd t o₁ o₂).nextTrans = nd.nextTrans ∧
      (hmpPrePostRecv nd t o₁ o₂).config = nd.config ∧
      (hmpPrePostRecv nd t o₁ o₂).dramMempool = nd.dramMempool := by
  simp [hmpPrePostRecv]

/-- With a transport for it a request adds one. -/
theorem onCmConnectRequest_adds {nd : Node} {cm : CmId} {peerAddr : String} {o : RequestOutcome}
    (h : o.create = true) :
    (onCmConnectRequest nd cm peerAddr o).1.nextTrans = nd.nextTrans + 1 := by
  rcases onCmConnectRequest_cases nd cm peerAddr o with ⟨-, he⟩ | ⟨nd₂, rfl, ⟨-, he⟩ | ⟨-, he⟩⟩ <;>
    rw [he]
  · rw [requestTransport_eq, if_neg (by simp [h])]
    split_ifs <;> rfl
  all_goals
    obtain ⟨-, hn, -⟩ := hmpPrePostRecv_frame
      (requestRegister (withRequestQp nd cm o) nd.nextTrans peerAddr) nd.nextTrans o.recv₁ o.recv₂
    exact hn.trans (requestRegister_frame ..).2.2.1

/-- A request leaves the process as it is, or it creates a transport. -/
theorem onCmConnectRequest_creates (nd : Node) (cm : CmId) (peerAddr : String)
    (o : RequestOutcome) : (onCmConnectRequest nd cm peerAddr o).1 = nd ∨
      (onCmConnectRequest nd cm peerAddr o).1.nextTrans = nd.nextTrans + 1 := by
  cases h : o.create with
  | false => exact .inl (by simp [onCmConnectRequest, requestTransport_eq, h])
  | true => exact .inr (onCmConnectRequest_adds h)

/-- The entry that a request stores is the transport it has created. -/
theorem onCmConnectRequest_table (nd : Node) (cm : CmId) (peerAddr : String) (o : RequestOutcome) :
    (onCmConnectRequest nd cm peerAddr o).1.dramMempool = nd.dramMempool ∧
      nd.nextTrans ≤ (onCmConnectRequest nd cm peerAddr o).1.nextTrans ∧
      ∀ k t, (onCmConnectRequest nd cm peerAddr o).1.connectTrans k = some t →
        nd.connectTrans k = some t ∨
          nd.nextTrans ≤ t ∧ t < (onCmConnectRequest nd cm peerAddr o).1.nextTrans := by
  rcases onCmConnectRequest_cases nd cm peerAddr o with ⟨-, he⟩ | ⟨nd₂, rfl, ⟨-, he⟩ | ⟨-, he⟩⟩ <;>
    rw [he]
  · obtain ⟨-, hp, hc, hn, -⟩ := requestTransport_frame nd cm o
    exact ⟨hp, hn, fun k t h => .inl (hc ▸ h)⟩
  all_goals
    obtain ⟨hc, hn, -, hp⟩ := hmpPrePostRecv_frame
      (requestRegister (withRequestQp nd cm o) nd.nextTrans peerAddr) nd.nextTrans o.recv₁ o.recv₂
    obtain ⟨-, hp', hn', -⟩ := requestRegister_frame (withRequestQp nd cm o) nd.nextTrans peerAddr
    have hnext := hn.trans hn'
    refine ⟨hp.trans hp', hnext ▸ Nat.le_succ _, fun k t h => ?_⟩
    refine (requestRegister_entry ((congrFun hc k).symm.trans h)).imp_right ?_
    rintro rfl
    exact ⟨le_rfl, hnext ▸ Nat.lt_succ_self _⟩

theorem onCmRouteResolved_frame (nd : Node) (t : ℕ) (o : RouteOutcome) :
    (onCmRouteResolved nd t o).1.connectTrans = nd.connectTrans ∧
      (onCmRouteResolved nd t o).1.nextTrans = nd.nextTrans := by
  have hp := hmpPrePostRecv_frame (nd.setQp t { live := true, registered := true }) t o.recv₁ o.recv₂
  rcases onCmRouteResolved_cases nd t o with ⟨-, he⟩ | ⟨-, -, he⟩ | ⟨-, -, he⟩ <;> rw [he]
  · exact ⟨rfl, rfl⟩
  · unfold hmpQpRelease
    split_ifs <;> exact ⟨hp.1, hp.2.1⟩
  · exact ⟨hp.1, hp.2.1⟩

/-- No handler of a CM event loses a transport, or puts another than a new one into the table. -/
theorem hmpHandleEcEvent_table {nd : Node} (t : ℕ) (e : CmEvent) (h : nd.TableOk) :
    nd.nextTrans ≤ (hmpHandleEcEvent nd t e).1.nextTrans ∧ (hmpHandleEcEvent nd t e).1.TableOk := by
  cases e with
  | addrResolved verbs route =>
    rw [hmpHandleEcEvent, onCmAddrResolved_eq]
    exact ⟨le_rfl, h.congr rfl rfl⟩
  | routeResolved o =>
    obtain ⟨hc, hn⟩ := onCmRouteResolved_frame nd t o
    exact ⟨hn.ge, h.congr hc hn⟩
  | connectRequest cm peerAddr o =>
    obtain ⟨-, hn, hc⟩ := onCmConnectRequest_table nd cm peerAddr o
    exact ⟨hn, fun k u hu => (hc k u hu).elim (fun hu => (h k u hu).trans_le hn) And.right⟩
  | established peer o => exact ⟨by simp [hmpHandleEcEvent, onCmEstablished],
      h.congr (by simp [hmpHandleEcEvent, onCmEstablished])
        (by simp [hmpHandleEcEvent, onCmEstablished])⟩
  | disconnected => exact ⟨le_rfl, h.congr rfl rfl⟩
  | other type =>
    obtain ⟨type, _⟩ := type
    cases type <;> exact ⟨le_rfl, h.congr rfl rfl⟩

end HMP
