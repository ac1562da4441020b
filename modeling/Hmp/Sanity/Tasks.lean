import Hmp.Sanity.Node
import Hmp.Spec.Attempt

/-! A completion carries the pointer to its task, and the success handler takes
the transport from there. So every handler rests on one fact: a request or a
completion of a transport names a task of that transport. -/

namespace HMP

namespace Node

/-- No task is lost or moved to another transport. -/
structure KeepsTasks (nd nd' : Node) : Prop where
  nextTask : nd.nextTask ≤ nd'.nextTask
  rdmaTrans : ∀ p < nd.nextTask, (nd'.task p).rdmaTrans = (nd.task p).rdmaTrans

theorem KeepsTasks.same {nd nd' : Node} (h₁ : nd'.nextTask = nd.nextTask)
    (h₂ : nd'.task = nd.task) : nd.KeepsTasks nd' :=
  ⟨h₁.ge, fun p _ => by rw [h₂]⟩

/-- The tasks there are stay as they are. -/
structure AddsTasks (nd nd' : Node) : Prop where
  nextTask : nd.nextTask ≤ nd'.nextTask
  task : ∀ p < nd.nextTask, nd'.task p = nd.task p

theorem AddsTasks.same {nd nd' : Node} (h₁ : nd'.nextTask = nd.nextTask)
    (h₂ : nd'.task = nd.task) : nd.AddsTasks nd' :=
  ⟨h₁.ge, fun p _ => by rw [h₂]⟩

theorem AddsTasks.trans {nd nd₁ nd₂ : Node} (h₁ : nd.AddsTasks nd₁) (h₂ : nd₁.AddsTasks nd₂) :
    nd.AddsTasks nd₂ :=
  ⟨h₁.nextTask.trans h₂.nextTask,
    fun p hp => (h₂.task p (hp.trans_le h₁.nextTask)).trans (h₁.task p hp)⟩

theorem AddsTasks.keeps {nd nd' : Node} (h : nd.AddsTasks nd') : nd.KeepsTasks nd' :=
  ⟨h.nextTask, fun p hp => by rw [h.task p hp]⟩

theorem KeepsTasks.owns {nd nd' : Node} (h : nd.KeepsTasks nd') {t p : ℕ} (hp : nd.Owns t p) :
    nd'.Owns t p :=
  ⟨hp.1.trans_le h.nextTask, (h.rdmaTrans p hp.1).trans hp.2⟩

/-- Queues may lose entries and gain those that name a task of `t`. -/
theorem KeepsTasks.tasksOk_of {nd nd' : Node} (h : nd.KeepsTasks nd') {t : ℕ} (ht : nd.TasksOk t)
    (hr : ∀ wr ∈ (nd'.qp t).rq, wr ∈ (nd.qp t).rq ∨ nd'.Owns t wr.wrId)
    (hs : ∀ wr ∈ (nd'.qp t).sq, wr ∈ (nd.qp t).sq ∨ nd'.Owns t wr.wrId)
    (hc : ∀ wc ∈ (nd'.qp t).cq, wc ∈ (nd.qp t).cq ∨ nd'.Owns t wc.wrId) : nd'.TasksOk t where
  rq := fun wr hw => (hr wr hw).elim (fun hw => h.owns (ht.rq wr hw)) id
  sq := fun wr hw => (hs wr hw).elim (fun hw => h.owns (ht.sq wr hw)) id
  cq := fun wc hw => (hc wc hw).elim (fun hw => h.owns (ht.cq wc hw)) id

theorem KeepsTasks.tasksOk {nd nd' : Node} (h : nd.KeepsTasks nd') {t : ℕ}
    (hq : nd'.qp t = nd.qp t) (ht : nd.TasksOk t) : nd'.TasksOk t :=
  h.tasksOk_of ht (fun _ hw => .inl (hq ▸ hw)) (fun _ hw => .inl (hq ▸ hw))
    (fun _ hw => .inl (hq ▸ hw))

theorem TasksOk.congr {nd nd' : Node} {t : ℕ} (h : nd.TasksOk t) (hn : nd'.nextTask = nd.nextTask)
    (ht : nd'.task = nd.task) (hq : nd'.qp t = nd.qp t) : nd'.TasksOk t :=
  (KeepsTasks.same hn ht).tasksOk hq h

theorem tasksOk_of_default {nd : Node} {t : ℕ} (h : nd.qp t = {}) : nd.TasksOk t := by
  constructor <;> simp [h]

end Node

theorem hmpPostRecv_addsTasks (nd : Node) (t : ℕ) (o : PostOutcome) :
    nd.AddsTasks (hmpPostRecv nd t o) := by
  unfold hmpPostRecv
  split_ifs with ht he
  · exact ⟨Nat.le_succ _, fun p hp => by simp [hmpRecvTaskCreate, Node.allocTask, hp.ne]⟩
  · exact ⟨Nat.le_succ _, fun p hp => by simp [hmpRecvTaskCreate, Node.allocTask, hp.ne]⟩
  · exact .same rfl rfl

theorem hmpPostSend_addsTasks (nd : Node) (t : ℕ) (msg : HmpMsg) (o : PostOutcome) :
    nd.AddsTasks (hmpPostSend nd t msg o) := by
  unfold hmpPostSend
  split_ifs with ht he
  · exact ⟨Nat.le_succ _, fun p hp => by simp [hmpSendTaskCreate, Node.allocTask, hp.ne]⟩
  · exact ⟨Nat.le_succ _, fun p hp => by simp [hmpSendTaskCreate, Node.allocTask, hp.ne]⟩
  · exact .same rfl rfl

theorem PostOutcome.posted_iff (o : PostOutcome) : o.posted = true ↔ o.task = true ∧ o.err = 0 := by
  simp [PostOutcome.posted]

/-- The request `hmp_post_recv` hands over, if the verbs library takes it. -/
theorem hmpPostRecv_qp (nd : Node) (t : ℕ) (o : PostOutcome) :
    (hmpPostRecv nd t o).qp =
      if o.task = true ∧ o.err = 0 then
        Function.update nd.qp t { nd.qp t with rq := (nd.qp t).rq ++
          [{ wrId := nd.nextTask, sge := ((hmpPostRecv nd t o).task nd.nextTask).sge }] }
      else nd.qp := by
  unfold hmpPostRecv
  by_cases ht : o.task = true <;> by_cases he : o.err = 0 <;>
    simp [ht, he, hmpRecvTaskCreate, Node.allocTask]

theorem hmpPostSend_qp (nd : Node) (t : ℕ) (msg : HmpMsg) (o : PostOutcome) :
    (hmpPostSend nd t msg o).qp =
      if o.task = true ∧ o.err = 0 then
        Function.update nd.qp t { nd.qp t with sq := (nd.qp t).sq ++
          [{ wrId := nd.nextTask, opcode := .send
             sge := ((hmpPostSend nd t msg o).task nd.nextTask).sge }] }
      else nd.qp := by
  unfold hmpPostSend
  by_cases ht : o.task = true <;> by_cases he : o.err = 0 <;>
    simp [ht, he, hmpSendTaskCreate, Node.allocTask]

@[simp] theorem hmpPostRecv_sq (nd : Node) (t : ℕ) (o : PostOutcome) (u : ℕ) :
    ((hmpPostRecv nd t o).qp u).sq = (nd.qp u).sq := by
  rw [hmpPostRecv_qp]
  split_ifs
  · by_cases hut : u = t
    · subst hut
      rw [Function.update_self]
    · rw [Function.update_of_ne hut]
  · rfl

/-- A receive goes to the current slot of the ring. -/
theorem hmpPostRecv_rq (nd : Node) (t : ℕ) (o : PostOutcome) :
    ((hmpPostRecv nd t o).qp t).rq = (nd.qp t).rq ++
      if o.posted then [{ wrId := nd.nextTask, sge := {
        addr := (nd.trans t).region.recvAddr + (nd.trans t).region.curRecv * HMP_TASK_SIZE
        length := HMP_TASK_SIZE, lkey := nd.lkey } }] else [] := by
  simp only [o.posted_iff]
  rw [hmpPostRecv_qp]
  split_ifs with h
  · rw [Function.update_self, hmpPostRecv_task nd t o h.1]
  · rw [List.append_nil]

theorem hmpPostRecv_owns (nd : Node) (t : ℕ) (o : PostOutcome) (h : o.task = true) :
    (hmpPostRecv nd t o).Owns t nd.nextTask := by
  unfold hmpPostRecv
  rw [if_pos h]
  split_ifs <;> simp [Node.Owns, hmpRecvTaskCreate, Node.allocTask]

theorem hmpPostSend_owns (nd : Node) (t : ℕ) (msg : HmpMsg) (o : PostOutcome) (h : o.task = true) :
    (hmpPostSend nd t msg o).Owns t nd.nextTask := by
  unfold hmpPostSend
  rw [if_pos h]
  split_ifs <;> simp [Node.Owns, hmpSendTaskCreate, Node.allocTask]

theorem hmpPostRecv_tasksOk {nd : Node} {t : ℕ} (u : ℕ) (o : PostOutcome) (h : nd.TasksOk t) :
    (hmpPostRecv nd u o).TasksOk t := by
  have hk := (hmpPostRecv_addsTasks nd u o).keeps
  have hq := hmpPostRecv_qp nd u o
  split_ifs at hq with ho
  · by_cases htu : t = u
    · subst htu
      have hqt := congrFun hq t
      rw [Function.update_self] at hqt
      refine hk.tasksOk_of h (fun wr hw => ?_) (fun wr hw => ?_) (fun wc hw => ?_)
      · rw [hqt, List.mem_append, List.mem_singleton] at hw
        rcases hw with hw | rfl
        · exact .inl hw
        · exact .inr (hmpPostRecv_owns nd t o ho.1)
      · exact .inl (by rwa [hqt] at hw)
      · exact .inl (by rwa [hqt] at hw)
    · exact hk.tasksOk (by rw [hq, Function.update_of_ne htu]) h
  · exact hk.tasksOk (by rw [hq]) h

theorem hmpPostSend_tasksOk {nd : Node} {t : ℕ} (u : ℕ) (msg : HmpMsg) (o : PostOutcome)
    (h : nd.TasksOk t) : (hmpPostSend nd u msg o).TasksOk t := by
  have hk := (hmpPostSend_addsTasks nd u msg o).keeps
  have hq := hmpPostSend_qp nd u msg o
  split_ifs at hq with ho
  · by_cases htu : t = u
    · subst htu
      have hqt := congrFun hq t
      rw [Function.update_self] at hqt
      refine hk.tasksOk_of h (fun wr hw => ?_) (fun wr hw => ?_) (fun wc hw => ?_)
      · exact .inl (by rwa [hqt] at hw)
      · rw [hqt, List.mem_append, List.mem_singleton] at hw
        rcases hw with hw | rfl
        · exact .inl hw
        · exact .inr (hmpPostSend_owns nd t msg o ho.1)
      · exact .inl (by rwa [hqt] at hw)
    · exact hk.tasksOk (by rw [hq, Function.update_of_ne htu]) h
  · exact hk.tasksOk (by rw [hq]) h

theorem hmpPrePostRecv_tasksOk {nd : Node} {t : ℕ} (u : ℕ) (o₁ o₂ : PostOutcome)
    (h : nd.TasksOk t) : (hmpPrePostRecv nd u o₁ o₂).TasksOk t :=
  hmpPostRecv_tasksOk u o₂ (hmpPostRecv_tasksOk u o₁ h)

theorem setQp_default_tasksOk {nd : Node} {t : ℕ} (u : ℕ) {q : VerbsQp} (hr : q.rq = [])
    (hs : q.sq = []) (hc : q.cq = []) (h : nd.TasksOk t) : (nd.setQp u q).TasksOk t := by
  by_cases htu : t = u
  · subst htu
    constructor <;> simp [hr, hs, hc]
  · exact h.congr rfl rfl (by simp [htu])

theorem hmpQpRelease_tasksOk {nd : Node} {t : ℕ} (u : ℕ) (h : nd.TasksOk t) :
    (hmpQpRelease nd u).TasksOk t := by
  unfold hmpQpRelease
  split_ifs
  · exact setQp_default_tasksOk u rfl rfl rfl h
  · exact h

theorem onCmRouteResolved_tasksOk {nd : Node} {t : ℕ} (u : ℕ) (o : RouteOutcome)
    (h : nd.TasksOk t) : (onCmRouteResolved nd u o).1.TasksOk t := by
  have hp := hmpPrePostRecv_tasksOk u o.recv₁ o.recv₂
    (setQp_default_tasksOk u (q := { live := true, registered := true }) rfl rfl rfl h)
  rcases onCmRouteResolved_cases nd u o with ⟨-, he⟩ | ⟨-, -, he⟩ | ⟨-, -, he⟩ <;> rw [he]
  · exact h
  · exact (hmpQpRelease_tasksOk u hp).congr rfl rfl rfl
  · exact hp

/-! ## What a handler leaves of the queue pair of another transport -/

/-- Nothing is taken from the queues of `t`. -/
structure Node.QueueGrows (nd nd' : Node) (t : ℕ) : Prop where
  adds : nd.AddsTasks nd'
  registered : (nd'.qp t).registered = (nd.qp t).registered
  sq : (nd.qp t).sq <+: (nd'.qp t).sq
  cq : (nd'.qp t).cq = (nd.qp t).cq

theorem Node.QueueGrows.same {nd nd' : Node} {t : ℕ} (ha : nd.AddsTasks nd')
    (hq : nd'.qp t = nd.qp t) : nd.QueueGrows nd' t :=
  ⟨ha, by rw [hq], by rw [hq], by rw [hq]⟩

theorem Node.QueueGrows.trans {nd nd₁ nd₂ : Node} {t : ℕ} (h₁ : nd.QueueGrows nd₁ t)
    (h₂ : nd₁.QueueGrows nd₂ t) : nd.QueueGrows nd₂ t :=
  ⟨h₁.adds.trans h₂.adds, h₂.registered.trans h₁.registered, h₁.sq.trans h₂.sq,
    h₂.cq.trans h₁.cq⟩

theorem hmpPostRecv_grows (nd : Node) (t u : ℕ) (o : PostOutcome) :
    nd.QueueGrows (hmpPostRecv nd u o) t := by
  have ha := hmpPostRecv_addsTasks nd u o
  have hq := congrFun (hmpPostRecv_qp nd u o) t
  split_ifs at hq
  · by_cases htu : t = u
    · subst htu
      rw [Function.update_self] at hq
      exact ⟨ha, by rw [hq], by rw [hq], by rw [hq]⟩
    · exact .same ha (by rw [hq, Function.update_of_ne htu])
  · exact .same ha hq

theorem hmpPostSend_grows (nd : Node) (t u : ℕ) (msg : HmpMsg) (o : PostOutcome) :
    nd.QueueGrows (hmpPostSend nd u msg o) t := by
  have ha := hmpPostSend_addsTasks nd u msg o
  have hq := congrFun (hmpPostSend_qp nd u msg o) t
  split_ifs at hq
  · by_cases htu : t = u
    · subst htu
      rw [Function.update_self] at hq
      exact ⟨ha, by rw [hq], by rw [hq]; exact List.prefix_append _ _, by rw [hq]⟩
    · exact .same ha (by rw [hq, Function.update_of_ne htu])
  · exact .same ha hq

theorem hmpPrePostRecv_grows (nd : Node) (t u : ℕ) (o₁ o₂ : PostOutcome) :
    nd.QueueGrows (hmpPrePostRecv nd u o₁ o₂) t :=
  (hmpPostRecv_grows nd t u o₁).trans (hmpPostRecv_grows _ t u o₂)

theorem setQp_grows (nd : Node) {t u : ℕ} (q : VerbsQp) (h : t ≠ u) :
    nd.QueueGrows (nd.setQp u q) t :=
  .same (.same rfl rfl) (by simp [h])

theorem hmpQpRelease_grows (nd : Node) {t u : ℕ} (h : t ≠ u) :
    nd.QueueGrows (hmpQpRelease nd u) t := by
  unfold hmpQpRelease
  split_ifs
  · exact setQp_grows nd _ h
  · exact .same (.same rfl rfl) rfl

theorem onCmRouteResolved_grows (nd : Node) {t u : ℕ} (o : RouteOutcome) (h : t ≠ u) :
    nd.QueueGrows (onCmRouteResolved nd u o).1 t := by
  have hp := (setQp_grows nd { live := true, registered := true } h).trans
    (hmpPrePostRecv_grows _ t u o.recv₁ o.recv₂)
  rcases onCmRouteResolved_cases nd u o with ⟨-, he⟩ | ⟨-, -, he⟩ | ⟨-, -, he⟩ <;> rw [he]
  · exact .same (.same rfl rfl) rfl
  · exact hp.trans ((hmpQpRelease_grows _ h).trans (.same (.same rfl rfl) rfl))
  · exact hp

theorem withRequest_grows (nd : Node) (t : ℕ) (cm : CmId) (d : Option HmpDevice) :
    nd.QueueGrows (withRequest nd cm d) t :=
  .same (.same rfl rfl) rfl

theorem requestRegister_grows (nd : Node) (t u : ℕ) (peerAddr : String) :
    nd.QueueGrows (requestRegister nd u peerAddr) t := by
  unfold requestRegister
  split <;> exact .same (.same rfl rfl) rfl

theorem onCmConnectRequest_grows (nd : Node) {t : ℕ} (cm : CmId) (peerAddr : String)
    (o : RequestOutcome) (h : t ≠ nd.nextTrans) :
    nd.QueueGrows (onCmConnectRequest nd cm peerAddr o).1 t := by
  have hw := withRequest_grows nd t cm (hmpDeviceLookup nd o.verbs)
  have hq := hw.trans (setQp_grows _ { live := true, registered := true } h)
  rcases onCmConnectRequest_cases nd cm peerAddr o with ⟨-, he⟩ | ⟨nd₂, rfl, ⟨-, he⟩ | ⟨-, he⟩⟩ <;>
    rw [he]
  · rcases requestTransport_cases nd cm o with h' | h' | h' <;> rw [h']
    · exact .same (.same rfl rfl) rfl
    · exact hw
    · exact hq
  · exact hq.trans ((requestRegister_grows _ t _ _).trans (hmpPrePostRecv_grows _ t _ _ _))
  · exact hq.trans ((requestRegister_grows _ t _ _).trans
      ((hmpPrePostRecv_grows _ t _ _ _).trans (.same (.same rfl rfl) rfl)))

/-- The handlers of CM events take nothing from the queues of a transport that has a queue
pair already and is not disconnected. -/
theorem hmpHandleEcEvent_grows (nd : Node) {t : ℕ} (u : ℕ) (e : CmEvent)
    (hreq : t ≠ nd.nextTrans) (hroute : e.type = .routeResolved → t ≠ u)
    (hdisc : e = .disconnected → t ≠ u) : nd.QueueGrows (hmpHandleEcEvent nd u e).1 t := by
  cases e with
  | addrResolved verbs route =>
    rw [hmpHandleEcEvent, onCmAddrResolved_eq]
    exact .same (.same rfl rfl) rfl
  | routeResolved o => exact onCmRouteResolved_grows nd o (hroute rfl)
  | connectRequest cm peerAddr o => exact onCmConnectRequest_grows nd cm peerAddr o hreq
  | established peer o =>
    have h₁ : nd.QueueGrows (nd.setTrans u { nd.trans u with peerAddr := peer }) t :=
      .same (.same rfl rfl) rfl
    exact h₁.trans (hmpPostSend_grows _ t u _ o)
  | disconnected => exact setQp_grows nd _ (hdisc rfl)
  | other type =>
    obtain ⟨type, _⟩ := type
    cases type <;> exact .same (.same rfl rfl) rfl

theorem hmpHandleEcEvent_adds (nd : Node) (u : ℕ) (e : CmEvent) :
    nd.AddsTasks (hmpHandleEcEvent nd u e).1 := by
  -- the queue pair of a transport that no handler touches
  refine (hmpHandleEcEvent_grows nd (t := u + nd.nextTrans + 1) u e ?_ ?_ ?_).adds <;> omega

/-! ## What a handler adds to the queues -/

/-- Task `p` of transport `t` is new. -/
def Node.NewTask (nd nd' : Node) (t p : ℕ) : Prop := nd.nextTask ≤ p ∧ nd'.Owns t p

/-- The queues gain messages with new tasks, and neither a transfer nor a completion. -/
structure Node.AddsMessages (nd nd' : Node) : Prop where
  tasks : nd.AddsTasks nd'
  rq : ∀ t, ∀ wr ∈ (nd'.qp t).rq, wr ∈ (nd.qp t).rq ∨ nd.NewTask nd' t wr.wrId
  sq : ∀ t, ∀ wr ∈ (nd'.qp t).sq,
    wr ∈ (nd.qp t).sq ∨ wr.opcode = .send ∧ nd.NewTask nd' t wr.wrId
  cq : ∀ t, ∀ wc ∈ (nd'.qp t).cq, wc ∈ (nd.qp t).cq

namespace Node.AddsMessages

variable {nd nd₁ nd₂ : Node}

theorem same (ha : nd.AddsTasks nd₁) (h : nd₁.qp = nd.qp) : nd.AddsMessages nd₁ :=
  ⟨ha, fun _ _ hw => .inl (h ▸ hw), fun _ _ hw => .inl (h ▸ hw), fun _ _ hw => h ▸ hw⟩

theorem trans (h₁ : nd.AddsMessages nd₁) (h₂ : nd₁.AddsMessages nd₂) : nd.AddsMessages nd₂ := by
  have hold : ∀ {t p}, nd.NewTask nd₁ t p → nd.NewTask nd₂ t p :=
    fun hn => ⟨hn.1, h₂.tasks.keeps.owns hn.2⟩
  have hnew : ∀ {t p}, nd₁.NewTask nd₂ t p → nd.NewTask nd₂ t p :=
    fun hn => ⟨h₁.tasks.nextTask.trans hn.1, hn.2⟩
  refine ⟨h₁.tasks.trans h₂.tasks, fun t wr hw => ?_, fun t wr hw => ?_,
    fun t wc hw => h₁.cq t wc (h₂.cq t wc hw)⟩
  · exact (h₂.rq t wr hw).elim (fun hw => (h₁.rq t wr hw).imp_right hold) fun hn => .inr (hnew hn)
  · exact (h₂.sq t wr hw).elim (fun hw => (h₁.sq t wr hw).imp_right fun hn => ⟨hn.1, hold hn.2⟩)
      fun hn => .inr ⟨hn.1, hnew hn.2⟩

/-- One queue pair is replaced. -/
theorem of_update {t : ℕ} {q : VerbsQp} (ha : nd.AddsTasks nd₁)
    (h : nd₁.qp = Function.update nd.qp t q)
    (hr : ∀ wr ∈ q.rq, wr ∈ (nd.qp t).rq ∨ nd.NewTask nd₁ t wr.wrId)
    (hs : ∀ wr ∈ q.sq, wr ∈ (nd.qp t).sq ∨ wr.opcode = .send ∧ nd.NewTask nd₁ t wr.wrId)
    (hc : ∀ wc ∈ q.cq, wc ∈ (nd.qp t).cq) : nd.AddsMessages nd₁ := by
  refine ⟨ha, ?_, ?_, ?_⟩ <;> intro u w hw <;> rw [h] at hw <;> by_cases hu : u = t
  · subst hu
    rw [Function.update_self] at hw
    exact hr w hw
  · rw [Function.update_of_ne hu] at hw
    exact .inl hw
  · subst hu
    rw [Function.update_self] at hw
    exact hs w hw
  · rw [Function.update_of_ne hu] at hw
    exact .inl hw
  · subst hu
    rw [Function.update_self] at hw
    exact hc w hw
  · rw [Function.update_of_ne hu] at hw
    exact hw

end Node.AddsMessages

theorem hmpPostRecv_addsMessages (nd : Node) (t : ℕ) (o : PostOutcome) :
    nd.AddsMessages (hmpPostRecv nd t o) := by
  have ha := hmpPostRecv_addsTasks nd t o
  have hq := hmpPostRecv_qp nd t o
  split_ifs at hq with ho
  · refine .of_update ha hq (fun wr hw => ?_) (fun wr hw => .inl hw) fun wc hw => hw
    rw [List.mem_append, List.mem_singleton] at hw
    refine hw.imp_right ?_
    rintro rfl
    exact ⟨le_rfl, hmpPostRecv_owns nd t o ho.1⟩
  · exact .same ha hq

theorem hmpPostSend_addsMessages (nd : Node) (t : ℕ) (msg : HmpMsg) (o : PostOutcome) :
    nd.AddsMessages (hmpPostSend nd t msg o) := by
  have ha := hmpPostSend_addsTasks nd t msg o
  have hq := hmpPostSend_qp nd t msg o
  split_ifs at hq with ho
  · refine .of_update ha hq (fun wr hw => .inl hw) (fun wr hw => ?_) fun wc hw => hw
    rw [List.mem_append, List.mem_singleton] at hw
    refine hw.imp_right ?_
    rintro rfl
    exact ⟨rfl, le_rfl, hmpPostSend_owns nd t msg o ho.1⟩
  · exact .same ha hq

theorem hmpPrePostRecv_addsMessages (nd : Node) (t : ℕ) (o₁ o₂ : PostOutcome) :
    nd.AddsMessages (hmpPrePostRecv nd t o₁ o₂) :=
  (hmpPostRecv_addsMessages nd t o₁).trans (hmpPostRecv_addsMessages _ t o₂)

theorem setQp_addsMessages (nd : Node) (t : ℕ) {q : VerbsQp} (hr : q.rq = []) (hs : q.sq = [])
    (hc : q.cq = []) : nd.AddsMessages (nd.setQp t q) :=
  .of_update (.same rfl rfl) rfl (by simp [hr]) (by simp [hs]) (by simp [hc])

theorem hmpQpRelease_addsMessages (nd : Node) (t : ℕ) : nd.AddsMessages (hmpQpRelease nd t) := by
  unfold hmpQpRelease
  split_ifs
  · exact setQp_addsMessages nd t rfl rfl rfl
  · exact .same (.same rfl rfl) rfl

theorem onCmRouteResolved_addsMessages (nd : Node) (t : ℕ) (o : RouteOutcome) :
    nd.AddsMessages (onCmRouteResolved nd t o).1 := by
  have hp := (setQp_addsMessages nd t (q := { live := true, registered := true }) rfl rfl rfl).trans
    (hmpPrePostRecv_addsMessages _ t o.recv₁ o.recv₂)
  rcases onCmRouteResolved_cases nd t o with ⟨-, he⟩ | ⟨-, -, he⟩ | ⟨-, -, he⟩ <;> rw [he]
  · exact .same (.same rfl rfl) rfl
  · exact hp.trans ((hmpQpRelease_addsMessages _ t).trans (.same (.same rfl rfl) rfl))
  · exact hp

theorem requestRegister_addsMessages (nd : Node) (t : ℕ) (peerAddr : String) :
    nd.AddsMessages (requestRegister nd t peerAddr) := by
  unfold requestRegister
  split <;> exact .same (.same rfl rfl) rfl

theorem onCmConnectRequest_addsMessages (nd : Node) (cm : CmId) (peerAddr : String)
    (o : RequestOutcome) : nd.AddsMessages (onCmConnectRequest nd cm peerAddr o).1 := by
  have hw : nd.AddsMessages (withRequest nd cm (hmpDeviceLookup nd o.verbs)) :=
    .same (.same rfl rfl) rfl
  have hq := hw.trans (setQp_addsMessages _ nd.nextTrans
    (q := { live := true, registered := true }) rfl rfl rfl)
  rcases onCmConnectRequest_cases nd cm peerAddr o with ⟨-, he⟩ | ⟨nd₂, rfl, ⟨-, he⟩ | ⟨-, he⟩⟩ <;>
    rw [he]
  · rcases requestTransport_cases nd cm o with h' | h' | h' <;> rw [h']
    · exact .same (.same rfl rfl) rfl
    · exact hw
    · exact hq
  · exact hq.trans ((requestRegister_addsMessages _ _ _).trans (hmpPrePostRecv_addsMessages _ _ _ _))
  · exact hq.trans ((requestRegister_addsMessages _ _ _).trans
      ((hmpPrePostRecv_addsMessages _ _ _ _).trans (.same (.same rfl rfl) rfl)))

theorem hmpHandleEcEvent_addsMessages (nd : Node) (t : ℕ) (e : CmEvent) :
    nd.AddsMessages (hmpHandleEcEvent nd t e).1 := by
  cases e with
  | addrResolved verbs route =>
    rw [hmpHandleEcEvent, onCmAddrResolved_eq]
    exact .same (.same rfl rfl) rfl
  | routeResolved o => exact onCmRouteResolved_addsMessages nd t o
  | connectRequest cm peerAddr o => exact onCmConnectRequest_addsMessages nd cm peerAddr o
  | established peer o =>
    have h₁ : nd.AddsMessages (nd.setTrans t { nd.trans t with peerAddr := peer }) :=
      .same (.same rfl rfl) rfl
    exact h₁.trans (hmpPostSend_addsMessages _ t _ o)
  | disconnected =>
    exact .of_update (.same rfl rfl) rfl (fun wr hw => .inl hw) (fun wr hw => .inl hw)
      fun wc hw => hw
  | other type =>
    obtain ⟨type, _⟩ := type
    cases type <;> exact .same (.same rfl rfl) rfl

/-! ## Completions -/

theorem dispatchWc_init {nd : Node} {wc : IbvWc} (hs : wc.status = .success)
    (hi : isInitMsg nd wc = true) :
    dispatchWc nd wc = hmpHandleMrMsg nd (nd.task wc.wrId).rdmaTrans
      ((nd.task wc.wrId).sge.addr + HEADER_SIZE) := by
  have ho : wc.opcode = .recv := by
    simp only [isInitMsg, decide_eq_true_eq] at hi
    exact hi.1
  simp [dispatchWc, hmpWcSuccessHandler, hs, ho, hi]

theorem dispatchWc_read {nd : Node} {wc : IbvWc} (hs : wc.status = .success)
    (ho : wc.opcode = .rdmaRead) :
    dispatchWc nd wc = nd.setTask wc.wrId { nd.task wc.wrId with type := .done } := by
  simp [dispatchWc, hmpWcSuccessHandler, hs, ho]

/-- Only two kinds of completions have an effect. -/
theorem dispatchWc_cases (nd : Node) (wc : IbvWc) :
    dispatchWc nd wc = nd ∨
      (wc.status = .success ∧ isInitMsg nd wc = true ∧
        dispatchWc nd wc = hmpHandleMrMsg nd (nd.task wc.wrId).rdmaTrans
          ((nd.task wc.wrId).sge.addr + HEADER_SIZE)) ∨
      (wc.status = .success ∧ wc.opcode = .rdmaRead ∧
        dispatchWc nd wc = nd.setTask wc.wrId { nd.task wc.wrId with type := .done }) := by
  by_cases hs : wc.status = .success
  · by_cases hi : isInitMsg nd wc = true
    · exact .inr (.inl ⟨hs, hi, dispatchWc_init hs hi⟩)
    · by_cases ho : wc.opcode = .rdmaRead
      · exact .inr (.inr ⟨hs, ho, dispatchWc_read hs ho⟩)
      · left
        cases h : wc.opcode <;> simp_all [dispatchWc, hmpWcSuccessHandler]
  · left
    simp [dispatchWc, hmpWcErrorHandler, hs]

/-- A handled completion leaves the queues and the heap as they are. -/
theorem dispatchWc_frame (nd : Node) (wc : IbvWc) :
    (dispatchWc nd wc).qp = nd.qp ∧ (dispatchWc nd wc).nextTask = nd.nextTask ∧
      (dispatchWc nd wc).nextTrans = nd.nextTrans ∧
      (dispatchWc nd wc).connectTrans = nd.connectTrans ∧ (dispatchWc nd wc).mem = nd.mem ∧
      (dispatchWc nd wc).dramMempool = nd.dramMempool ∧ (dispatchWc nd wc).stop = nd.stop := by
  rcases dispatchWc_cases nd wc with h | ⟨-, -, h⟩ | ⟨-, -, h⟩ <;> rw [h] <;>
    exact ⟨rfl, rfl, rfl, rfl, rfl, rfl, rfl⟩

theorem dispatchWc_curnodeId (nd : Node) (wc : IbvWc) :
    (dispatchWc nd wc).config.curnodeId = nd.config.curnodeId := by
  rcases dispatchWc_cases nd wc with h | ⟨-, -, h⟩ | ⟨-, -, h⟩ <;> rw [h] <;> rfl

theorem dispatchWc_keepsTasks (nd : Node) (wc : IbvWc) : nd.KeepsTasks (dispatchWc nd wc) := by
  rcases dispatchWc_cases nd wc with h | ⟨-, -, h⟩ | ⟨-, -, h⟩ <;> rw [h]
  · exact .same rfl rfl
  · exact .same rfl rfl
  · refine ⟨le_rfl, fun p _ => ?_⟩
    by_cases hp : p = wc.wrId
    · subst hp; simp
    · simp [hp]

end HMP
