import Hmp.Sanity.Tasks
import Hmp.Spec.Attempt

/-! What the steps of a connection attempt do to `trans_state` and to the queue
pair, and the invariant of the runs in which the event thread does not overtake
the main thread. -/

namespace HMP

/-- `rdma_resolve_addr` has not been called. -/
def ConnectPc.early : ConnectPc → Bool
  | .entry | .createId | .resolveAddr => true
  | _ => false

namespace Attempt

/-! ## The handlers -/

theorem onCmAddrResolved_state (nd : Node) (t verbs : ℕ) (route : ℤ) :
    ((onCmAddrResolved nd t verbs route).1.trans t).transState = (nd.trans t).transState := by
  rw [onCmAddrResolved_eq]
  simp

theorem onCmRouteResolved_state (nd : Node) (t : ℕ) (o : RouteOutcome) :
    ((onCmRouteResolved nd t o).1.trans t).transState =
      if o.qp = 0 ∧ o.connect ≠ 0 then .error else (nd.trans t).transState := by
  rcases onCmRouteResolved_cases nd t o with ⟨hq, he⟩ | ⟨hq, hc, he⟩ | ⟨hq, hc, he⟩ <;> rw [he]
  · simp [hq]
  · simp [hq, hc]
  · simp [hq, hc, hmpPrePostRecv]

theorem onCmEstablished_state (nd : Node) (t : ℕ) (peer : SockAddr) (o : PostOutcome) :
    ((onCmEstablished nd t peer o).1.trans t).transState = (nd.trans t).transState := by
  simp [onCmEstablished]

theorem ecError_state (nd : Node) (t : ℕ) (type : RdmaCmEventType) :
    ((ecError nd t type).1.trans t).transState =
      if type = .connectError then .error else (nd.trans t).transState := by
  unfold ecError
  cases type <;> simp

/-- A CM event other than a request leaves `trans_state` alone or stores ERROR. -/
theorem handle_state (s : Attempt) {e : CmEvent} (he : e.type ≠ .connectRequest) :
    ((hmpHandleEcEvent s.node s.t e).1.trans s.t).transState = s.transState ∨
      s.storesState (.handle e) = true ∧
        ((hmpHandleEcEvent s.node s.t e).1.trans s.t).transState = .error := by
  cases e with
  | addrResolved verbs route => exact .inl (onCmAddrResolved_state ..)
  | routeResolved o =>
    rw [hmpHandleEcEvent, onCmRouteResolved_state]
    split_ifs with h
    · exact .inr ⟨decide_eq_true h, rfl⟩
    · exact .inl rfl
  | connectRequest cm peerAddr o => exact absurd rfl he
  | established peer o => exact .inl (onCmEstablished_state ..)
  | disconnected => exact .inl rfl
  | other type =>
    rw [hmpHandleEcEvent, ecError_state]
    split_ifs with h
    · exact .inr ⟨decide_eq_true h, rfl⟩
    · exact .inl rfl

theorem handle_tasksOk {nd : Node} {t : ℕ} {e : CmEvent} (he : e.type ≠ .connectRequest)
    (h : nd.TasksOk t) : (hmpHandleEcEvent nd t e).1.TasksOk t := by
  cases e with
  | addrResolved verbs route =>
    rw [hmpHandleEcEvent, onCmAddrResolved_eq]
    exact h.congr rfl rfl rfl
  | routeResolved o => exact onCmRouteResolved_tasksOk t o h
  | connectRequest cm peerAddr o => exact absurd rfl he
  | established peer o =>
    exact hmpPostSend_tasksOk t _ o (h.congr rfl rfl rfl)
  | disconnected =>
    have hk : nd.KeepsTasks (onCmDisconnected nd t).1 := .same rfl rfl
    refine hk.tasksOk_of h ?_ ?_ ?_ <;> simp +contextual [onCmDisconnected]
  | other type =>
    obtain ⟨type, _⟩ := type
    cases type <;> exact h.congr rfl rfl rfl

/-! ## The steps -/

theorem handleStep_some {s s' : Attempt} {e : CmEvent} (h : s.handleStep e = some s') :
    ∃ rest, s.queue = e.type :: rest ∧ s.running = true ∧
      s' = { s with node := (hmpHandleEcEvent s.node s.t e).1, queue := rest
                    phase := phaseAfter s.phase e (hmpHandleEcEvent s.node s.t e).2 } := by
  unfold handleStep at h
  cases hq : s.queue with
  | nil => simp [hq] at h
  | cons type rest =>
    simp only [hq, Option.ite_none_right_eq_some, Option.some.injEq] at h
    obtain ⟨⟨hr, rfl⟩, rfl⟩ := h
    exact ⟨rest, rfl, hr, rfl⟩

theorem pollStep_some {s s' : Attempt} (h : s.pollStep = some s') :
    ∃ wc rest, (s.node.qp s.t).cq = wc :: rest ∧ (s.node.qp s.t).registered = true ∧
      s' = { s with
        node := dispatchWc (s.node.setQp s.t { s.node.qp s.t with cq := rest }) wc
        initDone := s.initDone || (wc.status = .success && isInitMsg s.node wc) } := by
  unfold pollStep at h
  cases hq : (s.node.qp s.t).cq with
  | nil => simp [hq] at h
  | cons wc rest =>
    simp only [hq, Option.ite_none_right_eq_some, Option.some.injEq] at h
    exact ⟨wc, rest, rfl, h.1.2, h.2.symm⟩

/-- The adapter moves one request of `t` to the completion queue. -/
structure Completes (s s' : Attempt) : Prop where
  rest : s' = { s with node := s'.node }
  trans : s'.node.trans = s.node.trans
  keeps : s.node.KeepsTasks s'.node
  registered : (s'.node.qp s.t).registered = (s.node.qp s.t).registered
  rq : ∀ wr ∈ (s'.node.qp s.t).rq, wr ∈ (s.node.qp s.t).rq
  sq : ∀ wr ∈ (s'.node.qp s.t).sq, wr ∈ (s.node.qp s.t).sq
  cq : ∃ wc, (s'.node.qp s.t).cq = (s.node.qp s.t).cq ++ [wc] ∧
    (wc.wrId ∈ (s.node.qp s.t).rq.map (·.wrId) ∨ wc.wrId ∈ (s.node.qp s.t).sq.map (·.wrId))
  busy : s.node.qp s.t ≠ {}

theorem recvStep_some {s s' : Attempt} {bytes : List UInt8} (h : s.recvStep bytes = some s') :
    Completes s s' := by
  unfold recvStep at h
  cases hq : (s.node.qp s.t).rq with
  | nil => simp [hq] at h
  | cons wr rest =>
    simp only [hq, Option.ite_none_right_eq_some, Option.some.injEq] at h
    obtain ⟨-, rfl⟩ := h
    exact ⟨rfl, rfl, .same rfl rfl, by simp, by simp +contextual [hq], by simp,
      ⟨_, by simp; rfl, by simp [hq]⟩,
      fun hd => by simp [hd] at hq⟩

theorem recvErrorStep_some {s s' : Attempt} {status : IbvWcStatus}
    (h : s.recvErrorStep status = some s') : Completes s s' := by
  unfold recvErrorStep at h
  cases hq : (s.node.qp s.t).rq with
  | nil => simp [hq] at h
  | cons wr rest =>
    simp only [hq, Option.ite_none_left_eq_some, Option.some.injEq] at h
    obtain ⟨-, rfl⟩ := h
    exact ⟨rfl, rfl, .same rfl rfl, by simp, by simp +contextual [hq], by simp,
      ⟨_, by simp; rfl, by simp [hq]⟩,
      fun hd => by simp [hd] at hq⟩

theorem sentStep_some {s s' : Attempt} {status : IbvWcStatus} (h : s.sentStep status = some s') :
    Completes s s' := by
  unfold sentStep at h
  cases hq : (s.node.qp s.t).sq with
  | nil => simp [hq] at h
  | cons wr rest =>
    simp only [hq, Option.some.injEq] at h
    subst h
    exact ⟨rfl, rfl, .same rfl rfl, by simp, by simp, by simp +contextual [hq],
      ⟨_, by simp; rfl, by simp [hq]⟩,
      fun hd => by simp [hd] at hq⟩

theorem Completes.tasksOk {s s' : Attempt} (h : Completes s s') (ht : s.node.TasksOk s.t) :
    s'.node.TasksOk s'.t := by
  obtain ⟨wc, hcq, hwc⟩ := h.cq
  rw [h.rest]
  refine h.keeps.tasksOk_of ht (fun wr hw => .inl (h.rq wr hw)) (fun wr hw => .inl (h.sq wr hw))
    (fun c hc => ?_)
  rw [hcq, List.mem_append, List.mem_singleton] at hc
  rcases hc with hc | rfl
  · exact .inl hc
  · right
    rcases hwc with hwc | hwc
    · obtain ⟨wr, hw, he⟩ := List.mem_map.mp hwc
      exact he ▸ h.keeps.owns (ht.rq wr hw)
    · obtain ⟨wr, hw, he⟩ := List.mem_map.mp hwc
      exact he ▸ h.keeps.owns (ht.sq wr hw)

theorem Completes.transState {s s' : Attempt} (h : Completes s s') :
    s'.transState = s.transState := by
  have ht : s'.t = s.t := by rw [h.rest]
  rw [Attempt.transState, h.trans, ht, Attempt.transState]

/-! ## The main thread -/

theorem connectEntry_frame (nd : Node) (t : ℕ) (url : String) (port pton : ℤ) :
    (connectEntry nd t url port pton).1.qp = nd.qp ∧
      (connectEntry nd t url port pton).1.task = nd.task ∧
      (connectEntry nd t url port pton).1.nextTask = nd.nextTask ∧
      ((connectEntry nd t url port pton).1.trans t).transState = (nd.trans t).transState := by
  unfold connectEntry hmpPortUriInit
  by_cases hp : port = 0 <;> by_cases h0 : pton ≤ 0 <;> by_cases h1 : pton < 0 <;>
    simp [hp, h0, h1]

theorem connectCreateId_frame (nd : Node) (t : ℕ) (cm : CmId) (ret : ℤ) :
    (connectCreateId nd t cm ret).1.qp = nd.qp ∧
      (connectCreateId nd t cm ret).1.task = nd.task ∧
      (connectCreateId nd t cm ret).1.nextTask = nd.nextTask ∧
      ((connectCreateId nd t cm ret).1.trans t).transState = (nd.trans t).transState := by
  unfold connectCreateId
  split_ifs <;> simp

theorem connectResolve_frame (nd : Node) (t : ℕ) (ret : ℤ) :
    (connectResolve nd t ret).1.qp = nd.qp ∧ (connectResolve nd t ret).1.task = nd.task ∧
      (connectResolve nd t ret).1.nextTask = nd.nextTask ∧
      ((connectResolve nd t ret).1.trans t).transState = (nd.trans t).transState := by
  unfold connectResolve
  split_ifs <;> simp

/-- A step of the main thread is a statement before the store to `trans_state`, or the store. -/
theorem mainStep_cases {s s' : Attempt} {ret : ℤ} (h : s.mainStep ret = some s') :
    (s.main.early = true ∧ s'.t = s.t ∧ s'.queue = s.queue ∧ s'.initDone = s.initDone ∧
      s'.transState = s.transState ∧ s'.node.qp = s.node.qp ∧ s'.node.task = s.node.task ∧
      s'.node.nextTask = s.node.nextTask ∧
      (s.phase = .idle → s'.phase = .idle ∨ s'.phase = .addr ∧ s'.main.early = false)) ∨
    (s.main = .setState ∧
      s' = { s with node := s.node.setState s.t .connecting, main := .returned 0 }) := by
  unfold mainStep at h
  cases hm : s.main with
  | entry =>
    simp only [hm, Option.some.injEq] at h
    subst h
    obtain ⟨h1, h2, h3, h4⟩ := connectEntry_frame s.node s.t s.url s.port ret
    exact .inl ⟨rfl, rfl, rfl, rfl, h4, h1, h2, h3, .inl⟩
  | createId =>
    simp only [hm, Option.some.injEq] at h
    subst h
    obtain ⟨h1, h2, h3, h4⟩ := connectCreateId_frame s.node s.t ⟨0, true⟩ ret
    exact .inl ⟨rfl, rfl, rfl, rfl, h4, h1, h2, h3, .inl⟩
  | resolveAddr =>
    simp only [hm, Option.some.injEq] at h
    subst h
    obtain ⟨h1, h2, h3, h4⟩ := connectResolve_frame s.node s.t ret
    refine .inl ⟨rfl, rfl, rfl, rfl, h4, h1, h2, h3, fun _ => ?_⟩
    by_cases hr : ret = 0
    · exact .inr ⟨if_pos hr, by simp [connectResolve, hr, ConnectPc.early]⟩
    · exact .inl (if_neg hr)
  | setState =>
    simp only [hm, Option.some.injEq] at h
    exact .inr ⟨rfl, h.symm⟩
  | returned r => simp [hm] at h

/-! ## The invariant -/

structure Inv (s : Attempt) : Prop where
  early : s.main.early = true → s.phase = .idle ∧ s.queue = [] ∧ s.node.qp s.t = {}
  init : s.main.early = true ∨ s.main = .setState → s.transState = .init
  noRequest : .connectRequest ∉ s.queue
  tasksOk : s.node.TasksOk s.t

theorem emit_ne_request {ph ph' : CmPhase} {type : RdmaCmEventType} (h : ph.emit type = some ph') :
    ph ≠ .idle ∧ type ≠ .connectRequest := by
  constructor
  · rintro rfl
    simp [CmPhase.emit] at h
  · rintro rfl
    cases ph <;> simp [CmPhase.emit] at h

theorem Inv.type_ne {s : Attempt} (hi : Inv s) {e : CmEvent} {rest : List RdmaCmEventType}
    (hq : s.queue = e.type :: rest) : e.type ≠ .connectRequest := by
  intro he
  exact hi.noRequest (by simp [hq, he])

/-- The polled completion stores CONNECTED for `t`, or leaves `trans_state` of `t` alone. -/
theorem poll_state {s : Attempt} (hi : Inv s) {wc : IbvWc} {rest : List IbvWc}
    (hcq : (s.node.qp s.t).cq = wc :: rest) :
    ((dispatchWc (s.node.setQp s.t { s.node.qp s.t with cq := rest }) wc).trans s.t).transState =
      if wc.status = .success ∧ isInitMsg s.node wc = true then .connected else s.transState := by
  have hown := (hi.tasksOk.cq wc (by simp [hcq])).2
  split_ifs with hc
  · have hinit : isInitMsg (s.node.setQp s.t { s.node.qp s.t with cq := rest }) wc = true := hc.2
    rw [dispatchWc_init hc.1 hinit]
    simp [hmpHandleMrMsg, mrMsgState, hown]
  · rcases dispatchWc_cases (s.node.setQp s.t { s.node.qp s.t with cq := rest }) wc with
      h | ⟨hs, hinit, -⟩ | ⟨-, -, h⟩
    · rw [h]; rfl
    · exact absurd ⟨hs, hinit⟩ hc
    · rw [h]; rfl

/-- What a step may do to `trans_state`: nothing, the one store of the main thread while the
state is INIT, or a store of CONNECTED or ERROR by the event thread. -/
theorem step_state {s s' : Attempt} {e : AttemptEvent} (hi : Inv s) (h : s.step e = some s') :
    s'.transState = s.transState ∨
      ((∃ ret, e = .main ret) ∧ s.main = .setState ∧ s.transState = .init) ∨
      (s.storesState e = true ∧ (s'.transState = .connected ∨ s'.transState = .error)) := by
  cases e with
  | main ret =>
    rcases mainStep_cases h with ⟨-, -, -, -, hst, -⟩ | ⟨hm, rfl⟩
    · exact .inl hst
    · exact .inr (.inl ⟨⟨ret, rfl⟩, hm, hi.init (.inr hm)⟩)
  | emit type =>
    obtain ⟨ph, -, rfl⟩ := Option.map_eq_some_iff.mp h
    exact .inl rfl
  | recv bytes => exact .inl (recvStep_some h).transState
  | recvError status => exact .inl (recvErrorStep_some h).transState
  | sent status => exact .inl (sentStep_some h).transState
  | handle ev =>
    obtain ⟨rest, hq, -, rfl⟩ := handleStep_some h
    rcases handle_state s (hi.type_ne hq) with hst | ⟨hst, he⟩
    · exact .inl hst
    · exact .inr (.inr ⟨hst, .inr he⟩)
  | poll =>
    obtain ⟨wc, rest, hcq, -, rfl⟩ := pollStep_some h
    have hst := poll_state hi hcq
    split_ifs at hst with hc
    · exact .inr (.inr ⟨by simp [storesState, hcq, hc], .inl hst⟩)
    · exact .inl hst
  | otherStop => obtain rfl := Option.some.inj h; exact .inl rfl
  | loopExit =>
    obtain ⟨-, hs⟩ := Option.ite_none_right_eq_some.mp h
    obtain rfl := Option.some.inj hs
    exact .inl rfl

theorem inv_start {s : Attempt} (h : Start s) : Inv s := by
  obtain ⟨hst, hqp, hm, hph, hqueue, -⟩ := h
  exact ⟨fun _ => ⟨hph, hqueue, hqp⟩, fun _ => hst, by simp [hqueue], Node.tasksOk_of_default hqp⟩

/-- Every step but those of the main thread and of the loop needs the call of
`rdma_resolve_addr`. -/
theorem Inv.not_early {s s' : Attempt} (hi : Inv s) {e : AttemptEvent} (hs : s.step e = some s')
    (hm : ∀ ret, e ≠ .main ret) (hl : e ≠ .otherStop ∧ e ≠ .loopExit) : s.main.early = false := by
  by_contra hearly
  obtain ⟨hph, hq, hqp⟩ := hi.early (by simpa using hearly)
  cases e with
  | main ret => exact hm ret rfl
  | emit type => simp [step, hph, CmPhase.emit] at hs
  | recv bytes => exact (recvStep_some hs).busy hqp
  | recvError status => exact (recvErrorStep_some hs).busy hqp
  | sent status => exact (sentStep_some hs).busy hqp
  | handle ev => simp [step, handleStep, hq] at hs
  | poll => simp [step, pollStep, hqp] at hs
  | otherStop => exact hl.1 rfl
  | loopExit => exact hl.2 rfl

theorem Inv.step_noRequest {s s' : Attempt} (hi : Inv s) {e : AttemptEvent}
    (hs : s.step e = some s') : .connectRequest ∉ s'.queue := by
  cases e with
  | main ret =>
    rcases mainStep_cases hs with ⟨-, -, hq, -⟩ | ⟨-, rfl⟩
    · rw [hq]; exact hi.noRequest
    · exact hi.noRequest
  | emit type =>
    obtain ⟨ph, hph, rfl⟩ := Option.map_eq_some_iff.mp hs
    have := (emit_ne_request hph).2
    simp [hi.noRequest, this.symm]
  | recv bytes => rw [(recvStep_some hs).rest]; exact hi.noRequest
  | recvError status => rw [(recvErrorStep_some hs).rest]; exact hi.noRequest
  | sent status => rw [(sentStep_some hs).rest]; exact hi.noRequest
  | handle ev =>
    obtain ⟨rest, hq, -, rfl⟩ := handleStep_some hs
    intro hmem
    exact hi.noRequest (hq ▸ List.mem_cons_of_mem _ hmem)
  | poll =>
    obtain ⟨wc, rest, -, -, rfl⟩ := pollStep_some hs
    exact hi.noRequest
  | otherStop => obtain rfl := Option.some.inj hs; exact hi.noRequest
  | loopExit =>
    obtain ⟨-, hs⟩ := Option.ite_none_right_eq_some.mp hs
    obtain rfl := Option.some.inj hs
    exact hi.noRequest

theorem Inv.step_tasksOk {s s' : Attempt} (hi : Inv s) {e : AttemptEvent}
    (hs : s.step e = some s') : s'.node.TasksOk s'.t := by
  cases e with
  | main ret =>
    rcases mainStep_cases hs with ⟨-, ht, -, -, -, hqp, htask, hnext, -⟩ | ⟨-, rfl⟩
    · rw [ht]
      exact hi.tasksOk.congr hnext htask (by rw [hqp])
    · exact hi.tasksOk.congr rfl rfl rfl
  | emit type =>
    obtain ⟨ph, hph, rfl⟩ := Option.map_eq_some_iff.mp hs
    exact hi.tasksOk
  | recv bytes => exact (recvStep_some hs).tasksOk hi.tasksOk
  | recvError status => exact (recvErrorStep_some hs).tasksOk hi.tasksOk
  | sent status => exact (sentStep_some hs).tasksOk hi.tasksOk
  | handle ev =>
    obtain ⟨rest, hq, -, rfl⟩ := handleStep_some hs
    exact handle_tasksOk (hi.type_ne hq) hi.tasksOk
  | poll =>
    obtain ⟨wc, rest, hcq, -, rfl⟩ := pollStep_some hs
    refine (dispatchWc_keepsTasks _ wc).tasksOk (by rw [(dispatchWc_frame _ wc).1]) ?_
    have hk : s.node.KeepsTasks (s.node.setQp s.t { s.node.qp s.t with cq := rest }) :=
      .same rfl rfl
    refine hk.tasksOk_of hi.tasksOk ?_ ?_ ?_ <;> simp +contextual [hcq]
  | otherStop => obtain rfl := Option.some.inj hs; exact hi.tasksOk.congr rfl rfl rfl
  | loopExit =>
    obtain ⟨-, hs⟩ := Option.ite_none_right_eq_some.mp hs
    obtain rfl := Option.some.inj hs
    exact hi.tasksOk

theorem step_main {s s' : Attempt} {e : AttemptEvent} (hs : s.step e = some s')
    (hm : ∀ ret, e ≠ .main ret) : s'.main = s.main := by
  cases e with
  | main ret => exact absurd rfl (hm ret)
  | emit type => obtain ⟨ph, -, rfl⟩ := Option.map_eq_some_iff.mp hs; rfl
  | recv bytes => rw [(recvStep_some hs).rest]
  | recvError status => rw [(recvErrorStep_some hs).rest]
  | sent status => rw [(sentStep_some hs).rest]
  | handle ev => obtain ⟨rest, -, -, rfl⟩ := handleStep_some hs; rfl
  | poll => obtain ⟨wc, rest, -, -, rfl⟩ := pollStep_some hs; rfl
  | otherStop => obtain rfl := Option.some.inj hs; rfl
  | loopExit =>
    obtain ⟨-, hs⟩ := Option.ite_none_right_eq_some.mp hs
    obtain rfl := Option.some.inj hs
    rfl

theorem inv_main {s s' : Attempt} {ret : ℤ} (hi : Inv s) (hs : s.step (.main ret) = some s') :
    Inv s' := by
  refine ⟨?_, ?_, hi.step_noRequest hs, hi.step_tasksOk hs⟩ <;>
    rcases mainStep_cases hs with ⟨he, ht, hq, -, hst, hqp, -, -, hph⟩ | ⟨hm, rfl⟩
  · intro he'
    obtain ⟨h1, h2, h3⟩ := hi.early he
    refine ⟨(hph h1).resolve_right fun h => ?_, hq.trans h2, by rw [hqp, ht, h3]⟩
    rw [he'] at h
    exact absurd h.2 (by decide)
  · exact fun h => absurd h (by simp [ConnectPc.early])
  · intro _
    rw [hst]
    exact hi.init (.inl he)
  · exact fun h => absurd h (by simp [ConnectPc.early])

theorem inv_step {s s' : Attempt} {e : AttemptEvent} (hi : Inv s) (hno : NotOvertaking s e)
    (hs : s.step e = some s') : Inv s' := by
  by_cases hmain : ∃ ret, e = .main ret
  · obtain ⟨ret, rfl⟩ := hmain
    exact inv_main hi hs
  have hm : ∀ ret, e ≠ .main ret := fun ret h => hmain ⟨ret, h⟩
  have hmeq := step_main hs hm
  refine ⟨fun h => ?_, fun h => ?_, hi.step_noRequest hs, hi.step_tasksOk hs⟩
  · rw [hmeq] at h
    cases e with
    | otherStop => obtain rfl := Option.some.inj hs; exact hi.early h
    | loopExit =>
      obtain ⟨-, hs⟩ := Option.ite_none_right_eq_some.mp hs
      obtain rfl := Option.some.inj hs
      exact hi.early h
    | _ =>
      rw [hi.not_early hs hm (by simp)] at h
      exact absurd h (by decide)
  · rw [hmeq] at h
    rcases step_state hi hs with hst | ⟨⟨ret, rfl⟩, -⟩ | ⟨hst, -⟩
    · exact hst.trans (hi.init h)
    · exact absurd rfl (hm ret)
    · -- the event thread stores only after the main thread has stored
      have he : s.main.early = false := hi.not_early hs hm (by cases e <;> simp_all [storesState])
      rw [he] at h
      exact absurd (h.resolve_left (by decide)) (hno hst)

theorem inv_reach {s : Attempt} (h : sys.Reach NotOvertaking s) : Inv s :=
  h.inv (fun _ => inv_start) fun _ _ _ hi hno hs => inv_step hi hno hs

end Attempt

end HMP
