import Hmp.Sanity.Steady
import Hmp.Sanity.Transfer
import Hmp.Spec.Unknown

/-! What a process refers to: the transports of its table and of a call, and the tasks that its
queues name. All of it has been allocated, and what a step adds is new. -/

namespace HMP

/-! ## What a state refers to -/

/-- Task `p` is named in the queues of transport `u`. -/
def Node.Mentions (nd : Node) (u p : ℕ) : Prop :=
  (∃ wr ∈ (nd.qp u).rq, wr.wrId = p) ∨ (∃ wr ∈ (nd.qp u).sq, wr.wrId = p) ∨
    ∃ wc ∈ (nd.qp u).cq, wc.wrId = p

theorem Node.TasksOk.owns {nd : Node} {u p : ℕ} (h : nd.TasksOk u) (hm : nd.Mentions u p) :
    nd.Owns u p := by
  rcases hm with ⟨wr, hw, rfl⟩ | ⟨wr, hw, rfl⟩ | ⟨wc, hw, rfl⟩
  · exact h.rq wr hw
  · exact h.sq wr hw
  · exact h.cq wc hw

theorem Node.Mentions.congr {nd nd' : Node} {u p : ℕ} (hq : nd'.qp u = nd.qp u)
    (h : nd'.Mentions u p) : nd.Mentions u p := by
  unfold Node.Mentions at h ⊢
  rwa [hq] at h

/-- A queue pair is replaced by one that names nothing new. -/
theorem Node.Mentions.setQp {nd : Node} {t u p : ℕ} {q : VerbsQp}
    (h : (nd.setQp t q).Mentions u p) (hr : ∀ wr ∈ q.rq, nd.Mentions t wr.wrId)
    (hs : ∀ wr ∈ q.sq, nd.Mentions t wr.wrId) (hc : ∀ wc ∈ q.cq, nd.Mentions t wc.wrId) :
    nd.Mentions u p := by
  by_cases hu : u = t
  · subst hu
    simp only [Node.Mentions, Node.setQp_qp, Function.update_self] at h
    rcases h with ⟨wr, hw, rfl⟩ | ⟨wr, hw, rfl⟩ | ⟨wc, hw, rfl⟩
    · exact hr wr hw
    · exact hs wr hw
    · exact hc wc hw
  · exact h.congr (by simp [hu])

theorem Node.mentions_rq {nd : Node} {t : ℕ} {wr : IbvRecvWr} (h : wr ∈ (nd.qp t).rq) :
    nd.Mentions t wr.wrId := .inl ⟨wr, h, rfl⟩

theorem Node.mentions_sq {nd : Node} {t : ℕ} {wr : IbvSendWr} (h : wr ∈ (nd.qp t).sq) :
    nd.Mentions t wr.wrId := .inr (.inl ⟨wr, h, rfl⟩)

theorem Node.mentions_cq {nd : Node} {t : ℕ} {wc : IbvWc} (h : wc ∈ (nd.qp t).cq) :
    nd.Mentions t wc.wrId := .inr (.inr ⟨wc, h, rfl⟩)

theorem Node.AddsMessages.mentions {nd nd' : Node} (h : nd.AddsMessages nd') {u p : ℕ}
    (hm : nd'.Mentions u p) : nd.Mentions u p ∨ nd.NewTask nd' u p := by
  rcases hm with ⟨wr, hw, rfl⟩ | ⟨wr, hw, rfl⟩ | ⟨wc, hw, rfl⟩
  · exact (h.rq u wr hw).imp_left Node.mentions_rq
  · exact (h.sq u wr hw).imp Node.mentions_sq And.right
  · exact .inl (Node.mentions_cq (h.cq u wc hw))

/-! ## What a request adds -/

/-- Only transport `t` changes, with its queue pair, and tasks are added. -/
structure Node.OnlyAt (nd nd' : Node) (t : ℕ) : Prop where
  trans : ∀ u ≠ t, nd'.trans u = nd.trans u
  qp : ∀ u ≠ t, nd'.qp u = nd.qp u
  nextTask : nd.nextTask ≤ nd'.nextTask
  task : ∀ p, p < nd.nextTask ∨ nd'.nextTask ≤ p → nd'.task p = nd.task p
  rest : nd' = { nd with
    trans := nd'.trans, nextTrans := nd'.nextTrans, qp := nd'.qp, task := nd'.task
    nextTask := nd'.nextTask }

namespace Node.OnlyAt

variable {nd nd₁ nd₂ : Node} {t : ℕ}

theorem comp (h₁ : nd.OnlyAt nd₁ t) (h₂ : nd₁.OnlyAt nd₂ t) : nd.OnlyAt nd₂ t where
  trans u hu := (h₂.trans u hu).trans (h₁.trans u hu)
  qp u hu := (h₂.qp u hu).trans (h₁.qp u hu)
  nextTask := h₁.nextTask.trans h₂.nextTask
  task p hp := by
    have hn := h₁.nextTask
    have hn' := h₂.nextTask
    rw [h₂.task p (by omega), h₁.task p (by omega)]
  rest := by
    rw [h₂.rest, h₁.rest]

end Node.OnlyAt

theorem hmpPostRecv_onlyAt (nd : Node) (t : ℕ) (o : PostOutcome) :
    nd.OnlyAt (hmpPostRecv nd t o) t := by
  unfold hmpPostRecv
  split_ifs
  · refine ⟨?_, ?_, Nat.le_succ _, ?_, rfl⟩
    · intro u hu; simp [hmpRecvTaskCreate, Node.allocTask, hu]
    · intro u hu; simp [hmpRecvTaskCreate, Node.allocTask, hu]
    · intro p hp
      have : p ≠ nd.nextTask := by simp [hmpRecvTaskCreate, Node.allocTask] at hp; omega
      simp [hmpRecvTaskCreate, Node.allocTask, this]
  · refine ⟨?_, ?_, Nat.le_succ _, ?_, rfl⟩
    · intro u hu; simp [hmpRecvTaskCreate, Node.allocTask, hu]
    · intro u hu; simp [hmpRecvTaskCreate, Node.allocTask]
    · intro p hp
      have : p ≠ nd.nextTask := by simp [hmpRecvTaskCreate, Node.allocTask] at hp; omega
      simp [hmpRecvTaskCreate, Node.allocTask, this]
  · exact ⟨fun _ _ => rfl, fun _ _ => rfl, le_rfl, fun _ _ => rfl, rfl⟩

theorem hmpPrePostRecv_onlyAt (nd : Node) (t : ℕ) (o₁ o₂ : PostOutcome) :
    nd.OnlyAt (hmpPrePostRecv nd t o₁ o₂) t :=
  (hmpPostRecv_onlyAt nd t o₁).comp (hmpPostRecv_onlyAt _ t o₂)

theorem withRequest_onlyAt (nd : Node) (cm : CmId) (d : Option HmpDevice) :
    nd.OnlyAt (withRequest nd cm d) nd.nextTrans :=
  ⟨fun _ hu => Function.update_of_ne hu .., fun _ _ => rfl, le_rfl, fun _ _ => rfl, rfl⟩

theorem setQp_onlyAt (nd : Node) (t : ℕ) (q : VerbsQp) : nd.OnlyAt (nd.setQp t q) t :=
  ⟨fun _ _ => rfl, fun _ hu => Function.update_of_ne hu .., le_rfl, fun _ _ => rfl, rfl⟩

namespace Transfer

variable {b b' : Transfer}

/-- What is referred to behind a step was referred to before, or is new. -/
structure RefsGrow (b b' : Transfer) : Prop where
  pool : b'.node.dramMempool = b.node.dramMempool
  nextTrans : b.node.nextTrans ≤ b'.node.nextTrans
  tasks : b.node.KeepsTasks b'.node
  table : ∀ k t, b'.node.connectTrans k = some t →
    b.node.connectTrans k = some t ∨ b.node.nextTrans ≤ t ∧ t < b'.node.nextTrans
  call : ∀ c, b'.app = .checking c → b.app = .checking c ∨ ∃ k, b.node.connectTrans k = some c.t
  wait : ∀ c p, b'.app = .waiting c p →
    b.app = .waiting c p ∨ b.node.nextTask ≤ p ∧ p < b'.node.nextTask
  names : ∀ u p, b'.node.Mentions u p → b.node.Mentions u p ∨ b.node.NewTask b'.node u p

/-- A step that leaves the table, the queues, the heap and the thread alone. -/
theorem RefsGrow.same (hp : b'.node.dramMempool = b.node.dramMempool)
    (hc : b'.node.connectTrans = b.node.connectTrans)
    (ht : b'.node.nextTrans = b.node.nextTrans) (hk : b.node.KeepsTasks b'.node)
    (happ : b'.app = b.app ∨ b'.app = .idle) (hq : b'.node.qp = b.node.qp) : RefsGrow b b' where
  pool := hp
  nextTrans := ht.ge
  tasks := hk
  table := fun k t h => .inl (hc ▸ h)
  call := by
    intro c h
    rcases happ with happ | happ
    · exact .inl (happ ▸ h)
    · exact absurd (happ.symm.trans h) (by simp)
  wait := by
    intro c p h
    rcases happ with happ | happ
    · exact .inl (happ ▸ h)
    · exact absurd (happ.symm.trans h) (by simp)
  names := fun u p h => .inl (h.congr (by rw [hq]))

theorem refsGrow_cm {u : ℕ} {e : CmEvent} (hs : b.step (.cm u e) = some b') : RefsGrow b b' := by
  obtain ⟨-, rfl⟩ := cmStep_some hs
  have hm := hmpHandleEcEvent_addsMessages b.node u e
  have htable : (hmpHandleEcEvent b.node u e).1.dramMempool = b.node.dramMempool ∧
      b.node.nextTrans ≤ (hmpHandleEcEvent b.node u e).1.nextTrans ∧
      ∀ k t, (hmpHandleEcEvent b.node u e).1.connectTrans k = some t →
        b.node.connectTrans k = some t ∨
          b.node.nextTrans ≤ t ∧ t < (hmpHandleEcEvent b.node u e).1.nextTrans := by
    by_cases hreq : e.type = .connectRequest
    · cases e with
      | connectRequest cm peerAddr o => exact onCmConnectRequest_table b.node cm peerAddr o
      | other type => exact absurd hreq (type.ne rfl)
      | _ => exact absurd hreq (by simp [CmEvent.type])
    · have hst := hmpHandleEcEvent_steady b.node u e hreq
      have hc := (hmpHandleEcEvent_sameTable b.node u e hreq).connectTrans
      exact ⟨hst.pool, hst.nextTrans, fun k t h => .inl (hc ▸ h)⟩
  exact ⟨htable.1, htable.2.1, hm.tasks.keeps, htable.2.2, fun c h => .inl h, fun c p h => .inl h,
    fun u p => hm.mentions⟩

theorem refsGrow_call {op : TransferOp} {localAddr : ℕ} {hmAddr : BitVec 64} {length : ℤ}
    (hs : b.step (.call op localAddr hmAddr length) = some b') : RefsGrow b b' := by
  obtain ⟨-, r, -, ⟨mem, -, rfl⟩ | ⟨t, addr, hacc, rfl⟩⟩ := callStep_some hs
  · exact .same rfl rfl rfl (.same rfl rfl) (.inl rfl) rfl
  · obtain ⟨r', -, -, ht, -⟩ := access_remote hacc
    refine ⟨rfl, le_rfl, .same rfl rfl, fun k t h => .inl h, fun c h => .inr ?_,
      fun c p h => absurd h (by simp), fun u p h => .inl h⟩
    obtain rfl := AppPc.checking.inj h
    exact ⟨r'.1, ht⟩

/-- A post adds at most one entry to the queues, with a task of its own. -/
theorem posted_mentions {nd : Node} {type : TaskType} {opcode : IbvWrOpcode} {o : PostOutcome}
    {t localAddr addr : ℕ} {length : ℤ} {r : Node × Option ℕ}
    (h : r = if o.task then
        (if o.err = 0 then (withTask nd type t localAddr length).setQp t { nd.qp t with
            sq := (nd.qp t).sq ++ [transferWr nd opcode t localAddr addr length] }
          else withTask nd type t localAddr length, some nd.nextTask)
      else (nd, none)) :
    r.1.dramMempool = nd.dramMempool ∧ r.1.nextTrans = nd.nextTrans ∧
      r.1.connectTrans = nd.connectTrans ∧ nd.AddsTasks r.1 ∧
      (o.task = true → nd.nextTask < r.1.nextTask) ∧
      ∀ u p, r.1.Mentions u p → nd.Mentions u p ∨ nd.NewTask r.1 u p := by
  have ha := withTask_adds nd type t localAddr length
  rw [h]
  split_ifs with ht
  · refine ⟨rfl, rfl, rfl, ⟨ha.nextTask, ha.task⟩, fun _ => Nat.lt_succ_self _, fun u p hm => ?_⟩
    by_cases hu : u = t
    · subst hu
      simp only [Node.Mentions, Node.setQp_qp, Function.update_self, List.mem_append,
        List.mem_singleton] at hm
      rcases hm with ⟨w, hw, rfl⟩ | ⟨w, hw | rfl, rfl⟩ | ⟨w, hw, rfl⟩
      · exact .inl (.inl ⟨w, hw, rfl⟩)
      · exact .inl (.inr (.inl ⟨w, hw, rfl⟩))
      · exact .inr ⟨le_rfl, Nat.lt_succ_self _, congrArg HmpTask.rdmaTrans (withTask_task ..)⟩
      · exact .inl (.inr (.inr ⟨w, hw, rfl⟩))
    · exact .inl (hm.congr (by simp [hu]))
  · exact ⟨rfl, rfl, rfl, ha, fun _ => Nat.lt_succ_self _, fun u p hm => .inl hm⟩
  · exact ⟨rfl, rfl, rfl, .same rfl rfl, fun h => absurd h ht, fun u p hm => .inl hm⟩

theorem refsGrow_check {o : PostOutcome} (hs : b.step (.check o) = some b') : RefsGrow b b' := by
  obtain ⟨c, happ, rfl | ⟨-, ⟨-, rfl⟩ | ⟨-, rfl⟩⟩⟩ := checkStep_some hs
  · exact .same rfl rfl rfl (.same rfl rfl) (.inr rfl) rfl
  · obtain ⟨hp, hn, hc, ha, hlt, hm⟩ := posted_mentions (hmpRdmaReadPost_eq b.node c.t c.localAddr
      c.addr c.length o)
    refine ⟨hp, hn.ge, ha.keeps, fun k t h => .inl (hc ▸ h), fun d h => ?_, fun d p h => ?_, hm⟩
    · exact absurd h (by dsimp only; split_ifs <;> simp)
    · dsimp only at h
      split_ifs at h with ht
      obtain ⟨rfl, rfl⟩ := AppPc.waiting.inj h
      exact .inr ⟨le_rfl, hlt ht⟩
  · obtain ⟨hp, hn, hc, ha, -, hm⟩ := posted_mentions (hmpRdmaWritePost_eq b.node c.t c.localAddr
      c.addr c.length o)
    exact ⟨hp, hn.ge, ha.keeps, fun k t h => .inl (hc ▸ h), fun d h => absurd h (by simp),
      fun d p h => absurd h (by simp), hm⟩

theorem refsGrow_complete {t : ℕ} {status : IbvWcStatus}
    (hs : b.step (.complete t status) = some b') : RefsGrow b b' := by
  obtain ⟨wr, rest, mem, remote, hsq, -, -, rfl⟩ := completeStep_some hs
  refine ⟨rfl, le_rfl, .same rfl rfl, fun k t h => .inl h, fun c h => .inl h, fun c p h => .inl h,
    fun u p hm => .inl ?_⟩
  have hm : (b.node.setQp t { b.node.qp t with
      sq := rest
      cq := (b.node.qp t).cq ++
        [{ wrId := wr.wrId, status := status, opcode := wr.opcode.wc }] }).Mentions u p := hm
  refine hm.setQp (fun w hw => Node.mentions_rq hw) (fun w hw => ?_) fun w hw => ?_
  · exact Node.mentions_sq (by rw [hsq]; exact List.mem_cons_of_mem _ hw)
  · rcases List.mem_append.mp hw with hw | hw
    · exact Node.mentions_cq hw
    · obtain rfl := List.mem_singleton.mp hw
      exact Node.mentions_sq (by rw [hsq]; exact List.mem_cons_self)

theorem refsGrow_recv {t : ℕ} {status : IbvWcStatus} {bytes : List UInt8}
    (hs : b.step (.recv t status bytes) = some b') : RefsGrow b b' := by
  obtain ⟨wr, rest, hrq, rfl⟩ := recvStep_some hs
  refine ⟨rfl, le_rfl, .same rfl rfl, fun k t h => .inl h, fun c h => .inl h, fun c p h => .inl h,
    fun u p hm => .inl ?_⟩
  have hm : (b.node.setQp t { b.node.qp t with
      rq := rest
      cq := (b.node.qp t).cq ++ [{ wrId := wr.wrId, status := status, opcode := .recv
                                   byteLen := bytes.length }] }).Mentions u p := hm
  refine hm.setQp (fun w hw => ?_) (fun w hw => Node.mentions_sq hw) fun w hw => ?_
  · exact Node.mentions_rq (by rw [hrq]; exact List.mem_cons_of_mem _ hw)
  · rcases List.mem_append.mp hw with hw | hw
    · exact Node.mentions_cq hw
    · obtain rfl := List.mem_singleton.mp hw
      exact Node.mentions_rq (by rw [hrq]; exact List.mem_cons_self)

theorem refsGrow_poll {t : ℕ} (hs : b.step (.poll t) = some b') : RefsGrow b b' := by
  obtain ⟨wc, rest, hcq, -, -, rfl⟩ := pollStep_some hs
  obtain ⟨hqp, -, htrans, htable, -, hpool, -⟩ :=
    dispatchWc_frame (b.node.setQp t { b.node.qp t with cq := rest }) wc
  refine ⟨hpool, htrans.ge, ?_, fun k t h => .inl (htable ▸ h), fun c h => .inl h,
    fun c p h => .inl h, fun u p hm => .inl ?_⟩
  · have hk := dispatchWc_keepsTasks (b.node.setQp t { b.node.qp t with cq := rest }) wc
    exact ⟨hk.nextTask, hk.rdmaTrans⟩
  · have hm : (b.node.setQp t { b.node.qp t with cq := rest }).Mentions u p :=
      hm.congr (by rw [hqp])
    refine hm.setQp (fun w hw => Node.mentions_rq hw) (fun w hw => Node.mentions_sq hw)
      fun w hw => ?_
    exact Node.mentions_cq (by rw [hcq]; exact List.mem_cons_of_mem _ hw)

theorem step_refsGrow {e : TransferEvent} (hs : b.step e = some b') : RefsGrow b b' := by
  cases e with
  | call op localAddr hmAddr length => exact refsGrow_call hs
  | check o => exact refsGrow_check hs
  | complete t status => exact refsGrow_complete hs
  | recv t status bytes => exact refsGrow_recv hs
  | poll t => exact refsGrow_poll hs
  | cm u e => exact refsGrow_cm hs
  | ret =>
    obtain ⟨c, p, -, -, rfl⟩ := retStep_some hs
    exact .same rfl rfl rfl (.same rfl rfl) (.inr rfl) rfl
  | loopExit =>
    obtain ⟨-, hs⟩ := Option.ite_none_right_eq_some.mp hs
    obtain rfl := Option.some.inj hs
    exact .same rfl rfl rfl (.same rfl rfl) (.inl rfl) rfl
  | store addr bytes | storeRemote j addr bytes =>
    obtain rfl := Option.some.inj hs
    exact .same rfl rfl rfl (.same rfl rfl) (.inl rfl) rfl

/-- Whatever the process refers to has been allocated. -/
structure Placed (b : Transfer) : Prop where
  table : b.node.TableOk
  call : ∀ c, b.app = .checking c → c.t < b.node.nextTrans
  wait : ∀ c p, b.app = .waiting c p → p < b.node.nextTask
  names : ∀ u p, b.node.Mentions u p → b.node.Owns u p
  fresh : ∀ t, b.node.nextTrans ≤ t → b.node.qp t = {}

theorem placed_start (h : Start b) : Placed b := by
  obtain ⟨happ, -, htable, hfresh, htasks⟩ := h
  exact ⟨htable, by simp [happ], by simp [happ], fun u p => (htasks u).owns, hfresh⟩

theorem onCmRouteResolved_qp (nd : Node) {t u : ℕ} (o : RouteOutcome) (h : t ≠ u) :
    (onCmRouteResolved nd u o).1.qp t = nd.qp t := by
  have hset := (setQp_onlyAt nd u { live := true, registered := true }).qp t h
  have hp := ((hmpPrePostRecv_onlyAt (nd.setQp u { live := true, registered := true }) u o.recv₁
    o.recv₂).qp t h).trans hset
  rcases onCmRouteResolved_cases nd u o with ⟨-, he⟩ | ⟨-, -, he⟩ | ⟨-, -, he⟩ <;> rw [he]
  · refine Eq.trans ?_ hp
    change (hmpQpRelease _ u).qp t = _
    rw [hmpQpRelease_qp]
    split_ifs
    · exact Function.update_of_ne h ..
    · rfl
  · exact hp

theorem onCmConnectRequest_qp (nd : Node) {t : ℕ} (cm : CmId) (peerAddr : String)
    (o : RequestOutcome) (h : t ≠ nd.nextTrans) :
    (onCmConnectRequest nd cm peerAddr o).1.qp t = nd.qp t := by
  rcases onCmConnectRequest_cases nd cm peerAddr o with ⟨-, he⟩ | ⟨nd₂, rfl, ⟨-, he⟩ | ⟨-, he⟩⟩ <;>
    rw [he]
  · rcases requestTransport_cases nd cm o with h' | h' | h' <;> rw [h']
    · rfl
    · exact Function.update_of_ne h ..
  all_goals
    refine ((hmpPrePostRecv_onlyAt _ nd.nextTrans o.recv₁ o.recv₂).qp t h).trans ?_
    rw [(requestRegister_frame ..).2.2.2.2.2.1]
    exact Function.update_of_ne h ..

/-- The handlers of CM events work on queue pairs of transports that exist. -/
theorem fresh_cm {u : ℕ} {e : CmEvent} (h : ∀ t, b.node.nextTrans ≤ t → b.node.qp t = {})
    (hok : OnExisting b (.cm u e)) (hs : b.step (.cm u e) = some b') (t : ℕ)
    (ht : b'.node.nextTrans ≤ t) : b'.node.qp t = {} := by
  have hle := ((step_refsGrow hs).nextTrans).trans ht
  obtain ⟨-, rfl⟩ := cmStep_some hs
  cases e with
  | addrResolved verbs route =>
    dsimp only
    rw [hmpHandleEcEvent, onCmAddrResolved_eq]
    exact h t hle
  | routeResolved o =>
    have hu : u < b.node.nextTrans := hok
    exact (onCmRouteResolved_qp b.node o (by omega)).trans (h t hle)
  | connectRequest cm peerAddr o =>
    rcases onCmConnectRequest_creates b.node cm peerAddr o with he | he
    · dsimp only [hmpHandleEcEvent]
      rw [he]
      exact h t hle
    · have hlt : b.node.nextTrans < t := by
        dsimp only [hmpHandleEcEvent] at ht
        omega
      exact (onCmConnectRequest_qp b.node cm peerAddr o hlt.ne').trans (h t hle)
  | established peer o =>
    have hu : u < b.node.nextTrans := hok
    dsimp only [hmpHandleEcEvent, onCmEstablished]
    rw [hmpPostSend_qp]
    split_ifs
    · exact (Function.update_of_ne (by omega) ..).trans (h t hle)
    · exact h t hle
  | disconnected =>
    have hu : u < b.node.nextTrans := hok
    exact (Function.update_of_ne (by omega) ..).trans (h t hle)
  | other type =>
    obtain ⟨type, _⟩ := type
    cases type <;> exact h t hle

/-- A step of the adapter replaces a queue pair that has something queued. -/
theorem fresh_setQp {nd : Node} {t : ℕ} (q : VerbsQp) (h : ∀ t, nd.nextTrans ≤ t → nd.qp t = {})
    (ht : nd.qp t ≠ {}) (u : ℕ) (hu : nd.nextTrans ≤ u) : (nd.setQp t q).qp u = {} := by
  have hne : u ≠ t := by
    rintro rfl
    exact ht (h u hu)
  exact (Function.update_of_ne hne ..).trans (h u hu)

theorem fresh_check {o : PostOutcome} (h : Placed b) (hs : b.step (.check o) = some b') (t : ℕ)
    (ht : b'.node.nextTrans ≤ t) : b'.node.qp t = {} := by
  have hle := ((step_refsGrow hs).nextTrans).trans ht
  obtain ⟨c, happ, rfl | ⟨-, ⟨-, rfl⟩ | ⟨-, rfl⟩⟩⟩ := checkStep_some hs
  · exact h.fresh t hle
  all_goals
    have hne : t ≠ c.t := ((h.call c happ).trans_le hle).ne'
    dsimp only
    first | rw [hmpRdmaReadPost_eq] | rw [hmpRdmaWritePost_eq]
    split_ifs
    · exact (Function.update_of_ne hne ..).trans (h.fresh t hle)
    · exact h.fresh t hle
    · exact h.fresh t hle

theorem fresh_step {e : TransferEvent} (h : Placed b) (hok : OnExisting b e)
    (hs : b.step e = some b') (t : ℕ) (ht : b'.node.nextTrans ≤ t) : b'.node.qp t = {} := by
  have hle := ((step_refsGrow hs).nextTrans).trans ht
  cases e with
  | check o => exact fresh_check h hs t ht
  | cm u e => exact fresh_cm h.fresh hok hs t ht
  | call op localAddr hmAddr length =>
    obtain ⟨-, r, -, ⟨mem, -, rfl⟩ | ⟨t, addr, -, rfl⟩⟩ := callStep_some hs <;>
      exact h.fresh _ hle
  | complete u status =>
    obtain ⟨wr, rest, mem, remote, hsq, -, -, rfl⟩ := completeStep_some hs
    exact fresh_setQp _ h.fresh (by intro he; simp [he] at hsq) t hle
  | recv u status bytes =>
    obtain ⟨wr, rest, hrq, rfl⟩ := recvStep_some hs
    exact fresh_setQp _ h.fresh (by intro he; simp [he] at hrq) t hle
  | poll u =>
    obtain ⟨wc, rest, hcq, -, -, rfl⟩ := pollStep_some hs
    obtain ⟨hqp, -⟩ := dispatchWc_frame (b.node.setQp u { b.node.qp u with cq := rest }) wc
    dsimp only
    rw [hqp]
    exact fresh_setQp _ h.fresh (by intro he; simp [he] at hcq) t hle
  | ret =>
    obtain ⟨c, p, -, -, rfl⟩ := retStep_some hs
    exact h.fresh t hle
  | loopExit =>
    obtain ⟨-, hs⟩ := Option.ite_none_right_eq_some.mp hs
    obtain rfl := Option.some.inj hs
    exact h.fresh t hle
  | store addr bytes | storeRemote j addr bytes =>
    obtain rfl := Option.some.inj hs
    exact h.fresh t hle

theorem placed_step {e : TransferEvent} (h : Placed b) (hok : OnExisting b e)
    (hs : b.step e = some b') : Placed b' := by
  have hg := step_refsGrow hs
  refine ⟨fun k t ht => ?_, fun c hc => ?_, fun c p hw => ?_, fun u p hm => ?_, ?_⟩
  · rcases hg.table k t ht with ht | ⟨-, ht⟩
    · exact (h.table k t ht).trans_le hg.nextTrans
    · exact ht
  · rcases hg.call c hc with hc | ⟨k, hc⟩
    · exact (h.call c hc).trans_le hg.nextTrans
    · exact (h.table k _ hc).trans_le hg.nextTrans
  · rcases hg.wait c p hw with hw | ⟨-, hw⟩
    · exact (h.wait c p hw).trans_le hg.tasks.nextTask
    · exact hw
  · rcases hg.names u p hm with hm | hn
    · exact hg.tasks.owns (h.names u p hm)
    · exact hn.2
  · exact fresh_step h hok hs

theorem placed_reach (h : sys.Reach OnExisting b) : Placed b :=
  h.inv (I := Placed) (fun _ => placed_start) fun _ _ _ hi hok hs => placed_step hi hok hs

end Transfer

end HMP
