import Hmp.Sanity.InitMsg
import Hmp.Sanity.Transfer
import Hmp.Spec.Report

/-! A call reports what has happened exactly if nothing fails in it: the value that
both calls return is the constant 0. -/

namespace HMP

/-! ## The memory behind a step -/

theorem onCmConnectRequest_mem (nd : Node) (cm : CmId) (peerAddr : String) (o : RequestOutcome) :
    (onCmConnectRequest nd cm peerAddr o).1.mem = nd.mem := by
  have hr : ∀ nd' : Node, (requestRegister nd' nd.nextTrans peerAddr).mem = nd'.mem :=
    fun nd' => (requestRegister_frame nd' nd.nextTrans peerAddr).2.2.2.2.2.2
  rcases onCmConnectRequest_cases nd cm peerAddr o with ⟨-, he⟩ | ⟨nd₂, rfl, ⟨-, he⟩ | ⟨-, he⟩⟩ <;>
    rw [he]
  · rcases requestTransport_cases nd cm o with h' | h' | h' <;> rw [h'] <;> rfl
  · simp [hmpPrePostRecv, hr, withRequestQp, withRequest]
  · simp [hmpPrePostRecv, hr, withRequestQp, withRequest]

namespace Transfer

/-- Only the INIT message goes into memory. -/
theorem hmpHandleEcEvent_mem (s : Transfer) (t : ℕ) (e : CmEvent) :
    (hmpHandleEcEvent s.node t e).1.mem = s.node.mem.puts (s.othersStore (.cm t e)) := by
  cases e with
  | addrResolved verbs route =>
    rw [hmpHandleEcEvent, onCmAddrResolved_eq]
    rfl
  | routeResolved o =>
    rcases onCmRouteResolved_cases s.node t o with ⟨-, he⟩ | ⟨-, -, he⟩ | ⟨-, -, he⟩ <;>
      rw [hmpHandleEcEvent, he]
    · rfl
    · unfold hmpQpRelease
      split_ifs <;> simp [hmpPrePostRecv, othersStore]
    · simp [hmpPrePostRecv, othersStore]
  | connectRequest cm peerAddr o => exact onCmConnectRequest_mem ..
  | established peer o =>
    simp only [hmpHandleEcEvent, onCmEstablished, hmpPostSend_mem, othersStore, Node.setTrans_trans,
      Function.update_self, Node.setTrans_mem]
    split_ifs <;> rfl
  | disconnected => rfl
  | other type =>
    obtain ⟨type, _⟩ := type
    cases type <;> rfl

theorem complete_mem {s s' : Transfer} {t : ℕ} {status : IbvWcStatus}
    (h : s.completeStep t status = some s') :
    s'.node.mem = s.node.mem.puts (s.othersStore (.complete t status)) := by
  obtain ⟨wr, rest, mem, remote, hsq, hdata, hkeep, rfl⟩ := completeStep_some h
  by_cases hst : status = .success
  · subst hst
    have hmem : mem = (s.transferData t wr).node.mem := (hdata rfl).1
    dsimp only
    rw [hmem]
    cases hop : wr.opcode <;> simp [transferData, othersStore, hsq, hop]
  · have hnone : s.othersStore (.complete t status) = [] := by
      cases status <;> first | exact absurd rfl hst | rfl
    rw [hnone]
    exact (hkeep hst).1

theorem complete_frame {s s' : Transfer} {t : ℕ} {status : IbvWcStatus}
    (h : s.completeStep t status = some s') :
    ∃ wr, (s.node.qp t).sq.head? = some wr ∧ s'.app = s.app ∧
      s'.node.nextTask = s.node.nextTask ∧ s'.node.task = s.node.task ∧
      (∀ u, ∀ w ∈ (s'.node.qp u).sq, w ∈ (s.node.qp u).sq) ∧
      ∀ u, ∀ wc ∈ (s'.node.qp u).cq, wc ∈ (s.node.qp u).cq ∨
        wc = { wrId := wr.wrId, status := status, opcode := wr.opcode.wc } := by
  obtain ⟨wr, rest, mem, remote, hsq, -, -, rfl⟩ := completeStep_some h
  refine ⟨wr, by simp [hsq], rfl, rfl, rfl, fun u w hw => ?_, fun u wc hwc => ?_⟩
  · by_cases hu : u = t
    · subst hu
      simp only [Node.setQp_qp, Function.update_self] at hw
      rw [hsq]
      exact List.mem_cons_of_mem _ hw
    · simpa [hu] using hw
  · by_cases hu : u = t
    · subst hu
      simpa using hwc
    · exact .inl (by simpa [hu] using hwc)

end Transfer

/-! ## The account -/

theorem Holds.of_write (m : Mem) (a : ℕ) (bs : List UInt8) : Holds (m.write a bs) a bs [] := by
  simp [Holds]

theorem Holds.puts {m : Mem} {a : ℕ} {bs : List UInt8} {os : List (ℕ × List UInt8)}
    (h : Holds m a bs os) (ps : List (ℕ × List UInt8)) : Holds (m.puts ps) a bs (os ++ ps) := by
  refine Mem.read_congr fun x hx hx' => ?_
  rw [Mem.puts_append]
  exact Mem.puts_apply_congr ps (Mem.read_eq_iff.mp h x hx hx')

namespace Report

open Transfer

variable {s s' : Report}

/-- The request of a read. -/
structure RequestOf (s : Transfer) (c : RemoteCall) (t : ℕ) (wr : IbvSendWr) : Prop where
  trans : t = c.t
  addr : wr.sge.addr = c.localAddr
  length : wr.sge.length = (c.length % 2 ^ 32).toNat
  remoteAddr : wr.remoteAddr = c.addr

/-- A read waits for task `p`: it is done, or its completion is there with success, only if bytes
have `moved`. -/
structure Awaits (s : Transfer) (c : RemoteCall) (p : ℕ) (moved : Option (List UInt8)) : Prop where
  lt : p < s.node.nextTask
  sq : ∀ t, ∀ wr ∈ (s.node.qp t).sq, wr.opcode = .rdmaRead → wr.wrId = p → RequestOf s c t wr
  cq : ∀ t, ∀ wc ∈ (s.node.qp t).cq, wc.opcode = .rdmaRead → wc.status = .success → wc.wrId = p →
    moved ≠ none
  done : (s.node.task p).type = .done → moved ≠ none

/-- The account belongs to the call that is under way. -/
structure Current (s : Report) (c : RemoteCall) (r : CallAccount) : Prop where
  call : s.call = some r
  op : r.op = c.op
  localAddr : r.localAddr = c.localAddr
  ret : r.ret = none

def AppOk (s : Report) : Prop :=
  match s.real.app with
  | .idle => True
  | .checking c => ∃ r, Current s c r
  | .waiting c p => ∃ r, Current s c r ∧ r.op = .read ∧ Awaits s.real c p r.moved

/-- Requests and completions of reads name tasks there are. -/
structure ReadsOk (nd : Node) : Prop where
  sq : ∀ t, ∀ wr ∈ (nd.qp t).sq, wr.opcode = .rdmaRead → wr.wrId < nd.nextTask
  cq : ∀ t, ∀ wc ∈ (nd.qp t).cq, wc.opcode = .rdmaRead → wc.wrId < nd.nextTask

structure Inv (s : Report) : Prop where
  reads : ReadsOk s.real.node
  app : AppOk s
  ret : ∀ r ∈ s.call, ∀ v ∈ r.ret, v = 0
  holds : ∀ r ∈ s.call, ∀ bs ∈ r.moved, Holds s.real.node.mem r.target bs r.others
  performed : ∀ r ∈ s.call, r.ret = some 0 → r.failed = false →
    r.moved ≠ none ∨ r.op = .write ∧ r.posted = true

/-- A step beside the call: it stores `ps`, posts no read, and finishes none that the call waits
for. -/
structure Beside (s s' : Report) (ps : List (ℕ × List UInt8)) : Prop where
  app : s'.real.app = s.real.app
  call : s'.call = s.call.map fun r => { r with others := r.others ++ ps }
  mem : s'.real.node.mem = s.real.node.mem.puts ps
  nextTask : s.real.node.nextTask ≤ s'.real.node.nextTask
  sq : ∀ t, ∀ wr ∈ (s'.real.node.qp t).sq, wr.opcode = .rdmaRead → wr ∈ (s.real.node.qp t).sq
  cq : ∀ t, ∀ wc ∈ (s'.real.node.qp t).cq, wc.opcode = .rdmaRead →
    wc ∈ (s.real.node.qp t).cq ∨ wc.wrId < s.real.node.nextTask ∧
      (wc.status = .success → ∀ c p, s.real.app = .waiting c p → wc.wrId ≠ p)
  task : ∀ p < s.real.node.nextTask, (s'.real.node.task p).type = .done →
    (s.real.node.task p).type = .done ∨ ∃ t, ∃ wc ∈ (s.real.node.qp t).cq,
      wc.opcode = .rdmaRead ∧ wc.status = .success ∧ wc.wrId = p

theorem Beside.current {ps : List (ℕ × List UInt8)} {c : RemoteCall} {r : CallAccount}
    (hb : Beside s s' ps) (h : Current s c r) :
    Current s' c { r with others := r.others ++ ps } :=
  ⟨by rw [hb.call, h.call]; rfl, h.op, h.localAddr, h.ret⟩

theorem Inv.beside {ps : List (ℕ × List UInt8)} (h : Inv s) (hb : Beside s s' ps) : Inv s' where
  reads := by
    refine ⟨fun t wr hw hop => ?_, fun t wc hw hop => ?_⟩
    · exact (h.reads.sq t wr (hb.sq t wr hw hop) hop).trans_le hb.nextTask
    · refine ((hb.cq t wc hw hop).elim (fun hw => ?_) fun hw => hw.1).trans_le hb.nextTask
      exact h.reads.cq t wc hw hop
  app := by
    have ha := h.app
    unfold AppOk at ha ⊢
    rw [hb.app]
    cases happ : s.real.app with
    | idle => trivial
    | checking c =>
      rw [happ] at ha
      obtain ⟨r, hr⟩ := ha
      exact ⟨_, hb.current hr⟩
    | waiting c p =>
      rw [happ] at ha
      obtain ⟨r, hr, hop, hw⟩ := ha
      refine ⟨_, hb.current hr, hop, hw.lt.trans_le hb.nextTask, fun t wr hm hread hid => ?_,
        fun t wc hm hread hst hid => ?_, fun hd => ?_⟩
      · obtain ⟨h₁, h₂, h₃, h₄⟩ := hw.sq t wr (hb.sq t wr hm hread) hread hid
        exact ⟨h₁, h₂, h₃, h₄⟩
      · rcases hb.cq t wc hm hread with hm | ⟨-, hne⟩
        · exact hw.cq t wc hm hread hst hid
        · exact absurd hid (hne hst c p happ)
      · rcases hb.task p hw.lt hd with hd | ⟨t, wc, hm, hread, hst, hid⟩
        · exact hw.done hd
        · exact hw.cq t wc hm hread hst hid
  ret := by
    intro r hr
    rw [hb.call] at hr
    obtain ⟨r₀, hr₀, rfl⟩ := Option.map_eq_some_iff.mp hr
    exact h.ret r₀ hr₀
  holds := by
    intro r hr bs hbs
    rw [hb.call] at hr
    obtain ⟨r₀, hr₀, rfl⟩ := Option.map_eq_some_iff.mp hr
    rw [hb.mem]
    exact (h.holds r₀ hr₀ bs hbs).puts ps
  performed := by
    intro r hr
    rw [hb.call] at hr
    obtain ⟨r₀, hr₀, rfl⟩ := Option.map_eq_some_iff.mp hr
    exact h.performed r₀ hr₀

theorem returned_same {r : CallAccount} {x x' : Transfer} (h : x'.app = x.app) :
    r.returned x x' = r := by
  rw [CallAccount.returned, h, if_neg (by tauto)]

theorem returned_busy {r : CallAccount} {x x' : Transfer} (h : x'.app ≠ .idle) :
    r.returned x x' = r :=
  if_neg fun hc => h hc.2

theorem returned_idle {r : CallAccount} {x x' : Transfer} (h : x.app ≠ .idle) (h' : x'.app = .idle) :
    r.returned x x' = { r with ret := some (callResult r.op) } :=
  if_pos ⟨h, h'⟩

/-- The call of an account that only records what others store. -/
theorem call_beside {e : TransferEvent} {real : Transfer} (happ : real.app = s.real.app)
    (hnext : ∀ r : CallAccount, r.next s.real e =
      { r with others := r.others ++ s.real.othersStore e }) :
    (s.call.map fun r => (r.next s.real e).returned s.real real) =
      s.call.map fun r => { r with others := r.others ++ s.real.othersStore e } := by
  congr 1
  funext r
  rw [returned_same happ, hnext]

theorem beside_cm {t : ℕ} {e : CmEvent} (hs : s.step (.cm t e) = some s') :
    Beside s s' (s.real.othersStore (.cm t e)) := by
  obtain ⟨-, hs⟩ := Option.ite_none_left_eq_some.mp hs
  obtain ⟨real, hreal, rfl⟩ := Option.map_eq_some_iff.mp hs
  obtain ⟨-, rfl⟩ := cmStep_some hreal
  have hn := hmpHandleEcEvent_addsMessages s.real.node t e
  have ha := hmpHandleEcEvent_adds s.real.node t e
  refine ⟨rfl, call_beside rfl fun _ => rfl, hmpHandleEcEvent_mem s.real t e, ha.nextTask,
    fun u wr hw hop => ?_, fun u wc hw _ => .inl (hn.cq u wc hw), fun p hp hd => .inl ?_⟩
  · refine (hn.sq u wr hw).resolve_right fun hsend => ?_
    rw [hsend.1] at hop
    exact absurd hop (by decide)
  · rwa [← ha.task p hp]

theorem beside_recv {t : ℕ} {status : IbvWcStatus} {bytes : List UInt8}
    (hs : s.step (.recv t status bytes) = some s') :
    Beside s s' (s.real.othersStore (.recv t status bytes)) := by
  obtain ⟨-, hs⟩ := Option.ite_none_left_eq_some.mp hs
  obtain ⟨real, hreal, rfl⟩ := Option.map_eq_some_iff.mp hs
  obtain ⟨wr, rest, hrq, rfl⟩ := recvStep_some hreal
  refine ⟨rfl, call_beside rfl fun _ => rfl, by simp [othersStore, hrq], le_rfl,
    fun u w hw _ => ?_, fun u wc hw hop => ?_, fun p _ hd => .inl hd⟩
  · by_cases hu : u = t
    · subst hu; simpa using hw
    · simpa [hu] using hw
  · by_cases hu : u = t
    · subst hu
      simp only [Node.setQp_qp, Function.update_self, List.mem_append, List.mem_singleton] at hw
      refine .inl (hw.resolve_right ?_)
      rintro rfl
      exact absurd hop (by simp)
    · exact .inl (by simpa [hu] using hw)

theorem beside_poll {t : ℕ} (hs : s.step (.poll t) = some s') : Beside s s' [] := by
  obtain ⟨-, hs⟩ := Option.ite_none_left_eq_some.mp hs
  obtain ⟨real, hreal, rfl⟩ := Option.map_eq_some_iff.mp hs
  obtain ⟨wc, rest, hcq, -, -, rfl⟩ := pollStep_some hreal
  obtain ⟨hqp, hnext, -, -, hmem, -⟩ :=
    dispatchWc_frame (s.real.node.setQp t { s.real.node.qp t with cq := rest }) wc
  refine ⟨rfl, call_beside rfl fun _ => rfl, hmem, hnext.ge, fun u w hw _ => ?_,
    fun u w hw _ => .inl ?_, fun p _ hd => ?_⟩
  · rw [hqp] at hw
    by_cases hu : u = t
    · subst hu; simpa using hw
    · simpa [hu] using hw
  · rw [hqp] at hw
    by_cases hu : u = t
    · subst hu
      simp only [Node.setQp_qp, Function.update_self] at hw
      rw [hcq]
      exact List.mem_cons_of_mem _ hw
    · simpa [hu] using hw
  · rcases dispatchWc_cases (s.real.node.setQp t { s.real.node.qp t with cq := rest }) wc with
      he | ⟨-, -, he⟩ | ⟨hst, hop, he⟩ <;> simp only [he] at hd
    · exact .inl hd
    · exact .inl hd
    · by_cases hp : p = wc.wrId
      · exact .inr ⟨t, wc, by simp [hcq], hop, hst, hp.symm⟩
      · exact .inl (by simpa [hp] using hd)

theorem beside_quiet {e : TransferEvent} {real : Transfer} (hnode : real.node = s.real.node)
    (happ : real.app = s.real.app)
    (hnext : ∀ r : CallAccount, r.next s.real e = { r with others := r.others ++ s.real.othersStore e })
    (hstore : s.real.othersStore e = []) :
    Beside s { s with real := real
                      call := s.call.map fun r => (r.next s.real e).returned s.real real } [] := by
  refine ⟨happ, ?_, by rw [hnode]; rfl, by rw [hnode], fun t wr hw _ => hnode ▸ hw,
    fun t wc hw _ => .inl (hnode ▸ hw), fun p _ hd => .inl (hnode ▸ hd)⟩
  rw [call_beside happ hnext, hstore]

theorem served_some {x : Transfer} {t : ℕ} {c : RemoteCall} (h : x.served t = some c) :
    ∃ p wr, x.app = .waiting c p ∧ (x.node.qp t).sq.head? = some wr ∧ wr.wrId = p ∧
      wr.opcode = .rdmaRead := by
  unfold served at h
  split at h
  · rename_i c' p happ
    obtain ⟨hany, hc⟩ := Option.ite_none_right_eq_some.mp h
    obtain rfl := Option.some.inj hc
    cases hhead : (x.node.qp t).sq.head? with
    | none => simp [hhead] at hany
    | some wr =>
      obtain ⟨hid, hop⟩ : wr.wrId = p ∧ wr.opcode = .rdmaRead := by simpa [hhead] using hany
      exact ⟨p, wr, happ, rfl, hid, hop⟩
  · exact absurd h (by simp)

theorem served_none {x : Transfer} {t : ℕ} (h : x.served t = none) {c : RemoteCall} {p : ℕ}
    (happ : x.app = .waiting c p) {wr : IbvSendWr} (hwr : (x.node.qp t).sq.head? = some wr)
    (hop : wr.opcode = .rdmaRead) : wr.wrId ≠ p := by
  rintro rfl
  simp [served, happ, hwr, hop] at h

/-- The adapter finishes a request that the call does not wait for. -/
theorem beside_complete {t : ℕ} {status : IbvWcStatus}
    (hi : Inv s) (hserved : s.real.served t = none) (hs : s.step (.complete t status) = some s') :
    Beside s s' (s.real.othersStore (.complete t status)) := by
  obtain ⟨-, hs⟩ := Option.ite_none_left_eq_some.mp hs
  obtain ⟨real, hreal, rfl⟩ := Option.map_eq_some_iff.mp hs
  obtain ⟨wr, hhead, happ, hnext, htask, hsq, hcq⟩ := complete_frame hreal
  refine ⟨happ, call_beside happ fun r => by simp [CallAccount.next, hserved], complete_mem hreal,
    hnext.ge, fun u w hw _ => hsq u w hw, fun u wc hwc hop => (hcq u wc hwc).imp id ?_,
    fun p _ hd => .inl (htask ▸ hd)⟩
  rintro rfl
  have hread : wr.opcode = .rdmaRead := by
    cases ho : wr.opcode <;> simp [ho, IbvWrOpcode.wc] at hop ⊢
  exact ⟨hi.reads.sq t wr (List.mem_of_head? hhead) hread, fun _ c p happ =>
    served_none hserved happ hhead hread⟩

/-- What a call that waits knows of itself after the completion of its request. -/
structure Completed (s : Report) (c : RemoteCall) (status : IbvWcStatus) (r r' : CallAccount) :
    Prop where
  op : r'.op = r.op
  localAddr : r'.localAddr = r.localAddr
  ret : r'.ret = r.ret
  moved : status = .success ∧ r'.moved = some (s.real.remoteBytes c) ∧ r'.others = [] ∨
    status ≠ .success ∧ r'.moved = r.moved ∧ r'.others = r.others

theorem completed_next {t : ℕ} {c : RemoteCall} (r : CallAccount) (status : IbvWcStatus)
    (h : s.real.served t = some c) :
    Completed s c status r (r.next s.real (.complete t status)) := by
  simp only [CallAccount.next, h]
  split_ifs with hst
  · exact ⟨rfl, rfl, rfl, .inl ⟨hst, rfl, rfl⟩⟩
  · exact ⟨rfl, rfl, rfl, .inr ⟨hst, rfl, rfl⟩⟩

/-- The adapter finishes the request that the call waits for. -/
theorem inv_served {t : ℕ} {status : IbvWcStatus} {c : RemoteCall} (hi : Inv s)
    (hserved : s.real.served t = some c) (hs : s.step (.complete t status) = some s') : Inv s' := by
  obtain ⟨-, hs⟩ := Option.ite_none_left_eq_some.mp hs
  obtain ⟨real, hreal, rfl⟩ := Option.map_eq_some_iff.mp hs
  obtain ⟨p, wr₀, hwait, hhead₀, hid, hread⟩ := served_some hserved
  obtain ⟨wr, hhead, happ, hnext, htask, hsq, hcq⟩ := complete_frame hreal
  obtain rfl : wr = wr₀ := Option.some.inj (hhead.symm.trans hhead₀)
  have hmem := complete_mem hreal
  obtain ⟨r, hr, hop, hw⟩ : ∃ r, Current s c r ∧ r.op = .read ∧ Awaits s.real c p r.moved := by
    have ha := hi.app
    rwa [AppOk, hwait] at ha
  have hreq : RequestOf s.real c t wr := hw.sq t wr (List.mem_of_head? hhead) hread hid
  have hc := completed_next r status hserved
  have hcall : (s.call.map fun r => (r.next s.real (.complete t status)).returned s.real real) =
      some (r.next s.real (.complete t status)) := by
    rw [hr.call, Option.map_some, returned_same happ]
  rw [hcall]
  refine ⟨⟨fun u w hw => hnext ▸ hi.reads.sq u w (hsq u w hw), fun u wc hwc ho => ?_⟩, ?_, ?_, ?_,
    ?_⟩
  · rw [hnext]
    rcases hcq u wc hwc with hwc | rfl
    · exact hi.reads.cq u wc hwc ho
    · exact hid ▸ hw.lt
  · simp only [AppOk, happ, hwait]
    refine ⟨_, ⟨rfl, hc.op.trans hr.op, hc.localAddr.trans hr.localAddr, hc.ret.trans hr.ret⟩,
      hc.op.trans hop, hnext ▸ hw.lt, fun u w hm ho hi => ?_, fun u wc hwc ho hst hi => ?_,
      fun hd => ?_⟩
    · obtain ⟨h₁, h₂, h₃, h₄⟩ := hw.sq u w (hsq u w hm) ho hi
      exact ⟨h₁, h₂, h₃, h₄⟩
    · rcases hc.moved with ⟨-, hm, -⟩ | ⟨hne, hm, -⟩ <;> rw [hm]
      · exact Option.some_ne_none _
      · rcases hcq u wc hwc with hwc | rfl
        · exact hw.cq u wc hwc ho hst hi
        · exact absurd hst hne
    · rcases hc.moved with ⟨-, hm, -⟩ | ⟨-, hm, -⟩ <;> rw [hm]
      · exact Option.some_ne_none _
      · exact hw.done (htask ▸ hd)
  · rintro _ ⟨⟩ v hv
    rw [hc.ret, hr.ret] at hv
    exact absurd hv (by simp)
  · rintro _ ⟨⟩ bs hbs
    have htarget : (r.next s.real (.complete t status)).target = r.target := by
      simp only [CallAccount.target, hc.op, hc.localAddr, hop]
    dsimp only
    rw [hmem, htarget]
    rcases hc.moved with ⟨hst, hm, ho⟩ | ⟨hst, hm, ho⟩ <;> rw [hm] at hbs <;> rw [ho]
    · obtain rfl := Option.some.inj hbs
      have hstore : s.real.othersStore (.complete t status) =
          [(c.localAddr, s.real.remoteBytes c)] := by
        obtain rfl := hst
        obtain rfl := hreq.trans
        simp [othersStore, hhead, hread, remoteBytes, hreq.addr, hreq.length, hreq.remoteAddr]
      have hlocal : r.target = c.localAddr := by simp [CallAccount.target, hop, hr.localAddr]
      rw [hstore, hlocal]
      exact Holds.of_write ..
    · have hstore : s.real.othersStore (.complete t status) = [] := by
        cases status <;> first | exact absurd rfl hst | rfl
      rw [hstore]
      exact hi.holds r hr.call bs hbs
  · rintro _ ⟨⟩ hret
    rw [hc.ret, hr.ret] at hret
    exact absurd hret (by simp)

/-! ## The steps of the calling thread -/

theorem start_reads {x : Transfer} (h : Transfer.Start x) : ReadsOk x.node :=
  ⟨fun t wr hw _ => ((h.2.2.2.2 t).sq wr hw).1, fun t wc hw _ => ((h.2.2.2.2 t).cq wc hw).1⟩

theorem inv_start (h : Start s) : Inv s := by
  obtain ⟨hstart, hcall, -⟩ := h
  refine ⟨start_reads hstart, by simp [AppOk, hstart.1], ?_, ?_, ?_⟩ <;> simp [hcall]

theorem inv_call {op : TransferOp} {localAddr : ℕ} {hmAddr : BitVec 64} {length : ℤ} (hi : Inv s)
    (hs : s.step (.call op localAddr hmAddr length) = some s') : Inv s' := by
  obtain ⟨-, hs⟩ := Option.ite_none_left_eq_some.mp hs
  obtain ⟨⟨k, x⟩, hk, hs⟩ := Option.bind_eq_some_iff.mp hs
  dsimp only at hs
  split_ifs at hs with hown hmissing
  · obtain ⟨real, hreal, rfl⟩ := Option.map_eq_some_iff.mp hs
    obtain ⟨hidle, r, hr, ⟨mem, ha, rfl⟩ | ⟨t, addr, ha, rfl⟩⟩ := callStep_some hreal
    · obtain ⟨r', hr', -, hcopy⟩ := access_copied ha
      obtain rfl : (k, x) = r' := Option.some.inj (hk.symm.trans hr')
      refine ⟨⟨hi.reads.sq, hi.reads.cq⟩, by simp [AppOk, hidle], ?_, ?_, ?_⟩
      · rintro _ ⟨⟩ v ⟨⟩
        cases op <;> rfl
      · rintro _ ⟨⟩ bs ⟨⟩
        cases op with
        | read =>
          obtain ⟨-, rfl⟩ := memcpy_some hcopy
          exact Holds.of_write ..
        | write =>
          obtain ⟨-, rfl⟩ := memcpy_some hcopy
          exact Holds.of_write ..
      · rintro _ ⟨⟩ _ _
        exact .inl (Option.some_ne_none _)
    · obtain ⟨r', hr', hne, -⟩ := access_remote ha
      obtain rfl : (k, x) = r' := Option.some.inj (hk.symm.trans hr')
      exact absurd hown hne
  · obtain rfl := Option.some.inj hs
    refine ⟨hi.reads, by simp [AppOk, hmissing.1], ?_, ?_, ?_⟩
    · rintro _ ⟨⟩ v ⟨⟩
    · rintro _ ⟨⟩ bs ⟨⟩
    · rintro _ ⟨⟩ ⟨⟩
  · obtain ⟨real, hreal, rfl⟩ := Option.map_eq_some_iff.mp hs
    obtain ⟨hidle, r, hr, ⟨mem, ha, rfl⟩ | ⟨t, addr, ha, rfl⟩⟩ := callStep_some hreal
    · obtain ⟨r', hr', hc, -⟩ := access_copied ha
      obtain rfl : (k, x) = r' := Option.some.inj (hk.symm.trans hr')
      exact absurd hc hown
    · refine ⟨hi.reads, ⟨_, rfl, rfl, rfl, rfl⟩, ?_, ?_, ?_⟩
      · rintro _ ⟨⟩ v ⟨⟩
      · rintro _ ⟨⟩ bs ⟨⟩
      · rintro _ ⟨⟩ ⟨⟩

theorem callResult_eq (op : TransferOp) : callResult op = 0 := by
  cases op <;> rfl

theorem inv_ret (hi : Inv s) (hs : s.step .ret = some s') : Inv s' := by
  obtain ⟨-, hs⟩ := Option.ite_none_left_eq_some.mp hs
  obtain ⟨real, hreal, rfl⟩ := Option.map_eq_some_iff.mp hs
  obtain ⟨c, p, happ, hd, rfl⟩ := retStep_some hreal
  obtain ⟨r, hr, hop, hw⟩ : ∃ r, Current s c r ∧ r.op = .read ∧ Awaits s.real c p r.moved := by
    have ha := hi.app
    rwa [AppOk, happ] at ha
  have hcall : (s.call.map fun r => (r.next s.real .ret).returned s.real { s.real with
      app := .idle
      hist := s.real.hist ++ [⟨.read, c.nodeId, c.addr, localBytes s.real.node c⟩] }) =
      some { r with ret := some (callResult r.op) } := by
    simp [hr.call, CallAccount.next, CallAccount.returned, othersStore, happ]
  rw [hcall]
  refine ⟨hi.reads, trivial, ?_, ?_, ?_⟩
  · rintro _ ⟨⟩ v ⟨⟩
    exact callResult_eq r.op
  · rintro _ ⟨⟩ bs hbs
    exact hi.holds r hr.call bs hbs
  · rintro _ ⟨⟩ _ _
    exact .inl (hw.done hd)

theorem ReadsOk.afterPost {nd nd' : Node} {opcode : IbvWrOpcode} {t localAddr addr : ℕ} {length : ℤ}
    (h : ReadsOk nd) (hp : AfterPost nd nd' opcode t localAddr addr length) : ReadsOk nd' := by
  refine ⟨fun u wr hw hop => ?_, fun u wc hw hop => ?_⟩
  · rcases hp.sq u wr hw with hw | ⟨-, rfl, hlt⟩
    · exact (h.sq u wr hw hop).trans_le hp.nextTask
    · exact hlt
  · rw [hp.cq] at hw
    exact (h.cq u wc hw hop).trans_le hp.nextTask

/-- A read that has got a task, whether its post has failed or not. -/
theorem awaits_posted {x x' : Transfer} {c : RemoteCall} {o : PostOutcome} (h : ReadsOk x.node)
    (ho : o.task = true)
    (hnode : x'.node = (hmpRdmaReadPost x.node c.t c.localAddr c.addr c.length o).1)
    (moved : Option (List UInt8)) : Awaits x' c x.node.nextTask moved := by
  have hp := hmpRdmaReadPost_after x.node c.t c.localAddr c.addr c.length o
  have htask : x'.node.nextTask = x.node.nextTask + 1 ∧
      (x'.node.task x.node.nextTask).type = .read := by
    rw [hnode, hmpRdmaReadPost_eq, if_pos ho]
    split_ifs <;> simp
  refine ⟨by omega, fun u wr hw hop hid => ?_, fun u wc hw hop _ hid => ?_, fun hd => ?_⟩
  · rw [hnode] at hw
    rcases hp.sq u wr hw with hw | ⟨rfl, rfl, -⟩
    · exact absurd hid (h.sq u wr hw hop).ne
    · exact ⟨rfl, rfl, rfl, rfl⟩
  · rw [hnode, hp.cq] at hw
    exact absurd hid (h.cq u wc hw hop).ne
  · rw [htask.2] at hd
    exact absurd hd (by decide)

/-- The account of a call behind its post. -/
theorem inv_after {c : RemoteCall} {r r' : CallAccount} {real : Transfer} (hi : Inv s)
    (hr : Current s c r) (hreads : ReadsOk real.node) (hmem : real.node.mem = s.real.node.mem)
    (happ : AppOk ⟨real, some r', s.crashed⟩) (hmoved : r'.moved = r.moved)
    (hothers : r'.others = r.others) (htarget : r'.target = r.target)
    (hret : ∀ v ∈ r'.ret, v = 0)
    (hperf : r'.ret = some 0 → r'.failed = false → r'.op = .write ∧ r'.posted = true) :
    Inv ⟨real, some r', s.crashed⟩ := by
  refine ⟨hreads, happ, ?_, ?_, ?_⟩
  · rintro _ ⟨⟩
    exact hret
  · rintro _ ⟨⟩ bs hbs
    rw [hmem, hothers, htarget]
    exact hi.holds r hr.call bs (hmoved ▸ hbs)
  · rintro _ ⟨⟩ h₁ h₂
    exact .inr (hperf h₁ h₂)

theorem posts_iff {x : Transfer} {c : RemoteCall} {o : PostOutcome} (happ : x.app = .checking c) :
    x.posts o = true ↔
      (x.node.trans c.t).transState = .connected ∧ o.task = true ∧ o.err = 0 := by
  have hst : hmpTransportCheckState (x.node.trans c.t).transState = some 0 ↔
      (x.node.trans c.t).transState = .connected := by
    cases (x.node.trans c.t).transState <;> simp [hmpTransportCheckState, TransportState.val]
  simp [posts, happ, hst]

/-- A call whose check, task and post succeed is accepted. -/
theorem inv_check_posts {o : PostOutcome} {c : RemoteCall} {r : CallAccount} {real : Transfer}
    (hi : Inv s) (hr : Current s c r) (happ : s.real.app = .checking c)
    (hpost : s.real.posts o = true) (hreal : s.real.step (.check o) = some real) :
    Inv ⟨real, some (({ r with posted := true } : CallAccount).returned s.real real), s.crashed⟩ := by
  obtain ⟨hst, htask, herr⟩ := (posts_iff happ).mp hpost
  obtain rfl : o = {} := by cases o; simp_all
  have hreal : s.real.checkStep {} = some real := hreal
  cases hop : c.op with
  | read =>
    rw [checkStep_read happ hop hst] at hreal
    obtain rfl := Option.some.inj hreal
    have hp := hmpRdmaReadPost_after s.real.node c.t c.localAddr c.addr c.length {}
    rw [returned_busy (by simp)]
    refine inv_after hi hr (hi.reads.afterPost hp) hp.mem ?_ rfl rfl rfl ?_ ?_
    · exact ⟨_, ⟨rfl, hr.op, hr.localAddr, hr.ret⟩, hr.op.trans hop,
        awaits_posted hi.reads rfl rfl r.moved⟩
    · simp [hr.ret]
    · simp [hr.ret]
  | write =>
    rw [checkStep_write happ hop hst] at hreal
    obtain rfl := Option.some.inj hreal
    have hp : AfterPost s.real.node (afterWrite s.real c).node .rdmaWrite c.t c.localAddr c.addr
        c.length := by
      have hp := hmpRdmaWritePost_after s.real.node c.t c.localAddr c.addr c.length {}
      rwa [hmpRdmaWritePost_ok] at hp
    rw [returned_idle (by simp [happ]) rfl]
    refine inv_after hi hr (hi.reads.afterPost hp) hp.mem trivial rfl rfl rfl ?_ ?_
    · rintro v ⟨⟩
      exact callResult_eq r.op
    · exact fun _ _ => ⟨hr.op.trans hop, rfl⟩

/-- A call in which one of them fails gives up, or waits for a task that nobody finishes. -/
theorem inv_check_fails {o : PostOutcome} {c : RemoteCall} {r : CallAccount} {real : Transfer}
    (hi : Inv s) (hr : Current s c r) (happ : s.real.app = .checking c)
    (hreal : s.real.step (.check o) = some real) :
    Inv ⟨real, some (({ r with failed := true } : CallAccount).returned s.real real), s.crashed⟩ := by
  have hidle : ∀ x : Transfer, x.app = .idle → ReadsOk x.node → x.node.mem = s.real.node.mem →
      Inv ⟨x, some (({ r with failed := true } : CallAccount).returned s.real x), s.crashed⟩ := by
    intro x hx hreads hmem
    rw [returned_idle (by simp [happ]) hx]
    refine inv_after hi hr hreads hmem (by simp [AppOk, hx]) rfl rfl rfl ?_ (by simp)
    rintro v ⟨⟩
    exact callResult_eq r.op
  obtain ⟨c', happ', rfl | ⟨-, ⟨hop, rfl⟩ | ⟨-, rfl⟩⟩⟩ := checkStep_some hreal
  · exact hidle _ rfl hi.reads rfl
  · obtain rfl : c = c' := AppPc.checking.inj (happ.symm.trans happ')
    have hp := hmpRdmaReadPost_after s.real.node c.t c.localAddr c.addr c.length o
    by_cases ho : o.task = true
    · rw [returned_busy (by simp [ho])]
      refine inv_after hi hr (hi.reads.afterPost hp) hp.mem ?_ rfl rfl rfl ?_ (by simp)
      · simp only [AppOk, if_pos ho]
        exact ⟨_, ⟨rfl, hr.op, hr.localAddr, hr.ret⟩, hr.op.trans hop,
          awaits_posted hi.reads ho rfl r.moved⟩
      · simp [hr.ret]
    · exact hidle _ (if_neg ho) (hi.reads.afterPost hp) hp.mem
  · have hp := hmpRdmaWritePost_after s.real.node c'.t c'.localAddr c'.addr c'.length o
    exact hidle _ rfl (hi.reads.afterPost hp) hp.mem

theorem inv_check {o : PostOutcome} (hi : Inv s) (hs : s.step (.check o) = some s') : Inv s' := by
  obtain ⟨-, hs⟩ := Option.ite_none_left_eq_some.mp hs
  obtain ⟨real, hreal, rfl⟩ := Option.map_eq_some_iff.mp hs
  obtain ⟨c, happ, hcases⟩ := checkStep_some hreal
  obtain ⟨r, hr⟩ : ∃ r, Current s c r := by
    have ha := hi.app
    rwa [AppOk, happ] at ha
  have hcall : (s.call.map fun r => (r.next s.real (.check o)).returned s.real real) =
      some ((r.next s.real (.check o)).returned s.real real) := by rw [hr.call]; rfl
  rw [hcall]
  by_cases hpost : s.real.posts o = true
  · simp only [CallAccount.next, if_pos hpost]
    exact inv_check_posts hi hr happ hpost hreal
  · simp only [CallAccount.next, if_neg hpost]
    exact inv_check_fails hi hr happ hreal

theorem inv_step {e : TransferEvent} (hi : Inv s) (hs : s.step e = some s') : Inv s' := by
  cases e with
  | call op localAddr hmAddr length => exact inv_call hi hs
  | check o => exact inv_check hi hs
  | ret => exact inv_ret hi hs
  | complete t status =>
    cases hserved : s.real.served t with
    | none => exact hi.beside (beside_complete hi hserved hs)
    | some c => exact inv_served hi hserved hs
  | recv t status bytes => exact hi.beside (beside_recv hs)
  | poll t => exact hi.beside (beside_poll hs)
  | cm t e => exact hi.beside (beside_cm hs)
  | loopExit =>
    obtain ⟨-, hs⟩ := Option.ite_none_left_eq_some.mp hs
    obtain ⟨real, hreal, rfl⟩ := Option.map_eq_some_iff.mp hs
    obtain ⟨-, hreal⟩ := Option.ite_none_right_eq_some.mp hreal
    obtain rfl := Option.some.inj hreal
    exact hi.beside (beside_quiet rfl rfl (fun _ => rfl) rfl)
  | store addr bytes =>
    obtain ⟨-, hs⟩ := Option.ite_none_left_eq_some.mp hs
    obtain ⟨real, hreal, rfl⟩ := Option.map_eq_some_iff.mp hs
    obtain rfl := Option.some.inj hreal
    exact hi.beside ⟨rfl, call_beside rfl fun _ => rfl, rfl, le_rfl, fun _ _ hw _ => hw,
      fun _ _ hw _ => .inl hw, fun _ _ hd => .inl hd⟩
  | storeRemote j addr bytes =>
    obtain ⟨-, hs⟩ := Option.ite_none_left_eq_some.mp hs
    obtain ⟨real, hreal, rfl⟩ := Option.map_eq_some_iff.mp hs
    obtain rfl := Option.some.inj hreal
    exact hi.beside (beside_quiet rfl rfl (fun _ => rfl) rfl)

/-- No value but 0 is ever returned. -/
theorem Inv.not_refused (hi : Inv s) : ¬ Refused s := by
  rintro ⟨s', hr, r, hcall, v, hv, hne, -⟩
  have hi' : Inv s' := hr.keeps (I := Inv) (fun _ _ _ hi _ hst => inv_step hi hst) hi
  exact hne (hi'.ret r hcall v hv)

/-- A call is honest exactly if nothing fails in it. -/
theorem honest_iff (h : sys.Reach Sys.Always s) {r : CallAccount} (hr : s.call = some r) :
    Honest s r ↔ r.failed = false := by
  have hi : Inv s := h.inv (I := Inv) (fun _ => inv_start) fun _ _ _ hi _ hst => inv_step hi hst
  constructor
  · intro hh
    by_contra hf
    exact hi.not_refused (hh.failure (by simpa using hf))
  · intro hf
    refine ⟨fun ht => absurd (hf.symm.trans ht) (by simp), fun hret => ?_⟩
    rcases hi.performed r hr hret hf with hm | hp
    · obtain ⟨bs, hbs⟩ := Option.ne_none_iff_exists'.mp hm
      exact .inl ⟨bs, hbs, hi.holds r hr bs hbs⟩
    · exact .inr hp

/-- Node 0 of two, before its first call. -/
def sampleReport : Report := { real := sampleTransfer }

theorem sampleReport_start : Start sampleReport := ⟨sampleTransfer_start, rfl, rfl⟩

/-- Node 0 reads a byte of node 1. -/
theorem honest_iff_read : ∃ s r, sys.Reach Sys.Always s ∧ s.call = some r ∧ r.ret = some 0 ∧
    Honest s r := by
  obtain ⟨s, hr, r, hcall, hret, hf⟩ := Sys.exists_run_of_replay sys Sys.Always sampleReport
    [.storeRemote 1 4480 [7],
      .call .read 4416 (hmpGetHybridMempoolAddr 1 + BitVec.ofNat 64 4480) 1, .check {},
      .complete 0 .success, .poll 0, .ret]
    (p := fun s => ∃ r ∈ s.call, r.ret = some 0 ∧ r.failed = false) (by decide)
  have hreach : sys.Reach Sys.Always s := ⟨sampleReport, sampleReport_start, hr⟩
  exact ⟨s, r, hreach, hcall, hret, (honest_iff hreach hcall).mpr hf⟩

/-- `ibv_post_send` fails, and `hmp_write` returns 0. -/
theorem failed_write_returns_zero :
    ¬ ∀ s, sys.Reach Sys.Always s → ∀ r ∈ s.call, Honest s r := by
  intro h
  obtain ⟨s, hr, r, hcall, hf⟩ := Sys.exists_run_of_replay sys Sys.Always sampleReport
    [.call .write 4416 (hmpGetHybridMempoolAddr 1 + BitVec.ofNat 64 4480) 1, .check { err := 12 }]
    (p := fun s => ∃ r ∈ s.call, r.failed = true) (by decide)
  have hreach : sys.Reach Sys.Always s := ⟨sampleReport, sampleReport_start, hr⟩
  have hi : Inv s := hreach.inv (I := Inv) (fun _ => inv_start) fun _ _ _ hi _ hst => inv_step hi hst
  exact hi.not_refused ((h s hreach r hcall).failure hf)

end Report

end HMP
