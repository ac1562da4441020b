import Hmp.Sanity.Tasks
import Hmp.Spec.Transfer
import Hmp.Proofs.Malloc

/-! The steps of the calls for global addresses, each with all it changes. -/

namespace HMP

/-- The request that `hmp_rdma_read` and `hmp_rdma_write` post for a new task. -/
def transferWr (nd : Node) (opcode : IbvWrOpcode) (t localAddr remoteAddr : ℕ) (length : ℤ) :
    IbvSendWr :=
  { wrId := nd.nextTask, opcode := opcode
    sge := { addr := localAddr, length := (length % 2 ^ 32).toNat, lkey := nd.lkey }
    remoteAddr := remoteAddr
    rkey := (nd.config.nodeInfos (nd.trans t).nodeId).dramMr.rkey }

/-- The process with the task of a transfer. -/
def withTask (nd : Node) (type : TaskType) (t localAddr : ℕ) (length : ℤ) : Node :=
  (transferTask nd type t localAddr length true).1

theorem hmpRdmaReadPost_eq (nd : Node) (t localAddr remoteAddr : ℕ) (length : ℤ)
    (o : PostOutcome) :
    hmpRdmaReadPost nd t localAddr remoteAddr length o =
      if o.task then
        (if o.err = 0 then (withTask nd .read t localAddr length).setQp t { nd.qp t with
            sq := (nd.qp t).sq ++ [transferWr nd .rdmaRead t localAddr remoteAddr length] }
          else withTask nd .read t localAddr length, some nd.nextTask)
      else (nd, none) := by
  simp [hmpRdmaReadPost, rdmaPost, hmpReadTaskCreate, withTask, transferTask, transferWr,
    Node.allocTask, taskLkey]

theorem hmpRdmaWritePost_eq (nd : Node) (t localAddr remoteAddr : ℕ) (length : ℤ)
    (o : PostOutcome) :
    hmpRdmaWritePost nd t localAddr remoteAddr length o =
      if o.task then
        (if o.err = 0 then (withTask nd .write t localAddr length).setQp t { nd.qp t with
            sq := (nd.qp t).sq ++ [transferWr nd .rdmaWrite t localAddr remoteAddr length] }
          else withTask nd .write t localAddr length, some nd.nextTask)
      else (nd, none) := by
  simp [hmpRdmaWritePost, rdmaPost, hmpWriteTaskCreate, withTask, transferTask, transferWr,
    Node.allocTask, taskLkey]

theorem withTask_adds (nd : Node) (type : TaskType) (t localAddr : ℕ) (length : ℤ) :
    nd.AddsTasks (withTask nd type t localAddr length) :=
  ⟨Nat.le_succ _, fun p hp => by simp [withTask, transferTask, Node.allocTask, hp.ne]⟩

@[simp] theorem withTask_task (nd : Node) (type : TaskType) (t localAddr : ℕ) (length : ℤ) :
    (withTask nd type t localAddr length).task nd.nextTask =
      { type := type
        sge := { addr := localAddr, length := (length % 2 ^ 32).toNat, lkey := nd.lkey }
        rdmaTrans := t } := by
  simp [withTask, transferTask, Node.allocTask, taskLkey]

@[simp] theorem withTask_qp (nd : Node) (type : TaskType) (t localAddr : ℕ) (length : ℤ) :
    (withTask nd type t localAddr length).qp = nd.qp := rfl

@[simp] theorem withTask_nextTask (nd : Node) (type : TaskType) (t localAddr : ℕ) (length : ℤ) :
    (withTask nd type t localAddr length).nextTask = nd.nextTask + 1 := rfl

/-- Behind a post, whether it fails or not. -/
structure AfterPost (nd nd' : Node) (opcode : IbvWrOpcode) (t localAddr addr : ℕ) (length : ℤ) :
    Prop where
  config : nd'.config = nd.config
  mem : nd'.mem = nd.mem
  nextTask : nd.nextTask ≤ nd'.nextTask
  sq : ∀ u, ∀ wr ∈ (nd'.qp u).sq, wr ∈ (nd.qp u).sq ∨
    u = t ∧ wr = transferWr nd opcode t localAddr addr length ∧ nd.nextTask < nd'.nextTask
  cq : ∀ u, (nd'.qp u).cq = (nd.qp u).cq

theorem afterPost_of_eq {nd : Node} {o : PostOutcome} {type : TaskType} {opcode : IbvWrOpcode}
    {t localAddr addr : ℕ} {length : ℤ} {r : Node × Option ℕ}
    (h : r = if o.task then
        (if o.err = 0 then (withTask nd type t localAddr length).setQp t { nd.qp t with
            sq := (nd.qp t).sq ++ [transferWr nd opcode t localAddr addr length] }
          else withTask nd type t localAddr length, some nd.nextTask)
      else (nd, none)) :
    AfterPost nd r.1 opcode t localAddr addr length := by
  rw [h]
  split_ifs
  · refine ⟨rfl, rfl, Nat.le_succ _, fun u wr hwr => ?_, fun u => ?_⟩ <;> by_cases hu : u = t
    · subst hu
      simp only [Node.setQp_qp, Function.update_self, List.mem_append, List.mem_singleton] at hwr
      exact hwr.imp_right fun hwr => ⟨rfl, hwr, Nat.lt_succ_self _⟩
    · simp only [Node.setQp_qp, Function.update_of_ne hu, withTask_qp] at hwr
      exact .inl hwr
    · subst hu; simp
    · simp [hu]
  · exact ⟨rfl, rfl, Nat.le_succ _, fun u wr hwr => .inl hwr, fun u => rfl⟩
  · exact ⟨rfl, rfl, le_rfl, fun u wr hwr => .inl hwr, fun u => rfl⟩

theorem hmpRdmaReadPost_after (nd : Node) (t localAddr addr : ℕ) (length : ℤ) (o : PostOutcome) :
    AfterPost nd (hmpRdmaReadPost nd t localAddr addr length o).1 .rdmaRead t localAddr addr
      length :=
  afterPost_of_eq (hmpRdmaReadPost_eq ..)

theorem hmpRdmaWritePost_after (nd : Node) (t localAddr addr : ℕ) (length : ℤ) (o : PostOutcome) :
    AfterPost nd (hmpRdmaWritePost nd t localAddr addr length o).1 .rdmaWrite t localAddr addr
      length :=
  afterPost_of_eq (hmpRdmaWritePost_eq ..)

/-- The process behind a post that succeeds. -/
def withPosted (nd : Node) (type : TaskType) (opcode : IbvWrOpcode) (t localAddr remoteAddr : ℕ)
    (length : ℤ) : Node :=
  (withTask nd type t localAddr length).setQp t { nd.qp t with
    sq := (nd.qp t).sq ++ [transferWr nd opcode t localAddr remoteAddr length] }

theorem hmpRdmaReadPost_ok (nd : Node) (t localAddr remoteAddr : ℕ) (length : ℤ) :
    (hmpRdmaReadPost nd t localAddr remoteAddr length {}).1 =
      withPosted nd .read .rdmaRead t localAddr remoteAddr length := by
  rw [hmpRdmaReadPost_eq]
  rfl

theorem hmpRdmaWritePost_ok (nd : Node) (t localAddr remoteAddr : ℕ) (length : ℤ) :
    (hmpRdmaWritePost nd t localAddr remoteAddr length {}).1 =
      withPosted nd .write .rdmaWrite t localAddr remoteAddr length := by
  rw [hmpRdmaWritePost_eq]
  rfl

namespace Transfer

theorem callStep_some {s s' : Transfer} {op : TransferOp} {localAddr : ℕ} {hmAddr : BitVec 64}
    {length : ℤ} (h : s.callStep op localAddr hmAddr length = some s') :
    s.app = .idle ∧ ∃ r, hmpGetHmNodeId s.node.config.nodeCnt hmAddr = some r ∧
      ((∃ mem, access s.node op localAddr hmAddr length = some (.copied mem) ∧
          s' = { s with
            node := { s.node with mem := mem }
            hist := s.hist ++
              [⟨op, r.1, r.2.toNat, mem.read localAddr (length % 2 ^ 64).toNat⟩] }) ∨
        ∃ t addr, access s.node op localAddr hmAddr length = some (.remote t addr) ∧
          s' = { s with app := .checking ⟨op, r.1, t, localAddr, addr, length⟩ }) := by
  obtain ⟨happ, h⟩ := Option.ite_none_right_eq_some.mp h
  obtain ⟨r, hr, h⟩ := Option.bind_eq_some_iff.mp h
  obtain ⟨acc, hacc, rfl⟩ := Option.map_eq_some_iff.mp h
  refine ⟨happ, r, hr, ?_⟩
  cases acc with
  | copied mem => exact .inl ⟨mem, hacc, rfl⟩
  | remote t addr => exact .inr ⟨t, addr, hacc, rfl⟩

/-- The copy between the local buffer and an address of the own pool. -/
def copyOf (nd : Node) (op : TransferOp) (localAddr : ℕ) (length : ℤ) (a : ℕ) : Option Mem :=
  match op with
  | .read => memcpy nd.mem localAddr a (length % 2 ^ 64).toNat
  | .write => memcpy nd.mem a localAddr (length % 2 ^ 64).toNat

theorem access_eq (nd : Node) (op : TransferOp) (localAddr : ℕ) (hmAddr : BitVec 64) (length : ℤ) :
    access nd op localAddr hmAddr length =
      accessPath nd hmAddr (copyOf nd op localAddr length) := by
  cases op <;> rfl

/-- The transport of a call that takes the remote path is the one in the table. -/
theorem access_remote {nd : Node} {op : TransferOp} {localAddr : ℕ} {hmAddr : BitVec 64}
    {length : ℤ} {t addr : ℕ} (h : access nd op localAddr hmAddr length = some (.remote t addr)) :
    ∃ r, hmpGetHmNodeId nd.config.nodeCnt hmAddr = some r ∧ r.1 ≠ nd.config.curnodeId ∧
      nd.connectTrans r.1 = some t ∧ addr = r.2.toNat := by
  rw [access_eq] at h
  obtain ⟨r, hr, hb⟩ := Option.bind_eq_some_iff.mp h
  by_cases hc : r.1 = nd.config.curnodeId
  · rw [if_pos hc] at hb
    obtain ⟨m, -, hm⟩ := Option.map_eq_some_iff.mp hb
    exact absurd hm (by simp)
  · rw [if_neg hc] at hb
    obtain ⟨u, hu, hm⟩ := Option.map_eq_some_iff.mp hb
    simp only [Access.remote.injEq] at hm
    exact ⟨r, hr, hc, hm.1 ▸ hu, hm.2.symm⟩

theorem hmpGetHmNodeId_lt {cnt : ℕ} {hmAddr : BitVec 64} {r : ℕ × BitVec 64}
    (h : hmpGetHmNodeId cnt hmAddr = some r) : r.1 < cnt := by
  obtain ⟨hr, rfl⟩ := Option.ite_none_right_eq_some.mp h |>.imp_right Option.some.inj
  dsimp only
  omega

/-- A call that finishes with a copy is for the own pool. -/
theorem access_copied {nd : Node} {op : TransferOp} {localAddr : ℕ} {hmAddr : BitVec 64}
    {length : ℤ} {mem : Mem} (h : access nd op localAddr hmAddr length = some (.copied mem)) :
    ∃ r, hmpGetHmNodeId nd.config.nodeCnt hmAddr = some r ∧ r.1 = nd.config.curnodeId ∧
      copyOf nd op localAddr length r.2.toNat = some mem := by
  rw [access_eq] at h
  obtain ⟨r, hr, hb⟩ := Option.bind_eq_some_iff.mp h
  by_cases hc : r.1 = nd.config.curnodeId
  · rw [if_pos hc] at hb
    obtain ⟨m, hm, he⟩ := Option.map_eq_some_iff.mp hb
    exact ⟨r, hr, hc, by rw [hm, Access.copied.inj he]⟩
  · rw [if_neg hc] at hb
    obtain ⟨u, -, hm⟩ := Option.map_eq_some_iff.mp hb
    exact absurd hm (by simp)

theorem memcpy_some {m m' : Mem} {dst src n : ℕ} (h : memcpy m dst src n = some m') :
    (dst + n ≤ src ∨ src + n ≤ dst) ∧ m' = m.write dst (m.read src n) := by
  obtain ⟨hd, he⟩ := Option.ite_none_right_eq_some.mp h
  exact ⟨hd, (Option.some.inj he).symm⟩

theorem checkState_some {st : TransportState} {ret : ℤ} (h : hmpTransportCheckState st = some ret) :
    ret = -1 ∨ ret = 0 ∧ st = .connected := by
  cases st <;> simp_all [hmpTransportCheckState, TransportState.val]

theorem checkStep_some {s s' : Transfer} {o : PostOutcome} (h : s.checkStep o = some s') :
    ∃ c, s.app = .checking c ∧
      (s' = { s with app := .idle } ∨
        (s.node.trans c.t).transState = .connected ∧
          (c.op = .read ∧ s' = { s with
              node := (hmpRdmaReadPost s.node c.t c.localAddr c.addr c.length o).1
              app := if o.task then .waiting c s.node.nextTask else .idle } ∨
            c.op = .write ∧ s' = { s with
              node := (hmpRdmaWritePost s.node c.t c.localAddr c.addr c.length o).1
              app := .idle
              hist := s.hist ++ (if o.task ∧ o.err = 0 then
                [⟨.write, c.nodeId, c.addr, localBytes s.node c⟩] else []) })) := by
  unfold checkStep at h
  split at h
  · rename_i c happ
    refine ⟨c, happ, ?_⟩
    obtain ⟨ret, hret, hs⟩ := Option.map_eq_some_iff.mp h
    rcases checkState_some hret with rfl | ⟨rfl, hst⟩
    · exact .inl hs.symm
    · right
      refine ⟨hst, ?_⟩
      rw [if_neg (by decide)] at hs
      cases hop : c.op with
      | read =>
        rw [hop] at hs
        refine .inl ⟨rfl, hs.symm.trans ?_⟩
        cases ho : o.task <;> simp [hmpRdmaReadPost_eq, ho]
      | write =>
        rw [hop] at hs
        exact .inr ⟨rfl, hs.symm⟩
  · exact absurd h (by simp)

/-- The state behind a write that has posted its request. -/
def afterWrite (s : Transfer) (c : RemoteCall) : Transfer :=
  { s with
    node := withPosted s.node .write .rdmaWrite c.t c.localAddr c.addr c.length
    app := .idle
    hist := s.hist ++ [⟨.write, c.nodeId, c.addr, localBytes s.node c⟩] }

theorem checkStep_write {s : Transfer} {c : RemoteCall} (happ : s.app = .checking c)
    (hop : c.op = .write) (hst : (s.node.trans c.t).transState = .connected) :
    s.checkStep {} = some (afterWrite s c) := by
  simp [checkStep, happ, hop, hst, hmpTransportCheckState, hmpRdmaWritePost_ok, afterWrite]

theorem checkStep_read {s : Transfer} {c : RemoteCall} (happ : s.app = .checking c)
    (hop : c.op = .read) (hst : (s.node.trans c.t).transState = .connected) :
    s.checkStep {} = some { s with
      node := (hmpRdmaReadPost s.node c.t c.localAddr c.addr c.length {}).1
      app := .waiting c s.node.nextTask } := by
  simp [checkStep, happ, hop, hst, hmpTransportCheckState, hmpRdmaReadPost_eq]

theorem retStep_some {s s' : Transfer} (h : s.retStep = some s') :
    ∃ c p, s.app = .waiting c p ∧ (s.node.task p).type = .done ∧
      s' = { s with app := .idle
                    hist := s.hist ++ [⟨.read, c.nodeId, c.addr, localBytes s.node c⟩] } := by
  unfold retStep at h
  split at h
  · rename_i c p happ
    obtain ⟨hd, hs⟩ := Option.ite_none_right_eq_some.mp h
    exact ⟨c, p, happ, hd, (Option.some.inj hs).symm⟩
  · exact absurd h (by simp)

/-- The data of a request move between the memories, and nothing else changes. -/
theorem transferData_eq (s : Transfer) (t : ℕ) (wr : IbvSendWr) :
    s.transferData t wr = { s with
      node := { s.node with mem := (s.transferData t wr).node.mem }
      remote := (s.transferData t wr).remote } := by
  unfold transferData
  cases wr.opcode <;> rfl

theorem completeStep_some {s s' : Transfer} {t : ℕ} {status : IbvWcStatus}
    (h : s.completeStep t status = some s') :
    ∃ wr rest mem remote, (s.node.qp t).sq = wr :: rest ∧
      (status = .success → mem = (s.transferData t wr).node.mem ∧
        remote = (s.transferData t wr).remote) ∧
      (status ≠ .success → mem = s.node.mem ∧ remote = s.remote) ∧
      s' = { s with
        node := { s.node.setQp t { s.node.qp t with
          sq := rest
          cq := (s.node.qp t).cq ++
            [{ wrId := wr.wrId, status := status, opcode := wr.opcode.wc }] } with mem := mem }
        remote := remote } := by
  unfold completeStep at h
  cases hq : (s.node.qp t).sq with
  | nil => simp [hq] at h
  | cons wr rest =>
    simp only [hq, Option.some.injEq] at h
    by_cases hs : status = .success
    · rw [if_pos hs, transferData_eq] at h
      exact ⟨wr, rest, _, _, rfl, fun _ => ⟨rfl, rfl⟩, fun hc => absurd hs hc, h.symm⟩
    · rw [if_neg hs] at h
      exact ⟨wr, rest, s.node.mem, s.remote, rfl, fun hc => absurd hc hs, fun _ => ⟨rfl, rfl⟩,
        h.symm⟩

theorem recvStep_some {s s' : Transfer} {t : ℕ} {status : IbvWcStatus} {bytes : List UInt8}
    (h : s.recvStep t status bytes = some s') :
    ∃ wr rest, (s.node.qp t).rq = wr :: rest ∧
      s' = { s with node := { s.node.setQp t { s.node.qp t with
        rq := rest
        cq := (s.node.qp t).cq ++ [{ wrId := wr.wrId, status := status, opcode := .recv
                                     byteLen := bytes.length }] } with
        mem := s.node.mem.write wr.sge.addr bytes } } := by
  unfold recvStep at h
  cases hq : (s.node.qp t).rq with
  | nil => simp [hq] at h
  | cons wr rest =>
    simp only [hq, Option.ite_none_right_eq_some, Option.some.injEq] at h
    exact ⟨wr, rest, rfl, h.2.symm⟩

/-- A receive that fails brings no message. -/
theorem recvStep_bytes {s s' : Transfer} {t : ℕ} {status : IbvWcStatus} {bytes : List UInt8}
    (h : s.recvStep t status bytes = some s') : status = .success ∨ bytes = [] := by
  unfold recvStep at h
  cases hq : (s.node.qp t).rq with
  | nil => simp [hq] at h
  | cons wr rest =>
    simp only [hq, Option.ite_none_right_eq_some] at h
    exact h.1.2

theorem pollStep_some {s s' : Transfer} {t : ℕ} (h : s.pollStep t = some s') :
    ∃ wc rest, (s.node.qp t).cq = wc :: rest ∧ s.running = true ∧
      (s.node.qp t).registered = true ∧
      s' = { s with node := dispatchWc (s.node.setQp t { s.node.qp t with cq := rest }) wc } := by
  unfold pollStep at h
  cases hq : (s.node.qp t).cq with
  | nil => simp [hq] at h
  | cons wc rest =>
    simp only [hq, Option.ite_none_right_eq_some, Option.some.injEq] at h
    exact ⟨wc, rest, rfl, h.1.1, h.1.2, h.2.symm⟩

theorem cmStep_some {s s' : Transfer} {t : ℕ} {e : CmEvent} (h : s.cmStep t e = some s') :
    (e.type = .routeResolved → s.node.qp t = {}) ∧
      s' = { s with node := (hmpHandleEcEvent s.node t e).1 } := by
  obtain ⟨⟨-, hr⟩, hs⟩ := Option.ite_none_right_eq_some.mp h
  exact ⟨hr, (Option.some.inj hs).symm⟩

/-- Node 0 of two, connected to node 1, with no call under way. -/
def sampleTransfer : Transfer :=
  { node := { config := sampleConfig 0, dramMempool := some samplePool
              connectTrans := fun k => if k = 1 then some 0 else none
              trans := fun _ => { nodeId := 1, transState := .connected }
              nextTrans := 1
              qp := fun t => if t = 0 then { live := true, registered := true } else {} }
    remote := fun _ _ => 0, far := fun _ => 1 }

theorem sampleTransfer_start : Start sampleTransfer := by
  refine ⟨rfl, rfl, fun k t h => ?_, fun t ht => ?_, fun t => ?_⟩
  · obtain ⟨-, h⟩ := Option.ite_none_right_eq_some.mp h
    obtain rfl := Option.some.inj h
    exact Nat.lt_succ_self 0
  · exact if_neg (Nat.one_le_iff_ne_zero.mp ht)
  · by_cases h : t = 0 <;> constructor <;> simp [sampleTransfer, h]

theorem sampleTransfer_empty (t : ℕ) :
    (sampleTransfer.node.qp t).sq = [] ∧ (sampleTransfer.node.qp t).cq = [] := by
  by_cases h : t = 0 <;> simp [sampleTransfer, h]

theorem sampleTransfer_conn : Connected sampleTransfer := by
  refine ⟨rfl, by decide, by decide, fun k hk hne => ⟨0, ?_, ?_, ?_, rfl⟩,
    sampleTransfer_start.2.2.2.2⟩
  all_goals
    have hk' : k < 2 := hk
    have hne' : k ≠ 0 := hne
    obtain rfl : k = 1 := by omega
    rfl

theorem sampleTransfer_ready : Ready sampleTransfer :=
  ⟨sampleTransfer_conn, sampleTransfer_start, fun t wr hw => by
    rw [(sampleTransfer_empty t).1] at hw
    exact absurd hw (by simp)⟩

end Transfer

end HMP
