import Hmp.Sanity.Steady

/-! What one step of a cluster can do, said once: every invariant is a case
analysis on `Moves`. -/

namespace HMP

namespace Cluster

/-- Event `e` of node `i` takes the cluster from `s` to the state given. -/
inductive Moves (cfg : ClusterConfig) (s : Cluster) (i : ℕ) : NodeEvent → Cluster → Prop
  | memInit {base pageArray keys pool} (hm : s.main i = .memInit)
      (hp : hmpMempoolCreate HMP_DRAM_MEM_SIZE base pageArray keys = some pool) :
      Moves cfg s i (.memInit base pageArray keys)
        ((s.setNode i (hmpMemInit (s.node i) pool)).setMain i .listen)
  | memExit {base pageArray keys} (hm : s.main i = .memInit)
      (hp : hmpMempoolCreate HMP_DRAM_MEM_SIZE base pageArray keys = none) :
      Moves cfg s i (.memInit base pageArray keys) (s.setMain i .exited)
  | listen {ret} (hm : s.main i = .listen) :
      Moves cfg s i (.main ret)
        ((s.setNode i (hmpTransportListen (s.node i) ret).1).setMain i .memset)
  | clear {ret} (hm : s.main i = .memset) :
      Moves cfg s i (.main ret) ((s.setNode i (clearTable (s.node i))).setMain i
        (.loop ((s.node i).config.curnodeId + 1)))
  | create {ret k} (hm : s.main i = .loop k) (hk : k < (s.node i).config.nodeCnt) (hr : ret = 0) :
      Moves cfg s i (.main ret) ((s.setNode i (peerCreate (s.node i) k true).1).setMain i
        (.peer k (s.node i).nextTrans .nodeId))
  | createExit {ret k} (hm : s.main i = .loop k) (hk : k < (s.node i).config.nodeCnt)
      (hr : ret ≠ 0) :
      Moves cfg s i (.main ret) ((s.setNode i (peerCreate (s.node i) k false).1).setMain i .exited)
  | done {ret k} (hm : s.main i = .loop k) (hk : ¬ k < (s.node i).config.nodeCnt) :
      Moves cfg s i (.main ret) (s.setMain i .done)
  | peer {ret k t stmt} (hm : s.main i = .peer k t stmt) :
      Moves cfg s i (.main ret)
        ((s.setNode i (stmt.exec (s.node i) k t)).setMain i (stmt.next k t))
  | entry {ret k t} (hm : s.main i = .connect k t .entry) :
      Moves cfg s i (.main ret) ((s.setNode i (connectEntry (s.node i) t
        ((s.node i).config.nodeInfos k).addr ((s.node i).config.nodeInfos k).port 1).1).setMain i
        (if ((s.node i).config.nodeInfos k).port = 0 then .loop (k + 1) else .connect k t .createId))
  | createIdFail {ret k t} (hm : s.main i = .connect k t .createId) (hr : ret ≠ 0) :
      Moves cfg s i (.main ret) ((s.setNode i ((s.node i).setTrans t
        { (s.node i).trans t with cmId := none })).setMain i (.loop (k + 1)))
  | createId {ret k t} (hm : s.main i = .connect k t .createId) (hr : ret = 0) :
      Moves cfg s i (.main ret) (((s.setNode i ((s.node i).setTrans t
        { (s.node i).trans t with cmId := some ⟨s.nconn, true⟩ })).setMain i
          (.connect k t .resolveAddr)).addConn { src := i, srcTrans := t })
  | resolveFail {ret k t} (hm : s.main i = .connect k t .resolveAddr) (hr : ret ≠ 0) :
      Moves cfg s i (.main ret) ((s.setNode i ((s.node i).setTrans t
        { (s.node i).trans t with cmId := none })).setMain i (.loop (k + 1)))
  | resolve {ret k t cm} (hm : s.main i = .connect k t .resolveAddr) (hr : ret = 0)
      (hcm : ((s.node i).trans t).cmId = some cm) :
      Moves cfg s i (.main ret) (((s.setNode i (s.node i)).setMain i (.connect k t .setState)).setConn
        cm.conn { s.conn cm.conn with
          phase := .addr, dst := cfg.nodeAt ((s.node i).trans t).peerAddr.addr })
  | setState {ret k t} (hm : s.main i = .connect k t .setState) :
      Moves cfg s i (.main ret)
        ((s.setNode i ((s.node i).setState t .connecting)).setMain i (.loop (k + 1)))
  | cm {t e cm x} (hl : s.loop i = .idle) (hcm : ((s.node i).trans t).cmId = some cm)
      (hx : (s.conn cm.conn).handled cm.active e (hmpHandleEcEvent (s.node i) t e).2 = some x) :
      Moves cfg s i (.cm t e) ((s.setNode i (hmpHandleEcEvent (s.node i) t e).1).setConn cm.conn x)
  | requestFail {c o nd} (hc : c < s.nconn) (hph : (s.conn c).phase = .requested)
      (hd : (s.conn c).dst = some i) (hli : (s.node i).listenState = .listen) (hl : s.loop i = .idle)
      (hr : requestTransport (s.node i) ⟨c, false⟩ o = (nd, none)) :
      Moves cfg s i (.request c o) ((s.setNode i nd).setConn c { s.conn c with phase := .dead })
  | request {c o} (hc : c < s.nconn) (hph : (s.conn c).phase = .requested)
      (hd : (s.conn c).dst = some i) (hli : (s.node i).listenState = .listen)
      (hl : s.loop i = .idle) :
      Moves cfg s i (.request c o) (((s.setNode i ((withRequest (s.node i) ⟨c, false⟩
        (hmpDeviceLookup (s.node i) o.verbs)).setQp (s.node i).nextTrans
          { live := true, registered := true })).setConn c
        { s.conn c with phase := .answering, dstTrans := some (s.node i).nextTrans }).setLoop i
          (.storing c (s.node i).nextTrans))
  | register {c t} (hl : s.loop i = .storing c t) :
      Moves cfg s i .register ((s.setNode i (requestRegister (s.node i) t
        (cfg.nodeInfos (s.conn c).src).addr)).setLoop i (.accepting c t))
  | acceptFail {c t o} (hl : s.loop i = .accepting c t) (ha : o.accept ≠ 0) :
      Moves cfg s i (.accept o)
        (((s.setNode i (hmpPrePostRecv (s.node i) t o.recv₁ o.recv₂)).setConn c
          { s.conn c with phase := .dead }).setLoop i .idle)
  | accept {c t o} (hl : s.loop i = .accepting c t) (ha : o.accept = 0) :
      Moves cfg s i (.accept o)
        (((s.setNode i (hmpPrePostRecv (s.node i) t o.recv₁ o.recv₂)).setConn c
          { s.conn c with
            phase := if (s.conn c).phase = .answering then .accepted else (s.conn c).phase }).setLoop
          i (.connecting t))
  | requestDone {t} (hl : s.loop i = .connecting t) :
      Moves cfg s i .requestDone
        ((s.setNode i ((s.node i).setState t .connecting)).setLoop i .idle)
  | pollInit {t wc rest nd} (hl : s.loop i = .idle) (hq : ((s.node i).qp t).cq = wc :: rest)
      (hnd : nd = (s.node i).setQp t { (s.node i).qp t with cq := rest })
      (hs : wc.status = .success) (hi : isInitMsg nd wc = true) :
      Moves cfg s i (.poll t) ((s.setNode i nd).setLoop i
        (.mr (nd.task wc.wrId).rdmaTrans ((nd.task wc.wrId).sge.addr + HEADER_SIZE) .addr))
  | poll {t wc rest nd} (hl : s.loop i = .idle) (hq : ((s.node i).qp t).cq = wc :: rest)
      (hnd : nd = (s.node i).setQp t { (s.node i).qp t with cq := rest })
      (hi : ¬ (wc.status = .success ∧ isInitMsg nd wc = true)) :
      Moves cfg s i (.poll t) (s.setNode i (dispatchWc nd wc))
  | mr {t data stmt} (hl : s.loop i = .mr t data stmt) :
      Moves cfg s i .mr ((s.setNode i (stmt.exec (s.node i) t data)).setLoop i (stmt.next t data))
  | loopExit (hl : s.loop i = .idle) (hs : (s.node i).stop = true) :
      Moves cfg s i .loopExit (s.setLoop i .ended)
  | complete {t status sent cm wr rest} (hcm : ((s.node i).trans t).cmId = some cm)
      (hq : ((s.node i).qp t).sq = wr :: rest)
      (ho : ¬ (wr.opcode = .send ∧ (status = .success ∨ sent = true))) :
      Moves cfg s i (.complete t status sent) (s.setNode i ((s.node i).setQp t
        { (s.node i).qp t with
          sq := rest
          cq := ((s.node i).qp t).cq ++
            [{ wrId := wr.wrId, status := status, opcode := wr.opcode.wc }] }))
  | send {t status sent cm wr rest} (hcm : ((s.node i).trans t).cmId = some cm)
      (hq : ((s.node i).qp t).sq = wr :: rest) (ho : wr.opcode = .send)
      (hs : status = .success ∨ sent = true) :
      Moves cfg s i (.complete t status sent) ((s.setNode i ((s.node i).setQp t
        { (s.node i).qp t with
          sq := rest
          cq := ((s.node i).qp t).cq ++
            [{ wrId := wr.wrId, status := status, opcode := wr.opcode.wc }] })).setConn cm.conn
        ((s.conn cm.conn).push cm.active ((s.node i).mem.read wr.sge.addr wr.sge.length)))
  | deliver {t cm wr rest bytes x} (hcm : ((s.node i).trans t).cmId = some cm)
      (hq : ((s.node i).qp t).rq = wr :: rest)
      (hx : (s.conn cm.conn).pop cm.active = some (bytes, x)) (hlive : ((s.node i).qp t).live = true)
      (hlen : bytes.length ≤ wr.sge.length) :
      Moves cfg s i (.deliver t) ((s.setNode i { (s.node i).setQp t
        { (s.node i).qp t with
          rq := rest
          cq := ((s.node i).qp t).cq ++ [{ wrId := wr.wrId, status := .success, opcode := .recv
                                           byteLen := bytes.length }] } with
        mem := (s.node i).mem.write wr.sge.addr bytes }).setConn cm.conn x)
  | recvError {t status wr rest} (hq : ((s.node i).qp t).rq = wr :: rest)
      (hs : status ≠ .success) :
      Moves cfg s i (.recvError t status) (s.setNode i ((s.node i).setQp t
        { (s.node i).qp t with
          rq := rest
          cq := ((s.node i).qp t).cq ++
            [{ wrId := wr.wrId, status := status, opcode := .recv }] }))
  | check {t} (hc : ((s.node i).trans t).transState = .connected) :
      Moves cfg s i (.check t)
        { s with checked := Function.update s.checked i (t :: s.checked i) }
  | post {t op localAddr remoteAddr length o nd} (hc : t ∈ s.checked i)
      (hnd : nd = (rdmaPostOf op (s.node i) t localAddr remoteAddr length o).1) :
      Moves cfg s i (.post t op localAddr remoteAddr length o) { s.setNode i nd with
        checked := Function.update s.checked i ((s.checked i).erase t)
        posted := s.posted ++
          ((nd.qp t).sq.drop ((s.node i).qp t).sq.length).map fun wr => (i, t, wr) }
  | store {addr bytes} :
      Moves cfg s i (.store addr bytes)
        (s.setNode i { s.node i with mem := (s.node i).mem.write addr bytes })

variable {cfg : ClusterConfig} {s s' : Cluster} {i : ℕ}

theorem checkState_zero {st : TransportState} :
    hmpTransportCheckState st = some 0 ↔ st = .connected := by
  cases st <;> simp [hmpTransportCheckState, TransportState.val]

theorem connectStep_moves {k t : ℕ} {pc : ConnectPc} {ret : ℤ}
    (hm : s.main i = .connect k t pc) (h : s.connectStep cfg i k t pc ret = some s') :
    Moves cfg s i (.main ret) s' := by
  cases pc with
  | entry =>
    have hpc : ((connectEntry (s.node i) t ((s.node i).config.nodeInfos k).addr
        ((s.node i).config.nodeInfos k).port 1).2.elim (MainPc.connect k t .createId)
          fun _ => .loop (k + 1)) = if ((s.node i).config.nodeInfos k).port = 0 then .loop (k + 1)
        else .connect k t .createId := by
      by_cases hp : ((s.node i).config.nodeInfos k).port = 0 <;>
        simp [connectEntry, hmpPortUriInit, hp]
    simp only [connectStep, hpc, Option.some.injEq] at h
    exact h ▸ .entry hm
  | createId =>
    by_cases hr : ret = 0
    · simp only [connectStep, connectCreateId, hr, ne_eq, not_true, if_false,
        Option.some.injEq] at h
      exact h ▸ .createId hm hr
    · simp only [connectStep, connectCreateId, ne_eq, hr, not_false_eq_true, if_true,
        Option.some.injEq] at h
      exact h ▸ .createIdFail hm hr
  | resolveAddr =>
    by_cases hr : ret = 0
    · simp only [connectStep, connectResolve, hr, ne_eq, not_true, if_false] at h
      split at h
      · simp_all
      · rename_i nd cm heq hcm
        simp only [Prod.mk.injEq, and_true] at heq
        subst heq
        simp only [Option.some.injEq] at h
        exact h ▸ .resolve hm hr hcm
      · simp at h
    · simp only [connectStep, connectResolve, ne_eq, hr, not_false_eq_true, if_true,
        Option.some.injEq] at h
      exact h ▸ .resolveFail hm hr
  | setState =>
    simp only [connectStep, Option.some.injEq] at h
    exact h ▸ .setState hm
  | returned ret => simp [connectStep] at h

theorem mainStep_moves {ret : ℤ} (h : s.mainStep cfg i ret = some s') :
    Moves cfg s i (.main ret) s' := by
  unfold mainStep at h
  cases hm : s.main i with
  | memInit | done | exited => simp [hm] at h
  | listen =>
    simp only [hm, Option.some.injEq] at h
    exact h ▸ .listen hm
  | memset =>
    simp only [hm, Option.some.injEq] at h
    exact h ▸ .clear hm
  | loop k =>
    simp only [hm] at h
    by_cases hk : k < (s.node i).config.nodeCnt
    · rw [if_pos hk] at h
      by_cases hr : ret = 0
      · simp only [hr, decide_true, peerCreate_eq, Option.some.injEq] at h
        exact h ▸ .create hm hk hr
      · simp only [hr, decide_false, peerCreate, hmpTransportCreate, Bool.false_eq_true, if_false,
          Option.some.injEq] at h
        exact h ▸ .createExit hm hk hr
    · rw [if_neg hk] at h
      simp only [Option.some.injEq] at h
      exact h ▸ .done hm hk
  | peer k t stmt =>
    simp only [hm, Option.some.injEq] at h
    exact h ▸ .peer hm
  | connect k t pc =>
    simp only [hm] at h
    exact connectStep_moves hm h

theorem memInitStep_moves {base : Option (Block (poolPages HMP_DRAM_MEM_SIZE * HMP_PAGE_SIZE))}
    {pageArray : Bool} {keys : Option MrKeys}
    (h : s.memInitStep i (hmpMempoolCreate HMP_DRAM_MEM_SIZE base pageArray keys) = some s') :
    Moves cfg s i (.memInit base pageArray keys) s' := by
  unfold memInitStep at h
  split at h
  · rename_i pool hm hp
    simp only [Option.some.injEq] at h
    exact h ▸ .memInit hm hp
  · rename_i hm hp
    simp only [Option.some.injEq] at h
    exact h ▸ .memExit hm hp
  · simp at h

theorem cmStep_moves {t : ℕ} {e : CmEvent} (h : s.cmStep i t e = some s') :
    Moves cfg s i (.cm t e) s' := by
  unfold cmStep at h
  split at h
  · rename_i cm hl hcm
    obtain ⟨x, hx, rfl⟩ := Option.map_eq_some_iff.mp h
    exact .cm hl hcm hx
  · simp at h

theorem requestStep_moves {c : ℕ} {o : RequestOutcome} (h : s.requestStep i c o = some s') :
    Moves cfg s i (.request c o) s' := by
  unfold requestStep at h
  simp only [Option.ite_none_right_eq_some] at h
  obtain ⟨⟨hc, hph, hd, hli, hl⟩, h⟩ := h
  split at h
  · rename_i nd hr
    simp only [Option.some.injEq] at h
    exact h ▸ .requestFail hc hph hd hli hl hr
  · rename_i nd t hr
    obtain ⟨rfl, rfl⟩ := requestTransport_some hr
    simp only [Option.some.injEq] at h
    exact h ▸ .request hc hph hd hli hl

theorem acceptStep_moves {o : RequestOutcome} (h : s.acceptStep i o = some s') :
    Moves cfg s i (.accept o) s' := by
  unfold acceptStep at h
  split at h
  · rename_i c t hl
    by_cases ha : o.accept = 0
    · simp only [requestAccept, ha, ne_eq, not_true, if_false, Option.some.injEq] at h
      exact h ▸ .accept hl ha
    · simp only [requestAccept, ne_eq, ha, not_false_eq_true, if_true] at h
      rw [if_pos (by decide)] at h
      simp only [Option.some.injEq] at h
      exact h ▸ .acceptFail hl ha
  · simp at h

theorem pollStep_moves {t : ℕ} (h : s.pollStep i t = some s') : Moves cfg s i (.poll t) s' := by
  unfold pollStep at h
  dsimp only at h
  split at h
  · rename_i wc rest hl hq
    split_ifs at h with hi
    · simp only [Option.some.injEq] at h
      exact h ▸ .pollInit hl hq rfl hi.1 hi.2
    · simp only [Option.some.injEq] at h
      exact h ▸ .poll hl hq rfl hi
  · simp at h

theorem completeStep_moves {t : ℕ} {status : IbvWcStatus} {sent : Bool}
    (h : s.completeStep i t status sent = some s') :
    Moves cfg s i (.complete t status sent) s' := by
  unfold completeStep at h
  dsimp only at h
  split at h
  · rename_i cm wr rest hcm hq
    split_ifs at h with ho
    · simp only [Option.some.injEq] at h
      exact h ▸ .send hcm hq ho.1 ho.2
    · simp only [Option.some.injEq] at h
      exact h ▸ .complete hcm hq ho
  · simp at h

theorem deliverStep_moves {t : ℕ} (h : s.deliverStep i t = some s') :
    Moves cfg s i (.deliver t) s' := by
  unfold deliverStep at h
  dsimp only at h
  split at h
  · rename_i cm wr rest hcm hq
    obtain ⟨⟨bytes, x⟩, hx, h⟩ := Option.bind_eq_some_iff.mp h
    simp only [Option.ite_none_right_eq_some, Option.some.injEq] at h
    obtain ⟨⟨hlive, hlen⟩, h⟩ := h
    exact h ▸ .deliver hcm hq hx hlive hlen
  · simp at h

theorem recvErrorStep_moves {t : ℕ} {status : IbvWcStatus}
    (h : s.recvErrorStep i t status = some s') : Moves cfg s i (.recvError t status) s' := by
  unfold recvErrorStep at h
  dsimp only at h
  cases hq : ((s.node i).qp t).rq with
  | nil => simp [hq] at h
  | cons wr rest =>
    simp only [hq, Option.ite_none_left_eq_some, Option.some.injEq] at h
    exact h.2 ▸ .recvError hq h.1

theorem nodeStep_moves {e : NodeEvent} (h : s.nodeStep cfg i e = some s') : Moves cfg s i e s' := by
  cases e with
  | memInit base pageArray keys => exact memInitStep_moves h
  | main ret => exact mainStep_moves h
  | cm t e => exact cmStep_moves h
  | request c o => exact requestStep_moves h
  | register =>
    simp only [nodeStep, registerStep] at h
    split at h
    · rename_i c t hl
      simp only [Option.some.injEq] at h
      exact h ▸ .register hl
    · simp at h
  | accept o => exact acceptStep_moves h
  | requestDone =>
    simp only [nodeStep, requestDoneStep] at h
    split at h
    · rename_i t hl
      simp only [Option.some.injEq] at h
      exact h ▸ .requestDone hl
    · simp at h
  | poll t => exact pollStep_moves h
  | mr =>
    simp only [nodeStep, mrStep] at h
    split at h
    · rename_i t data stmt hl
      simp only [Option.some.injEq] at h
      exact h ▸ .mr hl
    · simp at h
  | loopExit =>
    simp only [nodeStep, Option.ite_none_right_eq_some, Option.some.injEq] at h
    exact h.2 ▸ .loopExit h.1.2 h.1.1
  | complete t status sent => exact completeStep_moves h
  | deliver t => exact deliverStep_moves h
  | recvError t status => exact recvErrorStep_moves h
  | check t =>
    simp only [nodeStep, checkStep, Option.ite_none_right_eq_some, Option.some.injEq] at h
    exact h.2 ▸ .check (checkState_zero.mp h.1)
  | post t op localAddr remoteAddr length o =>
    simp only [nodeStep, postStep, Option.ite_none_right_eq_some, Option.some.injEq] at h
    exact h.2 ▸ .post h.1 rfl
  | store addr bytes =>
    simp only [nodeStep, Option.some.injEq] at h
    exact h ▸ .store

/-- Every step is a move of one of the nodes. -/
theorem step_moves {e : ℕ × NodeEvent} (h : (sys cfg).step s e = some s') :
    e.1 < cfg.nodeCnt ∧ Moves cfg s e.1 e.2 s' := by
  have h : (if e.1 < cfg.nodeCnt then s.nodeStep cfg e.1 e.2 else none) = some s' := h
  simp only [Option.ite_none_right_eq_some] at h
  exact ⟨h.1, nodeStep_moves h.2⟩

/-! ## Runs of two nodes -/

instance (s : Cluster) (e : ℕ × NodeEvent) : Decidable (NoFailure s e) :=
  inferInstanceAs (Decidable (s.noFailure e = true))

instance (s : Cluster) (e : ℕ × NodeEvent) : Decidable (ClearedFirst s e) :=
  inferInstanceAs (Decidable (s.noFailure e = true ∧ s.storesBeforeClear e = false))

instance (cfg : ClusterConfig) (s : Cluster) :
    (e : ℕ × NodeEvent) → Decidable (SlotsUntouched cfg s e)
  | (i, .store addr bytes) =>
    match h : (s.node i).dramMempool with
    | none => .isTrue fun pool hp => by simp [h] at hp
    | some pool => decidable_of_iff (addr + bytes.length ≤ pool.baseAddr ∨
        pool.baseAddr + msgArea cfg.nodeCnt ≤ addr)
        ⟨fun hd q hq => Option.some.inj (h.symm.trans hq) ▸ hd, fun hd => hd pool h⟩
  | (_, .memInit ..) | (_, .main _) | (_, .cm ..) | (_, .request ..) | (_, .register)
  | (_, .accept _) | (_, .requestDone) | (_, .poll _) | (_, .mr) | (_, .loopExit)
  | (_, .complete ..) | (_, .deliver _) | (_, .recvError ..) | (_, .check _) | (_, .post ..) =>
    .isTrue trivial

instance (cfg : ClusterConfig) (s : Cluster) : Decidable (AllConnected cfg s) :=
  inferInstanceAs (Decidable ((∀ i < cfg.nodeCnt, s.main i = .done) ∧
    ∀ c < s.nconn, (s.conn c).srcEst = true ∧ (s.conn c).dstEst = true))

def sampleConfig : ClusterConfig where
  nodeCnt := 2
  nodeInfos k := { addr := if k = 0 then "10.0.0.1" else "10.0.0.2", port := 18515 }
  nodeCnt_le := by decide
  distinct := by decide

def sample : Cluster where
  node i := { config := sampleConfig.config i, devList := [⟨1, 1, {}⟩] }

theorem sample_start : Start sampleConfig sample := by
  refine ⟨?_, ?_, rfl, rfl⟩
  · have h : ∀ i < sampleConfig.nodeCnt, hmpSetCurnodeId (sampleConfig.config i)
        (sampleConfig.nodeInfos i).addr = some i := by decide
    exact fun i hi => ⟨i, _, _, h i hi, rfl⟩
  · exact fun i _ => ⟨rfl, rfl, rfl⟩

/-- `hmp_mem_init` of a node that gets its pool at `base` and the key `rkey` for it. -/
def createPool (base rkey : ℕ)
    (hb : 0 < base ∧ base + poolPages HMP_DRAM_MEM_SIZE * HMP_PAGE_SIZE ≤ 2 ^ 48)
    (hr : rkey < 2 ^ 32) : NodeEvent :=
  .memInit (some ⟨base, hb⟩) true (some ⟨1, rkey, hr⟩)

/-- Node 0 runs through `hmp_node_init`; its transport to node 1 sends the request. -/
def sampleConnect : List (ℕ × NodeEvent) :=
  (0, createPool 4096 55 (by decide) (by decide)) :: List.replicate 12 (0, .main 0) ++
    [(0, .cm 0 (.addrResolved 1 0)), (0, .cm 0 (.routeResolved {}))]

/-- Node 1 accepts the request, and both ends are told. -/
def sampleAccept : List (ℕ × NodeEvent) :=
  [(1, .accept {}), (1, .requestDone), (0, .cm 0 (.established {} {})),
    (1, .cm 0 (.established {} {}))]

/-- Node 1 has finished `hmp_node_init` when the request of node 0 arrives. -/
def sampleStartup : List (ℕ × NodeEvent) :=
  (1, createPool 8192 77 (by decide) (by decide)) :: List.replicate 3 (1, .main 0) ++
    sampleConnect ++ [(1, .request 0 { verbs := 1 }), (1, .register)] ++ sampleAccept

/-- The INIT message of node 1 arrives at node 0. -/
def sampleExchange : List (ℕ × NodeEvent) :=
  [(1, .complete 0 .success true), (0, .deliver 0), (0, .poll 0)] ++ List.replicate 4 (0, .mr)

end Cluster

end HMP
