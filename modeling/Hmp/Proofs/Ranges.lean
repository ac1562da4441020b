import Hmp.Spec.Ranges
import Hmp.Proofs.ReadPath

/-! The copy of the own path takes every range, also one that leaves the pool; the adapter of
another node takes non-empty ranges of the pool, and these only for writes. -/

namespace HMP.Transfer

variable {pools : ℕ → HmpMempool} {s s' : Transfer} {op : TransferOp} {localAddr : ℕ}
  {hmAddr : BitVec 64} {length : ℤ}

/-! ## The own path -/

theorem call_own {x : BitVec 64} (hidle : s.app = .idle)
    (hdec : hmpGetHmNodeId s.node.config.nodeCnt hmAddr = some (s.node.config.curnodeId, x)) :
    s.step (.call op localAddr hmAddr length) =
      (copyOf s.node op localAddr length x.toNat).map fun mem => { s with
        node := { s.node with mem := mem }
        hist := s.hist ++ [⟨op, s.node.config.curnodeId, x.toNat,
          mem.read localAddr (length % 2 ^ 64).toNat⟩] } := by
  simp only [step, callStep, hidle, if_true, access_eq, accessPath, hdec, Option.bind_some]
  cases copyOf s.node op localAddr length x.toNat <;> simp

theorem call_other {j t : ℕ} {x : BitVec 64} (hidle : s.app = .idle)
    (hdec : hmpGetHmNodeId s.node.config.nodeCnt hmAddr = some (j, x))
    (hj : j ≠ s.node.config.curnodeId) (ht : s.node.connectTrans j = some t) :
    s.step (.call op localAddr hmAddr length) =
      some { s with app := .checking ⟨op, j, t, localAddr, x.toNat, length⟩ } := by
  simp [step, callStep, hidle, access_eq, accessPath, hdec, hj, ht]

/-- A request that moves nothing, or that the region does not admit. -/
def Void (pool : HmpMempool) (op : TransferOp) (addr n : ℕ) : Prop :=
  n = 0 ∨ ¬ Admits pool op addr n

/-- Nothing that is under way will change a memory. -/
structure Still (pools : ℕ → HmpMempool) (m : ℕ → Mem) (s : Transfer) : Prop where
  call : ∀ c, s.app = .checking c →
    Void (pools (s.far c.t)) c.op c.addr (c.length % 2 ^ 32).toNat
  sq : ∀ t, ∀ wr ∈ (s.node.qp t).sq, ∀ op ∈ wr.opcode.op,
    Void (pools (s.far t)) op wr.remoteAddr wr.sge.length
  mem : s.memOf = m

/-- The memories depend on nothing else. -/
theorem memOf_congr (hcur : s'.node.config.curnodeId = s.node.config.curnodeId)
    (hmem : s'.node.mem = s.node.mem) (hremote : s'.remote = s.remote) : s'.memOf = s.memOf := by
  funext j
  simp only [memOf, hcur, hmem, hremote]

theorem Still.posted {m : ℕ → Mem} {c : RemoteCall} {opcode : IbvWrOpcode} {r : Transfer}
    (h : Still pools m s) (happ : s.app = .checking c) (hop : opcode.op = some c.op)
    (hp : AfterPost s.node r.node opcode c.t c.localAddr c.addr c.length)
    (hfar : r.far = s.far) (hremote : r.remote = s.remote) (hcall : ∀ d, r.app ≠ .checking d) :
    Still pools m r := by
  refine ⟨fun d hd => absurd hd (hcall d), fun t wr hwr op' hop' => ?_, ?_⟩
  · rw [hfar]
    rcases hp.sq t wr hwr with hwr | ⟨rfl, rfl, -⟩
    · exact h.sq t wr hwr op' hop'
    · obtain rfl : c.op = op' := Option.some.inj (hop.symm.trans hop')
      exact h.call c happ
  · rw [← h.mem]
    exact memOf_congr (by rw [hp.config]) hp.mem hremote

theorem still_check {m : ℕ → Mem} {o : PostOutcome} (h : Still pools m s)
    (hs : s.step (.check o) = some s') : Still pools m s' := by
  obtain ⟨c, happ, rfl | ⟨-, ⟨hop, rfl⟩ | ⟨hop, rfl⟩⟩⟩ := checkStep_some hs
  · exact ⟨fun d hd => absurd hd (by simp), h.sq, h.mem⟩
  · have hread : IbvWrOpcode.rdmaRead.op = some c.op := by rw [hop]; rfl
    refine h.posted happ hread (hmpRdmaReadPost_after ..) rfl rfl fun d => ?_
    dsimp only
    split_ifs <;> simp
  · have hwrite : IbvWrOpcode.rdmaWrite.op = some c.op := by rw [hop]; rfl
    exact h.posted happ hwrite (hmpRdmaWritePost_after ..) rfl rfl fun d => by simp

/-- A request that moves nothing leaves the memories alone. -/
theorem transferData_void {t : ℕ} {wr : IbvSendWr}
    (h : ∀ op ∈ wr.opcode.op, wr.sge.length = 0) :
    (s.transferData t wr).node.mem = s.node.mem ∧ (s.transferData t wr).remote = s.remote := by
  unfold transferData
  cases hop : wr.opcode with
  | send => exact ⟨rfl, rfl⟩
  | rdmaWrite =>
    have hn : wr.sge.length = 0 := h .write (by simp [hop, IbvWrOpcode.op])
    simp [hn]
  | rdmaRead =>
    have hn : wr.sge.length = 0 := h .read (by simp [hop, IbvWrOpcode.op])
    simp [hn]

theorem still_complete {m : ℕ → Mem} {t : ℕ} {status : IbvWcStatus} (h : Still pools m s)
    (hg : Guarded pools s (.complete t status)) (hs : s.step (.complete t status) = some s') :
    Still pools m s' := by
  obtain ⟨wr, rest, mem, remote, hsq, hdata, hkeep, rfl⟩ := completeStep_some hs
  have hmem : mem = s.node.mem ∧ remote = s.remote := by
    by_cases hst : status = .success
    · obtain ⟨rfl, rfl⟩ := hdata hst
      refine transferData_void fun op hop => ?_
      refine (h.sq t wr (by simp [hsq]) op hop).resolve_right fun hno => hno ?_
      exact hg hst wr (by simp [hsq]) op hop
    · exact hkeep hst
  refine ⟨h.call, fun u w hw => ?_, ?_⟩
  · by_cases hu : u = t
    · subst hu
      simp only [Node.setQp_qp, Function.update_self] at hw
      exact h.sq u w (hsq ▸ List.mem_cons_of_mem _ hw)
    · simp only [Node.setQp_qp, Function.update_of_ne hu] at hw
      exact h.sq u w hw
  · rw [← h.mem]
    exact memOf_congr rfl hmem.1 hmem.2

theorem still_poll {m : ℕ → Mem} {t : ℕ} (h : Still pools m s)
    (hs : s.step (.poll t) = some s') : Still pools m s' := by
  obtain ⟨wc, rest, hcq, -, -, rfl⟩ := pollStep_some hs
  obtain ⟨hqp, -, -, -, hmem, -⟩ :=
    dispatchWc_frame (s.node.setQp t { s.node.qp t with cq := rest }) wc
  refine ⟨h.call, fun u w hw => ?_, ?_⟩
  · simp only [hqp] at hw
    by_cases hu : u = t
    · subst hu
      exact h.sq u w (by simpa using hw)
    · exact h.sq u w (by simpa [hu] using hw)
  · rw [← h.mem]
    exact memOf_congr (dispatchWc_curnodeId _ wc) hmem rfl

theorem still_step {m : ℕ → Mem} {e : TransferEvent} (h : Still pools m s)
    (hg : Guarded pools s e) (hs : s.step e = some s') : Still pools m s' := by
  cases e with
  | check o => exact still_check h hs
  | complete t status => exact still_complete h hg hs
  | poll t => exact still_poll h hs
  | ret =>
    obtain ⟨c, p, -, -, rfl⟩ := retStep_some hs
    exact ⟨fun d hd => absurd hd (by simp), h.sq, h.mem⟩
  | loopExit =>
    obtain ⟨-, hs⟩ := Option.ite_none_right_eq_some.mp hs
    obtain rfl := Option.some.inj hs
    exact ⟨h.call, h.sq, h.mem⟩
  | call | recv | cm | store | storeRemote => exact hg.elim

theorem Still.run {m : ℕ → Mem} (h : Still pools m s) (hr : sys.Run (Guarded pools) s s') :
    s'.memOf = m :=
  (hr.keeps (fun _ _ _ hi hg hst => still_step hi hg hst) h).mem

theorem still_idle (happ : s.app = .idle) (hsq : ∀ t, ∀ wr ∈ (s.node.qp t).sq, wr.opcode = .send) :
    Still pools s.memOf s where
  call := fun c hc => absurd (happ.symm.trans hc) (by simp)
  sq := by
    intro t wr hwr op hop
    rw [hsq t wr hwr] at hop
    exact absurd hop (by simp [IbvWrOpcode.op])
  mem := rfl

/-! ## Who takes which range -/

/-- A copy of at least one byte changes a memory that is zero outside the source. -/
theorem memcpy_changes {m : Mem} {dst src n : ℕ} (hn : 0 < n)
    (h : memcpy (fun y => if y = src then 1 else 0) dst src n = some m) :
    m ≠ fun y => if y = src then 1 else 0 := by
  obtain ⟨hdis, rfl⟩ := memcpy_some h
  intro heq
  have hdst := congrFun heq dst
  have hlen : 0 < (Mem.read (fun y => if y = src then 1 else 0) src n).length := by simpa using hn
  have hnew := Mem.write_in (fun y => if y = src then 1 else 0) (a := dst)
    (Mem.read (fun y => if y = src then 1 else 0) src n) hlen
  rw [Nat.add_zero] at hnew
  rw [hnew, if_neg (by omega)] at hdst
  simp [Mem.read] at hdst

theorem noEffect_own_iff {x : BitVec 64} (h : Ready s)
    (hdec : hmpGetHmNodeId s.node.config.nodeCnt hmAddr = some (s.node.config.curnodeId, x))
    (hmin : -2 ^ 31 ≤ length) (hmax : length < 2 ^ 31) :
    NoEffect pools s op localAddr hmAddr length ↔ length = 0 := by
  have hcall : ∀ own others, (s.withMems own others).step (.call op localAddr hmAddr length) = _ :=
    fun own others => call_own (s := s.withMems own others) h.idle hdec
  constructor
  · intro hno
    by_contra hlen
    have hn : 0 < (length % 2 ^ 64).toNat := by omega
    let src := if op = .read then x.toNat else localAddr
    obtain ⟨s₁, hs₁, hkeep⟩ := hno (fun y => if y = src then 1 else 0) fun _ _ => 0
    rw [hcall] at hs₁
    obtain ⟨mem, hcopy, rfl⟩ := Option.map_eq_some_iff.mp hs₁
    have hsame := congrFun (hkeep _ .nil) s.node.config.curnodeId
    simp only [memOf, withMems, if_true] at hsame
    cases op with
    | read => exact memcpy_changes hn hcopy hsame
    | write => exact memcpy_changes hn hcopy hsame
  · rintro rfl own others
    have hcopy : copyOf (s.withMems own others).node op localAddr 0 x.toNat = some own := by
      cases op <;> simp [copyOf, memcpy, withMems] <;> omega
    let s₁ : Transfer := { s.withMems own others with
      hist := s.hist ++ [⟨op, s.node.config.curnodeId, x.toNat, own.read localAddr 0⟩] }
    have hs₁ : (s.withMems own others).step (.call op localAddr hmAddr 0) = some s₁ := by
      rw [hcall, hcopy]
      rfl
    exact ⟨s₁, hs₁, fun s' hr => (still_idle (s := s₁) h.idle h.sends).run hr⟩

/-- The state behind the oldest request of `t`, finished with success. -/
def completed (s : Transfer) (t : ℕ) (wr : IbvSendWr) (rest : List IbvSendWr) : Transfer :=
  { s.transferData t wr with
    node := (s.transferData t wr).node.setQp t { s.node.qp t with
      sq := rest
      cq := (s.node.qp t).cq ++ [{ wrId := wr.wrId, status := .success, opcode := wr.opcode.wc }] } }

theorem complete_success {t : ℕ} {wr : IbvSendWr} {rest : List IbvSendWr}
    (hq : (s.node.qp t).sq = wr :: rest) :
    s.step (.complete t .success) = some (s.completed t wr rest) := by
  simp [step, completeStep, hq, completed]

theorem guarded_complete {t : ℕ} {wr : IbvSendWr} {rest : List IbvSendWr}
    (hq : (s.node.qp t).sq = wr :: rest) :
    Guarded pools s (.complete t .success) ↔
      ∀ op ∈ wr.opcode.op, Admits (pools (s.far t)) op wr.remoteAddr wr.sge.length := by
  simp [Guarded, hq]

/-- The adapter finishes the messages ahead of a request. -/
theorem drain_sends (pools : ℕ → HmpMempool) {t : ℕ} {rest : List IbvSendWr}
    (l : List IbvSendWr) :
    ∀ {s : Transfer}, (s.node.qp t).sq = l ++ rest → (∀ wr ∈ l, wr.opcode = .send) →
      ∃ s', sys.Run (Guarded pools) s s' ∧ (s'.node.qp t).sq = rest ∧ s'.far = s.far ∧
        s'.remote = s.remote ∧ s'.node.mem = s.node.mem ∧ s'.node.config = s.node.config := by
  induction l with
  | nil => exact fun {s} hq _ => ⟨s, .nil, hq, rfl, rfl, rfl, rfl⟩
  | cons wr l ih =>
    intro s hq hl
    have hop : wr.opcode = .send := hl wr (by simp)
    have hg : Guarded pools s (.complete t .success) :=
      (guarded_complete hq).mpr (by simp [hop, IbvWrOpcode.op])
    obtain ⟨s', hr, hsq, hrest⟩ := ih (s := s.completed t wr (l ++ rest))
      (by simp [completed]) fun w hw => hl w (List.mem_cons_of_mem _ hw)
    refine ⟨s', (Sys.Run.nil.snoc hg (complete_success hq)).trans hr, hsq, ?_⟩
    simpa [completed, transferData, hop] using hrest

/-- A write that the region admits reaches the other memory. -/
theorem write_arrives {j t : ℕ} {x : BitVec 64} (h : Ready s)
    (hdec : hmpGetHmNodeId s.node.config.nodeCnt hmAddr = some (j, x))
    (hj : j ≠ s.node.config.curnodeId) (ht : s.node.connectTrans j = some t) (hfar : s.far t = j)
    (hst : (s.node.trans t).transState = .connected) (hn : 0 < (length % 2 ^ 32).toNat)
    (hadm : Admits (pools j) .write x.toNat (length % 2 ^ 32).toNat) :
    ¬ NoEffect pools s .write localAddr hmAddr length := by
  intro hno
  obtain ⟨s₁, hs₁, hkeep⟩ := hno (fun _ => 1) fun _ _ => 0
  rw [call_other (s := s.withMems (fun _ => 1) fun _ _ => 0) h.idle hdec hj ht] at hs₁
  obtain rfl := Option.some.inj hs₁
  let c : RemoteCall := ⟨.write, j, t, localAddr, x.toNat, length⟩
  let wr := transferWr s.node .rdmaWrite t localAddr x.toNat length
  let s₁ : Transfer := { s.withMems (fun _ => 1) fun _ _ => 0 with app := .checking c }
  have hs₂ : s₁.step (.check {}) = some (s₁.afterWrite c) :=
    checkStep_write (s := s₁) (c := c) rfl rfl hst
  have hsq₂ : ((s₁.afterWrite c).node.qp t).sq = (s.node.qp t).sq ++ [wr] := by
    simp [afterWrite, withPosted, s₁, withMems, c, wr, transferWr, Node.lkey]
  obtain ⟨s₃, hr₃, hsq₃, hfar₃, hremote₃, hmem₃, hconfig₃⟩ :=
    drain_sends pools (s.node.qp t).sq hsq₂ (h.sends t)
  have hg : Guarded pools s₃ (.complete t .success) := by
    refine (guarded_complete hsq₃).mpr fun op hop => ?_
    obtain rfl : TransferOp.write = op := Option.some.inj hop
    rw [hfar₃, show (s₁.afterWrite c).far t = j from hfar]
    exact hadm
  have hrun : sys.Run (Guarded pools) s₁ (s₃.completed t wr []) :=
    ((Sys.Run.nil.snoc (e := .check {}) trivial hs₂).trans hr₃).snoc hg (complete_success hsq₃)
  have hfar' : s₃.far t = j := hfar₃.symm ▸ hfar
  have hcur : j ≠ s₃.node.config.curnodeId := by rw [hconfig₃]; exact hj
  have hsrc : s₃.node.mem = fun _ => 1 := hmem₃
  -- the first byte of the range was 0, and the source holds 1
  have hbyte := congrFun (congrFun (hkeep _ hrun) j) x.toNat
  have hnew : (s₃.completed t wr []).memOf j x.toNat = 1 := by
    have hone := Mem.write_in (s₃.remote j) (a := x.toNat)
      (Mem.read (fun _ => 1) localAddr (length % 2 ^ 32).toNat) (k := 0) (by simpa using hn)
    simpa [completed, memOf, transferData, wr, transferWr, hfar', hcur, hsrc, Mem.read] using hone
  have hold : (s.withMems (fun _ => 1) fun _ _ => 0).memOf j x.toNat = 0 := by
    simp [memOf, withMems, hj]
  rw [hnew, hold] at hbyte
  exact absurd hbyte (by decide)

theorem noEffect_other_iff {j : ℕ} {x : BitVec 64} (h : FullyConnected pools s) (hr : Ready s)
    (hdec : hmpGetHmNodeId s.node.config.nodeCnt hmAddr = some (j, x))
    (hj : j ≠ s.node.config.curnodeId) :
    NoEffect pools s op localAddr hmAddr length ↔
      Void (pools j) op x.toNat (length % 2 ^ 32).toNat := by
  have hlt : j < s.node.config.nodeCnt := hmpGetHmNodeId_lt hdec
  obtain ⟨t, ht, hfar, -, hst⟩ := h.conn j hlt hj
  constructor
  · intro hno
    by_contra hvoid
    obtain ⟨hn, hadm⟩ : ¬ (length % 2 ^ 32).toNat = 0 ∧
        Admits (pools j) op x.toNat (length % 2 ^ 32).toNat := by
      simpa [Void, not_or] using hvoid
    cases op with
    | read =>
      have hacc := (hadm.resolve_left hn).1
      rw [(h.pool j hlt).spec.2.1] at hacc
      exact absurd hacc (by decide)
    | write =>
      exact write_arrives hr hdec hj ht hfar hst (Nat.pos_of_ne_zero hn) hadm hno
  · intro hvoid own others
    let c : RemoteCall := ⟨op, j, t, localAddr, x.toNat, length⟩
    have hstill : Still pools (s.withMems own others).memOf
        { s.withMems own others with app := .checking c } := by
      refine ⟨fun d hd => ?_, (still_idle hr.idle hr.sends).sq, rfl⟩
      obtain rfl := AppPc.checking.inj hd
      rwa [show (s.withMems own others).far c.t = j from hfar]
    exact ⟨_, call_other (s := s.withMems own others) hr.idle hdec hj ht, fun s' => hstill.run⟩

/-- Neither conversion of the length lets a range outside the pool look like one inside. -/
theorem admits_iff_inPool {pool : HmpMempool} {a : ℕ} (h : PoolOf pool)
    (hmin : -2 ^ 31 ≤ length) (hmax : length < 2 ^ 31) (hne : length ≠ 0) :
    Admits pool op a (length % 2 ^ 32).toNat ↔
      op.right ∈ pool.mr.access ∧ 0 < length ∧ InPool pool a length := by
  obtain ⟨hsize, -, hregion⟩ := h.spec
  have hfits := pool.fits
  simp only [Admits, InPool, hsize, hregion]
  constructor
  · rintro (hn | ⟨hright, hlow, hhigh⟩)
    · omega
    · exact ⟨hright, by omega, hlow, by omega⟩
  · rintro ⟨hright, hpos, hlow, hhigh⟩
    exact .inr ⟨hright, hlow, by omega⟩

theorem targetInPool_iff {j : ℕ} {x : BitVec 64}
    (hdec : hmpGetHmNodeId s.node.config.nodeCnt hmAddr = some (j, x)) :
    TargetInPool pools s hmAddr length ↔ 0 ≤ length ∧ InPool (pools j) x.toNat length := by
  simp [TargetInPool, hdec]

/-- The other path is always confined. -/
theorem confined_other {j : ℕ} {x : BitVec 64} (h : FullyConnected pools s) (hr : Ready s)
    (hdec : hmpGetHmNodeId s.node.config.nodeCnt hmAddr = some (j, x))
    (hj : j ≠ s.node.config.curnodeId) (hmin : -2 ^ 31 ≤ length) (hmax : length < 2 ^ 31) :
    Confined pools s op localAddr hmAddr length := by
  by_cases hvoid : Void (pools j) op x.toNat (length % 2 ^ 32).toNat
  · exact .inr ((noEffect_other_iff h hr hdec hj).mpr hvoid)
  · obtain ⟨hn, hadm⟩ : ¬ (length % 2 ^ 32).toNat = 0 ∧
        Admits (pools j) op x.toNat (length % 2 ^ 32).toNat := by
      simpa [Void, not_or] using hvoid
    obtain ⟨-, hpos, hin⟩ := (admits_iff_inPool (h.pool j (hmpGetHmNodeId_lt hdec)) hmin hmax
      (by rintro rfl; exact hn rfl)).mp hadm
    exact .inl ((targetInPool_iff hdec).mpr ⟨hpos.le, hin⟩)

/-- The two paths are confined and take the same ranges exactly for the empty range and for writes
that stay in the pool. -/
theorem accept_alike_iff {localAddr' : ℕ} {x : BitVec 64} (h : FullyConnected pools s)
    (hr : Ready s) (h' : FullyConnected pools s') (hr' : Ready s')
    (hdec : hmpGetHmNodeId s.node.config.nodeCnt hmAddr = some (s.node.config.curnodeId, x))
    (hcnt : s'.node.config.nodeCnt = s.node.config.nodeCnt)
    (hne : s'.node.config.curnodeId ≠ s.node.config.curnodeId)
    (hmin : -2 ^ 31 ≤ length) (hmax : length < 2 ^ 31) :
    AcceptAlike pools s s' op localAddr localAddr' hmAddr length ↔
      length = 0 ∨ op = .write ∧ 0 < length ∧
        InPool (pools s.node.config.curnodeId) x.toNat length := by
  have hdec' : hmpGetHmNodeId s'.node.config.nodeCnt hmAddr =
      some (s.node.config.curnodeId, x) := hcnt ▸ hdec
  have hown : NoEffect pools s op localAddr hmAddr length ↔ length = 0 :=
    noEffect_own_iff hr hdec hmin hmax
  have hother : NoEffect pools s' op localAddr' hmAddr length ↔ _ :=
    noEffect_other_iff h' hr' hdec' hne.symm
  have hpool := h.pool _ h.curnodeId
  constructor
  · intro ha
    by_cases hzero : length = 0
    · exact .inl hzero
    have hin := (targetInPool_iff hdec).mp (ha.own.resolve_right fun hno => hzero (hown.mp hno))
    have hnot : ¬ NoEffect pools s' op localAddr' hmAddr length :=
      fun hno => hzero (hown.mp (ha.same.mpr hno))
    obtain ⟨-, hadm⟩ := not_or.mp (hother.not.mp hnot)
    have hright := ((admits_iff_inPool hpool hmin hmax hzero).mp (not_not.mp hadm)).1
    rw [hpool.spec.2.1] at hright
    refine .inr ⟨?_, by omega, hin.2⟩
    cases op with
    | read => exact absurd hright (by decide)
    | write => rfl
  · rintro (rfl | ⟨rfl, hpos, hin⟩)
    · have hvoid : NoEffect pools s' op localAddr' hmAddr 0 := hother.mpr (.inl rfl)
      exact ⟨.inr (hown.mpr rfl), .inr hvoid, iff_of_true (hown.mpr rfl) hvoid⟩
    · have hadm : Admits (pools s.node.config.curnodeId) .write x.toNat (length % 2 ^ 32).toNat :=
        (admits_iff_inPool hpool hmin hmax hpos.ne').mpr
          ⟨by rw [hpool.spec.2.1]; decide, hpos, hin⟩
      refine ⟨.inl ((targetInPool_iff hdec).mpr ⟨hpos.le, hin⟩),
        .inl ((targetInPool_iff hdec').mpr ⟨hpos.le, hin⟩),
        iff_of_false (fun hno => hpos.ne' (hown.mp hno)) fun hno => ?_⟩
      exact (hother.mp hno).elim (fun hn => by omega) fun hno => hno hadm

/-- Node 1 of two, connected to node 0, with no call under way. -/
def sampleOther : Transfer :=
  { node := { config := sampleConfig 1, dramMempool := some samplePool
              connectTrans := fun k => if k = 0 then some 0 else none
              trans := fun _ => { transState := .connected }
              nextTrans := 1 }
    remote := fun _ _ => 0, far := fun _ => 0 }

theorem sampleOther_conn : Connected sampleOther := by
  refine ⟨rfl, by decide, by decide, fun k hk hne => ?_, fun t => ?_⟩
  · have hk' : k < 2 := hk
    have hne' : k ≠ 1 := hne
    obtain rfl : k = 0 := by omega
    exact ⟨0, rfl, rfl, rfl, rfl⟩
  · constructor <;> simp [sampleOther]

theorem sampleOther_connected : FullyConnected (fun _ => samplePool) sampleOther :=
  ⟨sampleOther_conn, fun _ _ => ⟨_, _, _, _, samplePool_created, rfl⟩, rfl, fun _ => Nat.zero_lt_two⟩

theorem sampleOther_ready : Ready sampleOther := by
  refine ⟨sampleOther_conn, ⟨rfl, rfl, fun k t h => ?_, fun t _ => rfl, sampleOther_conn.tasks⟩,
    fun t wr hw => absurd hw (by simp [sampleOther])⟩
  obtain ⟨-, h⟩ := Option.ite_none_right_eq_some.mp h
  obtain rfl := Option.some.inj h
  exact Nat.lt_succ_self 0

/-- A write of 64 bytes inside the pool of node 0, by node 0 and by node 1. -/
theorem accept_alike_iff_inside : AcceptAlike (fun _ => samplePool) sampleTransfer sampleOther .write
    4416 4416 (hmpGetHybridMempoolAddr 0 + BitVec.ofNat 64 4480) 64 :=
  (accept_alike_iff sampleTransfer_connected sampleTransfer_ready sampleOther_connected
    sampleOther_ready (x := BitVec.ofNat 64 4480)
    (hmpGetHmNodeId_globalAddr (by decide) (by decide) (by decide)) rfl (by decide) (by decide)
    (by decide)).mpr (.inr ⟨rfl, by decide, by unfold InPool; decide⟩)

/-- Node 0 copies 64 bytes over the end of its own pool. -/
theorem own_path_leaves_pool :
    ¬ ∀ (pools : ℕ → HmpMempool) (s s' : Transfer) (op : TransferOp) (localAddr localAddr' : ℕ)
      (hmAddr : BitVec 64) (length : ℤ) (x : BitVec 64), FullyConnected pools s → Ready s →
      FullyConnected pools s' → Ready s' →
      hmpGetHmNodeId s.node.config.nodeCnt hmAddr = some (s.node.config.curnodeId, x) →
      s'.node.config.nodeCnt = s.node.config.nodeCnt →
      s'.node.config.curnodeId ≠ s.node.config.curnodeId → -2 ^ 31 ≤ length → length < 2 ^ 31 →
      AcceptAlike pools s s' op localAddr localAddr' hmAddr length := by
  intro h
  have hdec : hmpGetHmNodeId sampleTransfer.node.config.nodeCnt
      (hmpGetHybridMempoolAddr 0 + BitVec.ofNat 64 8160) = some (0, BitVec.ofNat 64 8160) :=
    hmpGetHmNodeId_globalAddr (by decide) (by decide) (by decide)
  have ha := h (fun _ => samplePool) sampleTransfer sampleOther .write 4416 4416 _ 64 _
    sampleTransfer_connected sampleTransfer_ready sampleOther_connected sampleOther_ready hdec rfl
    (by decide) (by decide) (by decide)
  rcases ha.own with hin | hno
  · exact absurd ((targetInPool_iff hdec).mp hin).2 (by unfold InPool; decide)
  · exact absurd ((noEffect_own_iff sampleTransfer_ready hdec (by decide) (by decide)).mp hno)
      (by decide)

end HMP.Transfer
