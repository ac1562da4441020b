import Hmp.Proofs.PlacementSteps
import Hmp.Sanity.InitMsg
import Hmp.Sanity.Transfer

/-! The INIT messages on their way: every buffer, every message and every completion of a
receive carries what the pool of the sender says. -/

namespace HMP

namespace Cluster

variable {cfg : ClusterConfig} {s s' : Cluster} {i j k t u c : ℕ}

/-- Slot `k` of peer `p` on node `i` holds the INIT message of its writer. -/
def FrameAt (s : Cluster) (i p k : ℕ) : Prop :=
  (s.node i).dramMempool ≠ none ∧
    ∃ pool, (s.node (if k = 0 then i else p)).dramMempool = some pool ∧
      (s.node i).mem.read ((s.node i).slot p k) INIT_SIZE = initFrame pool

def RecvOk (cfg : ClusterConfig) (s : Cluster) (i t : ℕ) (wr : IbvRecvWr) : Prop :=
  ∃ j, Placed cfg s i t j ∧ (s.node i).RecvFor t j wr

def SendOk (cfg : ClusterConfig) (s : Cluster) (i t : ℕ) (wr : IbvSendWr) : Prop :=
  wr.opcode = .send → ∃ j, Placed cfg s i t j ∧ wr.sge.addr = (s.node i).slot j 0 ∧
    wr.sge.length = INIT_SIZE ∧ FrameAt s i j 0

def WcOk (cfg : ClusterConfig) (s : Cluster) (i t : ℕ) (wc : IbvWc) : Prop :=
  wc.status = .success → wc.opcode = .recv →
    wc.wrId < (s.node i).nextTask ∧ ((s.node i).task wc.wrId).rdmaTrans = t ∧
      ∃ j, Placed cfg s i t j ∧ ∃ r < 3,
        ((s.node i).task wc.wrId).sge.addr = (s.node i).slot j (r + 1) ∧ FrameAt s i j (r + 1)

def ToDstOk (s : Cluster) (c : ℕ) (bytes : List UInt8) : Prop :=
  ∃ pool, (s.node (s.conn c).src).dramMempool = some pool ∧ bytes = initFrame pool

def ToSrcOk (s : Cluster) (c : ℕ) (bytes : List UInt8) : Prop :=
  ∃ j pool, (s.conn c).dst = some j ∧ (s.node j).dramMempool = some pool ∧ bytes = initFrame pool

structure MsgInv (cfg : ClusterConfig) (s : Cluster) : Prop where
  rq : ∀ i < cfg.nodeCnt, ∀ t, ∀ wr ∈ ((s.node i).qp t).rq, RecvOk cfg s i t wr
  sq : ∀ i < cfg.nodeCnt, ∀ t, ∀ wr ∈ ((s.node i).qp t).sq, SendOk cfg s i t wr
  cq : ∀ i < cfg.nodeCnt, ∀ t, ∀ wc ∈ ((s.node i).qp t).cq, WcOk cfg s i t wc
  toDst : ∀ c < s.nconn, ∀ bytes ∈ (s.conn c).toDst, ToDstOk s c bytes
  toSrc : ∀ c < s.nconn, ∀ bytes ∈ (s.conn c).toSrc, ToSrcOk s c bytes

/-! ## What a step carries over -/

theorem Kept.node (h : Kept cfg s s' i) (hk : k ≠ i) : s'.node k = s.node k := by
  obtain ⟨c, hs⟩ := h.place
  exact hs.node k hk

theorem Kept.loop (h : Kept cfg s s' i) (hk : k ≠ i) : s'.loop k = s.loop k := by
  obtain ⟨c, hs⟩ := h.place
  exact hs.loop k hk

theorem Kept.evolve (h : Kept cfg s s' i) {d : ℕ} (hd : d < s.nconn) :
    Evolves (s.conn d) (s'.conn d) := by
  obtain ⟨c, hs⟩ := h.place
  exact hs.evolve hd

theorem Kept.slot (h : Kept cfg s s' i) (hp : (s.node k).dramMempool ≠ none) :
    (s'.node k).slot = (s.node k).slot := by
  obtain ⟨pool, hp⟩ := Option.ne_none_iff_exists'.mp hp
  funext p q
  simp only [Node.slot, Node.baseAddr, hp, h.pool k pool hp]

theorem Kept.pool_ne (h : Kept cfg s s' i) (hp : (s.node k).dramMempool ≠ none) :
    (s'.node k).dramMempool ≠ none := by
  obtain ⟨pool, hp⟩ := Option.ne_none_iff_exists'.mp hp
  simp [h.pool k pool hp]

/-- A step of node `i` that leaves its tasks and the INIT messages in its slots. -/
structure Carried (cfg : ClusterConfig) (s s' : Cluster) (i : ℕ) : Prop where
  kept : Kept cfg s s' i
  buffers : (s.node i).KeepsBuffers (s'.node i)
  frames : ∀ p < cfg.nodeCnt, ∀ k < 4, FrameAt s i p k → FrameAt s' i p k

namespace Carried

theorem keepsBuffers (h : Carried cfg s s' i) (k : ℕ) : (s.node k).KeepsBuffers (s'.node k) := by
  by_cases hk : k = i
  · exact hk ▸ h.buffers
  · rw [h.kept.node hk]
    exact ⟨le_rfl, fun _ _ => rfl, fun _ _ => rfl⟩

theorem frameAt (h : Carried cfg s s' i) {n p : ℕ} (hp : p < cfg.nodeCnt) (hk : k < 4)
    (hf : FrameAt s n p k) : FrameAt s' n p k := by
  by_cases hn : n = i
  · exact hn ▸ h.frames p hp k hk (hn ▸ hf)
  · obtain ⟨hne, pool, hpool, hr⟩ := hf
    rw [FrameAt, h.kept.node hn]
    exact ⟨hne, pool, h.kept.pool _ _ hpool, hr⟩

/-- The slots of the peers hold what they held, or the message of their writer. -/
theorem of_read (hk : Kept cfg s s' i) (hb : (s.node i).KeepsBuffers (s'.node i))
    (hm : (s.node i).dramMempool ≠ none → ∀ p < cfg.nodeCnt, ∀ k < 4,
      (s'.node i).mem.read ((s.node i).slot p k) INIT_SIZE =
          (s.node i).mem.read ((s.node i).slot p k) INIT_SIZE ∨
        ∃ pool, (s.node (if k = 0 then i else p)).dramMempool = some pool ∧
          (s'.node i).mem.read ((s.node i).slot p k) INIT_SIZE = initFrame pool) :
    Carried cfg s s' i := by
  refine ⟨hk, hb, fun p hp k hk4 hf => ?_⟩
  obtain ⟨hne, pool, hpool, hr⟩ := hf
  refine ⟨hk.pool_ne hne, ?_⟩
  rw [hk.slot hne]
  rcases hm hne p hp k hk4 with he | ⟨pool', hpool', he⟩
  · exact ⟨pool, hk.pool _ _ hpool, he.trans hr⟩
  · exact ⟨pool', hk.pool _ _ hpool', he⟩

theorem same (hk : Kept cfg s s' i) (hm : (s'.node i).mem = (s.node i).mem)
    (hb : (s.node i).KeepsBuffers (s'.node i)) : Carried cfg s s' i :=
  of_read hk hb fun _ _ _ _ _ => .inl (by rw [hm])

/-- The message of its writer goes into a slot. -/
theorem of_write (hk : Kept cfg s s' i) (hb : (s.node i).KeepsBuffers (s'.node i)) {q r : ℕ}
    (hr : r < 4) {pool : HmpMempool}
    (hpool : (s.node (if r = 0 then i else q)).dramMempool = some pool)
    (hm : (s'.node i).mem = (s.node i).mem.write ((s.node i).slot q r) (initFrame pool)) :
    Carried cfg s s' i := by
  refine of_read hk hb fun _ p hp k hk4 => ?_
  rw [hm]
  by_cases hpk : p = q ∧ k = r
  · obtain ⟨rfl, rfl⟩ := hpk
    refine .inr ⟨pool, hpool, ?_⟩
    rw [← initFrame_length pool]
    exact Mem.read_write_self _ _ _
  · left
    have hd := (s.node i).slot_disjoint (p := p) (q := q) hk4 hr (by omega)
    refine Mem.read_write_of_disjoint _ _ ?_
    rw [initFrame_length]
    have : INIT_SIZE ≤ HMP_TASK_SIZE := by decide
    omega

end Carried

/-! ## The rule for the messages -/

theorem RecvOk.carried (h : Carried cfg s s' i) (hk : k < cfg.nodeCnt) {wr : IbvRecvWr}
    (ho : RecvOk cfg s k t wr) : RecvOk cfg s' k t wr := by
  obtain ⟨j, hp, hr⟩ := ho
  exact ⟨j, h.kept.placed k hk t j hp, (h.keepsBuffers k).recvFor (h.kept.slot hp.pool) hr⟩

theorem SendOk.carried (h : Carried cfg s s' i) (hk : k < cfg.nodeCnt) {wr : IbvSendWr}
    (ho : SendOk cfg s k t wr) : SendOk cfg s' k t wr := by
  intro hs
  obtain ⟨j, hp, ha, hl, hf⟩ := ho hs
  exact ⟨j, h.kept.placed k hk t j hp, by rw [h.kept.slot hp.pool, ha], hl,
    h.frameAt hp.lt (by decide) hf⟩

theorem WcOk.carried (h : Carried cfg s s' i) (hk : k < cfg.nodeCnt) {wc : IbvWc}
    (ho : WcOk cfg s k t wc) : WcOk cfg s' k t wc := by
  intro hs hr
  obtain ⟨hn, ht, j, hp, r, hr3, ha, hf⟩ := ho hs hr
  have hb := h.keepsBuffers k
  exact ⟨hn.trans_le hb.nextTask, (hb.trans _ hn).trans ht, j, h.kept.placed k hk t j hp, r, hr3,
    by rw [hb.sge _ hn, h.kept.slot hp.pool, ha], h.frameAt hp.lt (by omega) hf⟩

theorem ToDstOk.carried (h : Kept cfg s s' i) (hc : c < s.nconn) {bytes : List UInt8}
    (ho : ToDstOk s c bytes) : ToDstOk s' c bytes := by
  obtain ⟨pool, hp, hb⟩ := ho
  exact ⟨pool, (h.evolve hc).src ▸ h.pool _ _ hp, hb⟩

theorem ToSrcOk.carried (h : Kept cfg s s' i) (hc : c < s.nconn) {bytes : List UInt8}
    (ho : ToSrcOk s c bytes) : ToSrcOk s' c bytes := by
  obtain ⟨j, pool, hd, hp, hb⟩ := ho
  exact ⟨j, pool, (h.evolve hc).dst j hd, h.pool _ _ hp, hb⟩

/-- What a step adds to the queues of its node and to the wires is in order. -/
theorem MsgInv.step (h : MsgInv cfg s) (hc : Carried cfg s s' i)
    (hrq : ∀ t, ∀ wr ∈ ((s'.node i).qp t).rq,
      wr ∈ ((s.node i).qp t).rq ∨ RecvOk cfg s' i t wr)
    (hsq : ∀ t, ∀ wr ∈ ((s'.node i).qp t).sq,
      wr ∈ ((s.node i).qp t).sq ∨ SendOk cfg s' i t wr)
    (hcq : ∀ t, ∀ wc ∈ ((s'.node i).qp t).cq,
      wc ∈ ((s.node i).qp t).cq ∨ WcOk cfg s' i t wc)
    (hdst : ∀ c < s'.nconn, ∀ bytes ∈ (s'.conn c).toDst,
      c < s.nconn ∧ bytes ∈ (s.conn c).toDst ∨ ToDstOk s' c bytes)
    (hsrc : ∀ c < s'.nconn, ∀ bytes ∈ (s'.conn c).toSrc,
      c < s.nconn ∧ bytes ∈ (s.conn c).toSrc ∨ ToSrcOk s' c bytes) :
    MsgInv cfg s' ∧ Carried cfg s s' i := by
  refine ⟨⟨fun k hk t wr hw => ?_, fun k hk t wr hw => ?_, fun k hk t wc hw => ?_,
    fun c hcn bytes hb => ?_, fun c hcn bytes hb => ?_⟩, hc⟩
  · by_cases hki : k = i
    · subst hki
      exact (hrq t wr hw).elim (fun hw => (h.rq k hk t wr hw).carried hc hk) id
    · exact (h.rq k hk t wr (hc.kept.node hki ▸ hw)).carried hc hk
  · by_cases hki : k = i
    · subst hki
      exact (hsq t wr hw).elim (fun hw => (h.sq k hk t wr hw).carried hc hk) id
    · exact (h.sq k hk t wr (hc.kept.node hki ▸ hw)).carried hc hk
  · by_cases hki : k = i
    · subst hki
      exact (hcq t wc hw).elim (fun hw => (h.cq k hk t wc hw).carried hc hk) id
    · exact (h.cq k hk t wc (hc.kept.node hki ▸ hw)).carried hc hk
  · exact (hdst c hcn bytes hb).elim
      (fun hb => (h.toDst c hb.1 bytes hb.2).carried hc.kept hb.1) id
  · exact (hsrc c hcn bytes hb).elim
      (fun hb => (h.toSrc c hb.1 bytes hb.2).carried hc.kept hb.1) id

/-- The step sends nothing, and a new connection has nothing on its way. -/
def SameWires (s s' : Cluster) : Prop :=
  ∀ c < s'.nconn, (c < s.nconn → (s'.conn c).toDst = (s.conn c).toDst ∧
      (s'.conn c).toSrc = (s.conn c).toSrc) ∧
    (s.nconn ≤ c → (s'.conn c).toDst = [] ∧ (s'.conn c).toSrc = [])

theorem SameWires.of_eq (hc : s'.conn = s.conn) (hn : s'.nconn = s.nconn) : SameWires s s' :=
  fun d hd => ⟨fun _ => by rw [hc]; exact ⟨rfl, rfl⟩, fun hge => by omega⟩

theorem SameWires.of_update {x : Conn} (hc : s'.conn = Function.update s.conn c x)
    (hn : s'.nconn = s.nconn) (hd : x.toDst = (s.conn c).toDst) (hs : x.toSrc = (s.conn c).toSrc) :
    SameWires s s' := by
  refine fun d hdn => ⟨fun _ => ?_, fun hge => by omega⟩
  rw [hc]
  by_cases hdc : d = c
  · subst hdc
    rw [Function.update_self]
    exact ⟨hd, hs⟩
  · rw [Function.update_of_ne hdc]
    exact ⟨rfl, rfl⟩

theorem MsgInv.step_wires (h : MsgInv cfg s) (hc : Carried cfg s s' i)
    (hrq : ∀ t, ∀ wr ∈ ((s'.node i).qp t).rq,
      wr ∈ ((s.node i).qp t).rq ∨ RecvOk cfg s' i t wr)
    (hsq : ∀ t, ∀ wr ∈ ((s'.node i).qp t).sq,
      wr ∈ ((s.node i).qp t).sq ∨ SendOk cfg s' i t wr)
    (hcq : ∀ t, ∀ wc ∈ ((s'.node i).qp t).cq,
      wc ∈ ((s.node i).qp t).cq ∨ WcOk cfg s' i t wc) (hw : SameWires s s') :
    MsgInv cfg s' ∧ Carried cfg s s' i := by
  refine h.step hc hrq hsq hcq (fun c hcn bytes hb => .inl ?_) (fun c hcn bytes hb => .inl ?_)
  all_goals
    obtain ⟨hold, hnew⟩ := hw c hcn
    by_cases hc : c < s.nconn
  · exact ⟨hc, (hold hc).1 ▸ hb⟩
  · simp [(hnew (not_lt.mp hc)).1] at hb
  · exact ⟨hc, (hold hc).2 ▸ hb⟩
  · simp [(hnew (not_lt.mp hc)).2] at hb

/-- The steps that touch neither memory, tasks, queues nor messages. -/
theorem MsgInv.quiet {nd : Node} (h : MsgInv cfg s) (hk : Kept cfg s s' i) (hni : s'.node i = nd)
    (hm : nd.mem = (s.node i).mem) (ht : nd.task = (s.node i).task)
    (hn : nd.nextTask = (s.node i).nextTask)
    (hq : ∀ t, (nd.qp t).rq ⊆ ((s.node i).qp t).rq ∧ (nd.qp t).sq ⊆ ((s.node i).qp t).sq ∧
      (nd.qp t).cq ⊆ ((s.node i).qp t).cq) (hw : SameWires s s') :
    MsgInv cfg s' ∧ Carried cfg s s' i := by
  subst hni
  have hb : (s.node i).KeepsBuffers (s'.node i) :=
    ⟨hn.ge, fun p _ => by rw [ht], fun p _ => by rw [ht]⟩
  exact h.step_wires (.same hk hm hb) (fun t wr hw => .inl ((hq t).1 hw))
    (fun t wr hw => .inl ((hq t).2.1 hw)) (fun t wc hw => .inl ((hq t).2.2 hw)) hw

/-- The steps that hand receives or the INIT message to the adapter. -/
theorem MsgInv.handsOver {nd : Node} (h : MsgInv cfg s) (hk : Kept cfg s s' i)
    (hi : i < cfg.nodeCnt) (hni : s'.node i = nd) (hh : (s.node i).HandsOver nd t j)
    (hp : Placed cfg s i t j) (hw : SameWires s s') :
    MsgInv cfg s' ∧ Carried cfg s s' i := by
  subst hni
  have hs := hk.slot hp.pool
  have hc : Carried cfg s s' i := by
    rcases hh.mem with hm | ⟨pool, hpool, hm⟩
    · exact .same hk hm hh.buffers
    · exact .of_write hk hh.buffers (r := 0) (by decide) hpool hm
  have hp' := hk.placed i hi t j hp
  refine h.step_wires hc (fun u wr hwr => ?_) (fun u wr hwr => ?_)
    (fun u wc hwc => .inl (hh.cq u wc hwc)) hw
  · rcases hh.rq u wr hwr with hwr | ⟨rfl, hr⟩
    · exact .inl hwr
    · exact .inr ⟨j, hp', hr⟩
  · rcases hh.sq u wr hwr with hwr | ⟨rfl, pool, hpool, hr⟩
    · exact .inl hwr
    · exact .inr fun _ => ⟨j, hp', hr.addr, hr.length, hp'.pool, pool, hk.pool _ _ hpool, hr.bytes⟩

/-! ## The steps -/

/-- A route is resolved, and a connection established, on a transport that is set up. -/
theorem cm_placed {e : CmEvent} {cm : CmId} {x : Conn} {ret : ℤ} (h : PlaceInv cfg s)
    (hi : i < cfg.nodeCnt) (hcm : ((s.node i).trans t).cmId = some cm)
    (hx : (s.conn cm.conn).handled cm.active e ret = some x)
    (he : e.type = .routeResolved ∨ e.type = .established) : ∃ j, Placed cfg s i t j := by
  obtain ⟨hc, hend⟩ := (h.1 i hi).ends t cm hcm
  have ho := h.2 _ hc
  obtain ⟨-, hcr, -⟩ := handled_progress hx
  obtain ⟨j, hj⟩ := Option.ne_none_iff_exists'.mp (ho.target.resolve_left hcr)
  by_cases ha : cm.active = true
  · rw [if_pos ha] at hend
    obtain ⟨-, -, hp⟩ := ho.active j hj
    rw [hend.1, hend.2] at hp
    exact ⟨j, hp⟩
  · rw [if_neg ha] at hend
    have hph : (s.conn cm.conn).phase = .accepted := by
      rcases he with he | he
      · cases e with
        | other type => exact absurd he (type.ne rfl)
        | _ => simp [CmEvent.type, Conn.handled, ha] at he hx
      · cases e with
        | other type => exact absurd he (type.ne rfl)
        | established =>
          simp [Conn.handled, ha] at hx
          exact hx.1
        | _ => simp [CmEvent.type] at he
    obtain ⟨u, k, hk, hu, -, hp⟩ := ho.passive hph
    obtain rfl : i = k := Option.some.inj (hend.1.symm.trans hk)
    obtain rfl : u = t := Option.some.inj (hu.symm.trans (hend.2.resolve_left (by simp [hph])))
    exact ⟨_, hp⟩

/-- The queues after `hmp_rdma_read` or `hmp_rdma_write` has posted its request. -/
theorem rdmaPostOf_queues {nd nd' : Node} {op : TransferOp} {localAddr remoteAddr : ℕ} {length : ℤ}
    {o : PostOutcome} (h : nd' = (rdmaPostOf op nd t localAddr remoteAddr length o).1) :
    nd.AddsTasks nd' ∧ (∀ u, (nd'.qp u).rq = (nd.qp u).rq ∧ (nd'.qp u).cq = (nd.qp u).cq) ∧
      ∃ wrs : List IbvSendWr, (nd'.qp t).sq = (nd.qp t).sq ++ wrs ∧
        (∀ u ≠ t, (nd'.qp u).sq = (nd.qp u).sq) ∧ ∀ wr ∈ wrs, wr.opcode ≠ .send ∧
          wr.rkey = (nd.config.nodeInfos (nd.trans t).nodeId).dramMr.rkey := by
  obtain ⟨type, opcode, hop, he⟩ : ∃ type opcode, opcode ≠ .send ∧ nd' = (if o.task then
      (if o.err = 0 then (withTask nd type t localAddr length).setQp t { nd.qp t with
          sq := (nd.qp t).sq ++ [transferWr nd opcode t localAddr remoteAddr length] }
        else withTask nd type t localAddr length) else nd) := by
    cases op with
    | read =>
      refine ⟨.read, .rdmaRead, by decide, ?_⟩
      rw [h, rdmaPostOf, hmpRdmaReadPost_eq]
      split_ifs <;> rfl
    | write =>
      refine ⟨.write, .rdmaWrite, by decide, ?_⟩
      rw [h, rdmaPostOf, hmpRdmaWritePost_eq]
      split_ifs <;> rfl
  have ha := withTask_adds nd type t localAddr length
  split_ifs at he with ht ho <;> rw [he]
  · refine ⟨⟨ha.nextTask, ha.task⟩, fun u => ?_,
      [transferWr nd opcode t localAddr remoteAddr length], by simp, fun u hu => by simp [hu],
      by simpa [transferWr] using hop⟩
    by_cases hut : u = t
    · subst hut
      simp
    · simp [hut]
  · exact ⟨ha, fun u => ⟨rfl, rfl⟩, [], by simp, fun u _ => rfl, by simp⟩
  · exact ⟨.same rfl rfl, fun u => ⟨rfl, rfl⟩, [], by simp, fun u _ => rfl, by simp⟩

/-- The completion of a request that is no receive brings no INIT message. -/
theorem wcOk_of_ne {wc : IbvWc} (h : wc.status ≠ .success ∨ wc.opcode ≠ .recv) :
    WcOk cfg s i t wc :=
  fun hs ho => (h.elim (absurd hs) (absurd ho))

theorem wc_ne_recv (op : IbvWrOpcode) : op.wc ≠ .recv := by
  cases op <;> simp [IbvWrOpcode.wc]

/-- A request leaves a queue of `t`, and its completion comes into another. -/
theorem mem_setQp_cq {nd : Node} {q : VerbsQp} {wc : IbvWc} (hq : q.cq = (nd.qp t).cq ++ [wc])
    {w : IbvWc} (hw : w ∈ ((nd.setQp t q).qp u).cq) : w ∈ (nd.qp u).cq ∨ u = t ∧ w = wc := by
  by_cases hut : u = t
  · subst hut
    simp only [Node.setQp_qp, Function.update_self, hq, List.mem_append, List.mem_singleton] at hw
    exact hw.imp_right fun he => ⟨rfl, he⟩
  · exact .inl (by simpa [hut] using hw)

theorem setQp_qp_subset {n : Node} {q : VerbsQp} (hr : q.rq ⊆ (n.qp t).rq)
    (hs : q.sq ⊆ (n.qp t).sq) (u : ℕ) : ((n.setQp t q).qp u).rq ⊆ (n.qp u).rq ∧
      ((n.setQp t q).qp u).sq ⊆ (n.qp u).sq := by
  by_cases hut : u = t
  · subst hut
    simpa using ⟨hr, hs⟩
  · simp [hut]

/-- Where the adapter completes a request without a message. -/
theorem MsgInv.complete {q : VerbsQp} {wc : IbvWc} (h : MsgInv cfg s)
    (hk : Kept cfg s s' i) (hni : s'.node i = (s.node i).setQp t q)
    (hr : q.rq ⊆ ((s.node i).qp t).rq) (hs : q.sq ⊆ ((s.node i).qp t).sq)
    (hq : q.cq = ((s.node i).qp t).cq ++ [wc]) (hwc : wc.status ≠ .success ∨ wc.opcode ≠ .recv)
    (hdst : ∀ c < s'.nconn, ∀ bytes ∈ (s'.conn c).toDst,
      c < s.nconn ∧ bytes ∈ (s.conn c).toDst ∨ ToDstOk s' c bytes)
    (hsrc : ∀ c < s'.nconn, ∀ bytes ∈ (s'.conn c).toSrc,
      c < s.nconn ∧ bytes ∈ (s.conn c).toSrc ∨ ToSrcOk s' c bytes) :
    MsgInv cfg s' ∧ Carried cfg s s' i := by
  have hsub := setQp_qp_subset hr hs
  have hb : (s.node i).KeepsBuffers (s'.node i) := by
    rw [hni]
    exact ⟨le_rfl, fun _ _ => rfl, fun _ _ => rfl⟩
  refine h.step (.same hk (by rw [hni]; rfl) hb) (fun u wr hw => .inl ?_) (fun u wr hw => .inl ?_)
    (fun u w hw => ?_) hdst hsrc
  · exact (hsub u).1 (hni ▸ hw)
  · exact (hsub u).2 (hni ▸ hw)
  · rw [hni] at hw
    rcases mem_setQp_cq hq hw with hw | ⟨-, rfl⟩
    · exact .inl hw
    · exact .inr (wcOk_of_ne hwc)

theorem msg_send {status : IbvWcStatus} {cm : CmId} {wr : IbvSendWr} {rest : List IbvSendWr}
    (h : MsgInv cfg s) (hp : PlaceInv cfg s) (hi : i < cfg.nodeCnt)
    (hcm : ((s.node i).trans t).cmId = some cm) (hq : ((s.node i).qp t).sq = wr :: rest)
    (ho : wr.opcode = .send)
    (hs' : s' = (s.setNode i ((s.node i).setQp t { (s.node i).qp t with
        sq := rest
        cq := ((s.node i).qp t).cq ++
          [{ wrId := wr.wrId, status := status, opcode := wr.opcode.wc }] })).setConn cm.conn
      ((s.conn cm.conn).push cm.active ((s.node i).mem.read wr.sge.addr wr.sge.length)))
    (hk : Kept cfg s s' i) : MsgInv cfg s' ∧ Carried cfg s s' i := by
  obtain ⟨j, hpl, ha, hl, hne, pool, hpool, hread⟩ := h.sq i hi t wr (by simp [hq]) ho
  rw [← ha, ← hl] at hread
  rw [hread] at hs'
  have hpool' : (s'.node i).dramMempool = some pool := hk.pool i pool hpool
  obtain ⟨hc, hend⟩ := (hp.1 i hi).ends t cm hcm
  have hcn : ∀ d, d < s'.nconn → d < s.nconn := fun d hd => by
    rw [hs'] at hd
    exact hd
  have hconn : ∀ d ≠ cm.conn, s'.conn d = s.conn d := fun d hd => by simp [hs', hd]
  have hci : s'.conn cm.conn = (s.conn cm.conn).push cm.active (initFrame pool) := by simp [hs']
  have hev := hk.evolve hc
  have hni : s'.node i = (s.node i).setQp t { (s.node i).qp t with
      sq := rest
      cq := ((s.node i).qp t).cq ++
        [{ wrId := wr.wrId, status := status, opcode := wr.opcode.wc }] } := by
    rw [hs']
    exact Function.update_self ..
  refine h.complete hk hni (List.Subset.refl _) (by rw [hq]; exact List.subset_cons_self _ _) rfl
    (.inr (wc_ne_recv wr.opcode)) ?_ ?_
  · intro d hd bytes hb
    by_cases hdc : d = cm.conn
    · subst hdc
      by_cases hact : cm.active = true
      · rw [hci, Conn.push, if_pos hact, List.mem_append, List.mem_singleton] at hb
        rw [if_pos hact] at hend
        refine hb.imp (fun hb => ⟨hc, hb⟩) fun hb => ⟨pool, ?_, hb⟩
        rw [hev.src, hend.1, hpool']
      · rw [hci, Conn.push, if_neg hact] at hb
        exact .inl ⟨hc, hb⟩
    · exact .inl ⟨hcn d hd, hconn d hdc ▸ hb⟩
  · intro d hd bytes hb
    by_cases hdc : d = cm.conn
    · subst hdc
      by_cases hact : cm.active = true
      · rw [hci, Conn.push, if_pos hact] at hb
        exact .inl ⟨hc, hb⟩
      · rw [hci, Conn.push, if_neg hact, List.mem_append, List.mem_singleton] at hb
        rw [if_neg hact] at hend
        exact hb.imp (fun hb => ⟨hc, hb⟩) fun hb => ⟨i, pool, hev.dst i hend.1, hpool', hb⟩
    · exact .inl ⟨hcn d hd, hconn d hdc ▸ hb⟩

/-- The message that an end receives is the one in front of its wire. -/
theorem pop_some {x y : Conn} {active : Bool} {bytes : List UInt8}
    (h : x.pop active = some (bytes, y)) :
    active = true ∧ x.toSrc = bytes :: y.toSrc ∧ y.toDst = x.toDst ∨
      active = false ∧ x.toDst = bytes :: y.toDst ∧ y.toSrc = x.toSrc := by
  unfold Conn.pop at h
  split at h
  · rename_i hs
    simp only [Option.some.injEq, Prod.mk.injEq] at h
    obtain ⟨rfl, rfl⟩ := h
    exact .inl ⟨rfl, hs, rfl⟩
  · rename_i hs
    simp only [Option.some.injEq, Prod.mk.injEq] at h
    obtain ⟨rfl, rfl⟩ := h
    exact .inr ⟨rfl, hs, rfl⟩
  · simp at h

/-- A message that waits for a transport is the INIT message of the node at the other end. -/
theorem pop_frame {cm : CmId} {x : Conn} {bytes : List UInt8} (h : MsgInv cfg s)
    (hc : cm.conn < s.nconn) (hcm : ((s.node i).trans t).cmId = some cm)
    (hp : Placed cfg s i t j) (hx : (s.conn cm.conn).pop cm.active = some (bytes, x)) :
    ∃ pool, (s.node j).dramMempool = some pool ∧ bytes = initFrame pool := by
  obtain ⟨cm', hcm', hdst, hsrc⟩ := hp.cmId
  obtain rfl : cm = cm' := Option.some.inj (hcm.symm.trans hcm')
  rcases pop_some hx with ⟨ha, hb, -⟩ | ⟨ha, hb, -⟩
  · obtain ⟨k, pool, hk, hpool, he⟩ := h.toSrc _ hc bytes (by simp [hb])
    obtain rfl : j = k := Option.some.inj ((hdst ha).symm.trans hk)
    exact ⟨pool, hpool, he⟩
  · obtain ⟨pool, hpool, he⟩ := h.toDst _ hc bytes (by simp [hb])
    exact ⟨pool, hsrc ha ▸ hpool, he⟩

theorem msg_deliver {cm : CmId} {x : Conn} {bytes : List UInt8} {wr : IbvRecvWr}
    {rest : List IbvRecvWr} (h : MsgInv cfg s) (hp : PlaceInv cfg s)
    (hi : i < cfg.nodeCnt) (hcm : ((s.node i).trans t).cmId = some cm)
    (hq : ((s.node i).qp t).rq = wr :: rest)
    (hx : (s.conn cm.conn).pop cm.active = some (bytes, x))
    (hs' : s' = (s.setNode i { (s.node i).setQp t { (s.node i).qp t with
        rq := rest
        cq := ((s.node i).qp t).cq ++ [{ wrId := wr.wrId, status := .success, opcode := .recv
                                         byteLen := bytes.length }] } with
      mem := (s.node i).mem.write wr.sge.addr bytes }).setConn cm.conn x)
    (hk : Kept cfg s s' i) : MsgInv cfg s' ∧ Carried cfg s s' i := by
  obtain ⟨j, hpl, hwn, hsge, htr, r, hr3, haddr⟩ := h.rq i hi t wr (by simp [hq])
  obtain ⟨hc, -⟩ := (hp.1 i hi).ends t cm hcm
  obtain ⟨pool, hpool, hb⟩ := pop_frame h hc hcm hpl hx
  set q : VerbsQp := { (s.node i).qp t with
    rq := rest
    cq := ((s.node i).qp t).cq ++ [{ wrId := wr.wrId, status := .success, opcode := .recv
                                     byteLen := bytes.length }] } with hqd
  set nd : Node := { (s.node i).setQp t q with mem := (s.node i).mem.write wr.sge.addr bytes } with hnd
  have hni : s'.node i = nd := by
    rw [hs']
    exact Function.update_self ..
  have hslot := hk.slot hpl.pool
  have hbuf : (s.node i).KeepsBuffers (s'.node i) := by
    rw [hni]
    exact ⟨le_rfl, fun _ _ => rfl, fun _ _ => rfl⟩
  have hmem : (s'.node i).mem = (s.node i).mem.write ((s.node i).slot j (r + 1)) (initFrame pool) := by
    rw [hni, ← haddr, ← hb]
  have hcar : Carried cfg s s' i :=
    .of_write hk hbuf (r := r + 1) (by omega) (by simpa using hpool) hmem
  have hsub := setQp_qp_subset (n := s.node i) (q := q) (t := t)
    (by rw [hq]; exact List.subset_cons_self _ _) (List.Subset.refl _)
  have hconn : ∀ d ≠ cm.conn, s'.conn d = s.conn d := fun d hd => by simp [hs', hd]
  have hci : s'.conn cm.conn = x := by simp [hs']
  have hcn : ∀ d, d < s'.nconn → d < s.nconn := fun d hd => by
    rw [hs'] at hd
    exact hd
  refine h.step hcar (fun u wr hw => .inl ?_) (fun u wr hw => .inl ?_) (fun u w hw => ?_)
    (fun d hd f hf => .inl ⟨hcn d hd, ?_⟩) (fun d hd f hf => .inl ⟨hcn d hd, ?_⟩)
  · rw [hni] at hw
    exact (hsub u).1 hw
  · rw [hni] at hw
    exact (hsub u).2 hw
  · rw [hni] at hw
    rcases mem_setQp_cq (q := q) rfl hw with hw | ⟨rfl, rfl⟩
    · exact .inl hw
    · refine .inr fun _ _ => ?_
      have hread : (s'.node i).mem.read ((s.node i).slot j (r + 1)) INIT_SIZE = initFrame pool := by
        rw [hmem, ← initFrame_length pool]
        exact Mem.read_write_self _ _ _
      refine ⟨hwn.trans_le hbuf.nextTask, (hbuf.trans _ hwn).trans htr, j, hk.placed i hi u j hpl, r,
        hr3, ?_, hk.pool_ne hpl.pool, pool, ?_, ?_⟩
      · rw [hbuf.sge _ hwn, hsge, haddr, hslot]
      · simpa using hk.pool j pool hpool
      · rw [hslot, hread]
  all_goals
    by_cases hdc : d = cm.conn
    · subst hdc
      rw [hci] at hf
      rcases pop_some hx with ⟨-, h₁, h₂⟩ | ⟨-, h₁, h₂⟩
      all_goals first
        | exact h₂ ▸ hf
        | exact h₁ ▸ List.mem_cons_of_mem _ hf
    · exact hconn d hdc ▸ hf

theorem msg_store {addr : ℕ} {bytes : List UInt8} (h : MsgInv cfg s)
    (hok : SlotsUntouched cfg s (i, .store addr bytes))
    (hs' : s' = s.setNode i { s.node i with mem := (s.node i).mem.write addr bytes })
    (hk : Kept cfg s s' i) : MsgInv cfg s' ∧ Carried cfg s s' i := by
  have hni : s'.node i = { s.node i with mem := (s.node i).mem.write addr bytes } := by simp [hs']
  have hcar : Carried cfg s s' i := by
    refine .of_read hk ?_ fun hne p hp k hk4 => .inl ?_
    · rw [hni]
      exact ⟨le_rfl, fun _ _ => rfl, fun _ _ => rfl⟩
    · obtain ⟨pool, hpool⟩ := Option.ne_none_iff_exists'.mp hne
      have hout : addr + bytes.length ≤ pool.baseAddr ∨
        pool.baseAddr + msgArea cfg.nodeCnt ≤ addr := hok pool hpool
      have hslot := (s.node i).slot_msgArea hp hk4
      have hbase : (s.node i).baseAddr = pool.baseAddr := by simp [Node.baseAddr, hpool]
      have hsize : INIT_SIZE ≤ HMP_TASK_SIZE := by decide
      rw [hni]
      exact Mem.read_write_of_disjoint _ _ (by omega)
  refine h.step_wires hcar (fun u wr hw => .inl ?_) (fun u wr hw => .inl ?_)
    (fun u wc hw => .inl ?_) (.of_eq (by rw [hs']; rfl) (by rw [hs']; rfl))
  all_goals
    rw [hni] at hw
    exact hw

theorem handled_wires {x y : Conn} {active : Bool} {e : CmEvent} {ret : ℤ}
    (h : x.handled active e ret = some y) : y.toDst = x.toDst ∧ y.toSrc = x.toSrc := by
  cases e with
  | connectRequest cm peerAddr o => simp [Conn.handled] at h
  | _ =>
    simp only [Conn.handled] at h
    split_ifs at h <;> rw [← Option.some.inj h] <;> exact ⟨rfl, rfl⟩

theorem msg_cm {e : CmEvent} {cm : CmId} {x : Conn} (h : MsgInv cfg s) (hp : PlaceInv cfg s)
    (hi : i < cfg.nodeCnt) (hcm : ((s.node i).trans t).cmId = some cm)
    (hx : (s.conn cm.conn).handled cm.active e (hmpHandleEcEvent (s.node i) t e).2 = some x)
    (hs' : s' = (s.setNode i (hmpHandleEcEvent (s.node i) t e).1).setConn cm.conn x)
    (hk : Kept cfg s s' i) : MsgInv cfg s' ∧ Carried cfg s s' i := by
  have hni : s'.node i = (hmpHandleEcEvent (s.node i) t e).1 := by simp [hs']
  have hwires := handled_wires hx
  have hw : SameWires s s' :=
    .of_update (c := cm.conn) (x := x) (by rw [hs']; rfl) (by rw [hs']; rfl) hwires.1 hwires.2
  obtain ⟨-, -, hreq, -⟩ := handled_progress hx
  by_cases he : e.type = .routeResolved ∨ e.type = .established
  · obtain ⟨j, hpl⟩ := cm_placed hp hi hcm hx he
    refine h.handsOver hk hi hni ?_ hpl hw
    cases e with
    | routeResolved o => exact onCmRouteResolved_handsOver o hpl.located ((hp.1 i hi).curRecv t)
    | established peer o => exact onCmEstablished_handsOver peer o hpl.located hpl.pool
    | addrResolved | connectRequest | disconnected => simp [CmEvent.type] at he
    | other type => exact he.elim (absurd · (type.ne rfl)) (absurd · (type.ne rfl))
  · obtain ⟨h₁, h₂, h₃, h₄⟩ := hmpHandleEcEvent_quiet (s.node i) t hreq (fun ht => he (.inl ht))
      (fun ht => he (.inr ht))
    refine h.quiet hk hni h₁ h₂ h₃ (fun u => ?_) hw
    obtain ⟨hr, hs, hc⟩ := h₄ u
    exact ⟨hr ▸ List.Subset.refl _, hs ▸ List.Subset.refl _, hc ▸ List.Subset.refl _⟩

/-- Polling takes a completion away, and its handler may mark the task. -/
theorem msg_poll {wc : IbvWc} {rest : List IbvWc} {nd nd' : Node} (h : MsgInv cfg s)
    (hq : ((s.node i).qp t).cq = wc :: rest)
    (hnd : nd = (s.node i).setQp t { (s.node i).qp t with cq := rest })
    (hnd' : nd' = nd ∨ nd' = nd.setTask wc.wrId { nd.task wc.wrId with type := .done })
    (hni : s'.node i = nd') (hc : s'.conn = s.conn) (hn : s'.nconn = s.nconn)
    (hk : Kept cfg s s' i) : MsgInv cfg s' ∧ Carried cfg s s' i := by
  have hqp : nd'.qp = nd.qp ∧ nd'.mem = nd.mem := by
    rcases hnd' with rfl | rfl <;> exact ⟨rfl, rfl⟩
  have hb : (s.node i).KeepsBuffers nd' := by
    rcases hnd' with rfl | rfl
    · rw [hnd]
      exact ⟨le_rfl, fun _ _ => rfl, fun _ _ => rfl⟩
    · have hf : ∀ p, (((nd.setTask wc.wrId { nd.task wc.wrId with type := .done }).task p).sge =
          (nd.task p).sge) ∧ ((nd.setTask wc.wrId { nd.task wc.wrId with
            type := .done }).task p).rdmaTrans = (nd.task p).rdmaTrans := by
        intro p
        by_cases hpw : p = wc.wrId
        · subst hpw
          simp
        · simp [hpw]
      subst hnd
      exact ⟨le_rfl, fun p _ => (hf p).1, fun p _ => (hf p).2⟩
  have hsub := setQp_qp_subset (n := s.node i) (t := t)
    (q := { (s.node i).qp t with cq := rest }) (List.Subset.refl _) (List.Subset.refl _)
  rw [← hnd] at hsub
  refine h.step_wires (.same hk (by rw [hni, hqp.2, hnd]; rfl) (hni ▸ hb)) (fun u wr hw => .inl ?_)
    (fun u wr hw => .inl ?_) (fun u w hw => .inl ?_) (.of_eq hc hn)
  · rw [hni, hqp.1] at hw
    exact (hsub u).1 hw
  · rw [hni, hqp.1] at hw
    exact (hsub u).2 hw
  · rw [hni, hqp.1, hnd] at hw
    by_cases hut : u = t
    · subst hut
      rw [hq]
      exact List.mem_cons_of_mem _ (by simpa using hw)
    · simpa [hut] using hw

theorem msg_post {op : TransferOp} {localAddr remoteAddr : ℕ} {length : ℤ} {o : PostOutcome}
    {nd : Node} (h : MsgInv cfg s)
    (hnd : nd = (rdmaPostOf op (s.node i) t localAddr remoteAddr length o).1)
    (hni : s'.node i = nd) (hc : s'.conn = s.conn) (hn : s'.nconn = s.nconn)
    (hk : Kept cfg s s' i) : MsgInv cfg s' ∧ Carried cfg s s' i := by
  obtain ⟨-, -, -, -, -, -, hm⟩ := rdmaPostOf_frame _ _ _ _ _ _ _ hnd
  obtain ⟨ha, hrc, wrs, hsq, hsq', hwrs⟩ := rdmaPostOf_queues hnd
  subst hni
  refine h.step_wires (.same hk hm ha.keepsBuffers) (fun u wr hw => .inl ((hrc u).1 ▸ hw))
    (fun u wr hw => ?_) (fun u w hw => .inl ((hrc u).2 ▸ hw)) (.of_eq hc hn)
  by_cases hut : u = t
  · subst hut
    rw [hsq, List.mem_append] at hw
    exact hw.imp_right fun hw hs => absurd hs (hwrs wr hw).1
  · exact .inl (hsq' u hut ▸ hw)

theorem requestTransport_quiet {nd nd' : Node} {cm : CmId} {o : RequestOutcome}
    (h : requestTransport nd cm o = (nd', none)) :
    nd'.mem = nd.mem ∧ nd'.task = nd.task ∧ nd'.nextTask = nd.nextTask ∧ nd'.qp = nd.qp := by
  rcases requestTransport_cases nd cm o with he | he | he <;> rw [he] at h <;>
    simp only [Prod.mk.injEq, and_true, reduceCtorEq, and_false] at h <;> subst h <;>
    exact ⟨rfl, rfl, rfl, rfl⟩

theorem MsgInv.quiet_qp {nd : Node} (h : MsgInv cfg s) (hk : Kept cfg s s' i)
    (hni : s'.node i = nd) (hq : nd.mem = (s.node i).mem ∧ nd.task = (s.node i).task ∧
      nd.nextTask = (s.node i).nextTask ∧ nd.qp = (s.node i).qp) (hw : SameWires s s') :
    MsgInv cfg s' ∧ Carried cfg s s' i :=
  h.quiet hk hni hq.1 hq.2.1 hq.2.2.1
    (fun u => by rw [hq.2.2.2]; exact ⟨List.Subset.refl _, List.Subset.refl _, List.Subset.refl _⟩) hw

/-- Every step keeps the messages in order. -/
theorem MsgInv.move {e : NodeEvent} (h : MsgInv cfg s) (hp : PlaceInv cfg s)
    (hi : i < cfg.nodeCnt) (hm : Moves cfg s i e s') (hok : SlotsUntouched cfg s (i, e)) :
    MsgInv cfg s' ∧ Carried cfg s s' i := by
  have hk := hp.move hi hm
  cases hm with
  | memInit hm hp => exact h.quiet_qp hk (Function.update_self ..) ⟨rfl, rfl, rfl, rfl⟩ (.of_eq rfl rfl)
  | memExit hm hp => exact h.quiet_qp hk rfl ⟨rfl, rfl, rfl, rfl⟩ (.of_eq rfl rfl)
  | listen hm =>
    refine h.quiet_qp hk (Function.update_self ..) ?_ (.of_eq rfl rfl)
    unfold hmpTransportListen
    split_ifs <;> exact ⟨rfl, rfl, rfl, rfl⟩
  | clear hm => exact h.quiet_qp hk (Function.update_self ..) ⟨rfl, rfl, rfl, rfl⟩ (.of_eq rfl rfl)
  | create hm hk' hr =>
    exact h.quiet_qp hk (Function.update_self ..) ⟨rfl, rfl, rfl, rfl⟩ (.of_eq rfl rfl)
  | createExit hm hk' hr =>
    exact h.quiet_qp hk (Function.update_self ..) ⟨rfl, rfl, rfl, rfl⟩ (.of_eq rfl rfl)
  | done hm hk' => exact h.quiet_qp hk rfl ⟨rfl, rfl, rfl, rfl⟩ (.of_eq rfl rfl)
  | peer hm =>
    rename_i stmt
    exact h.quiet_qp hk (Function.update_self ..)
      (by cases stmt <;> exact ⟨rfl, rfl, rfl, rfl⟩) (.of_eq rfl rfl)
  | entry hm =>
    refine h.quiet_qp hk (Function.update_self ..) ?_ (.of_eq rfl rfl)
    simp only [connectEntry, hmpPortUriInit]
    split_ifs <;> exact ⟨rfl, rfl, rfl, rfl⟩
  | createIdFail hm hr =>
    exact h.quiet_qp hk (Function.update_self ..) ⟨rfl, rfl, rfl, rfl⟩ (.of_eq rfl rfl)
  | createId hm hr =>
    refine h.quiet_qp hk (Function.update_self ..) ⟨rfl, rfl, rfl, rfl⟩
      fun d hd => ⟨fun hlt => ?_, fun hge => ?_⟩
    · simp [hlt.ne]
    · obtain rfl : d = s.nconn := by
        have : d < s.nconn + 1 := hd
        omega
      simp
  | resolveFail hm hr =>
    exact h.quiet_qp hk (Function.update_self ..) ⟨rfl, rfl, rfl, rfl⟩ (.of_eq rfl rfl)
  | resolve hm hr hcm =>
    exact h.quiet_qp hk (Function.update_self ..) ⟨rfl, rfl, rfl, rfl⟩ (.of_update rfl rfl rfl rfl)
  | setState hm => exact h.quiet_qp hk (Function.update_self ..) ⟨rfl, rfl, rfl, rfl⟩ (.of_eq rfl rfl)
  | cm hl hcm hx => exact msg_cm h hp hi hcm hx rfl hk
  | requestFail hc hph hd hli hl hr =>
    exact h.quiet_qp hk (Function.update_self ..) (requestTransport_quiet hr)
      (.of_update rfl rfl rfl rfl)
  | request hc hph hd hli hl =>
    refine h.quiet hk (Function.update_self ..) rfl rfl rfl (fun u => ?_)
      (.of_update rfl rfl rfl rfl)
    by_cases hut : u = (s.node i).nextTrans
    · subst hut
      simp
    · simp [hut, withRequest]
  | register hl =>
    obtain ⟨-, -, -, hnext, htask, hqp, hmem⟩ := requestRegister_frame ..
    exact h.quiet_qp hk (Function.update_self ..) ⟨hmem, htask, hnext, hqp⟩ (.of_eq rfl rfl)
  | acceptFail hl ha =>
    obtain ⟨-, -, -, -, -, hpl⟩ := accepting_conn hp hi hl
    exact h.handsOver hk hi (Function.update_self ..)
      (hmpPrePostRecv_handsOver _ _ hpl.located ((hp.1 i hi).curRecv _)) hpl
      (.of_update rfl rfl rfl rfl)
  | accept hl ha =>
    obtain ⟨-, -, -, -, -, hpl⟩ := accepting_conn hp hi hl
    exact h.handsOver hk hi (Function.update_self ..)
      (hmpPrePostRecv_handsOver _ _ hpl.located ((hp.1 i hi).curRecv _)) hpl
      (.of_update rfl rfl rfl rfl)
  | requestDone hl => exact h.quiet_qp hk (Function.update_self ..) ⟨rfl, rfl, rfl, rfl⟩ (.of_eq rfl rfl)
  | pollInit hl hq hnd hs hi' => exact msg_poll h hq hnd (.inl rfl) (Function.update_self ..) rfl rfl hk
  | poll hl hq hnd hi' =>
    exact msg_poll h hq hnd (dispatchWc_quiet hi') (Function.update_self ..) rfl rfl hk
  | mr hl =>
    rename_i stmt
    exact h.quiet_qp hk (Function.update_self ..)
      (by cases stmt <;> exact ⟨rfl, rfl, rfl, rfl⟩) (.of_eq rfl rfl)
  | loopExit hl hs => exact h.quiet_qp hk rfl ⟨rfl, rfl, rfl, rfl⟩ (.of_eq rfl rfl)
  | complete hcm hq ho =>
    exact h.complete hk (Function.update_self ..) (List.Subset.refl _)
      (by rw [hq]; exact List.subset_cons_self _ _) rfl (.inr (wc_ne_recv _))
      (fun d hd f hf => .inl ⟨hd, hf⟩) (fun d hd f hf => .inl ⟨hd, hf⟩)
  | send hcm hq ho hs =>
    exact msg_send h hp hi hcm hq ho rfl hk
  | deliver hcm hq hx hlive hlen =>
    exact msg_deliver h hp hi hcm hq hx rfl hk
  | recvError hq hs =>
    exact h.complete hk (Function.update_self ..) (by rw [hq]; exact List.subset_cons_self _ _)
      (List.Subset.refl _) rfl (.inl hs) (fun d hd f hf => .inl ⟨hd, hf⟩)
      (fun d hd f hf => .inl ⟨hd, hf⟩)
  | check hc => exact h.quiet_qp hk rfl ⟨rfl, rfl, rfl, rfl⟩ (.of_eq rfl rfl)
  | post hc hnd => exact msg_post h hnd (Function.update_self ..) rfl rfl hk
  | store => exact msg_store h hok rfl hk

end Cluster

end HMP
