import Hmp.Proofs.FullMesh
import Hmp.Sanity.Refs

/-! What the startup of a cluster leaves is what a sequence of calls starts from. -/

namespace HMP

namespace Cluster

variable {cfg : ClusterConfig} {s s' : Cluster} {i j k t u c : ℕ}

/-- Whatever a process refers to has been allocated, and its pool is one of `hmp_mem_init`. -/
structure Provided (nd : Node) : Prop where
  table : nd.TableOk
  names : ∀ u p, nd.Mentions u p → nd.Owns u p
  pool : ∀ pool, nd.dramMempool = some pool → Transfer.PoolOf pool

theorem Node.tasksOk_of_names {nd : Node} (h : ∀ p, nd.Mentions t p → nd.Owns t p) :
    nd.TasksOk t :=
  ⟨fun _ hw => h _ (Node.mentions_rq hw), fun _ hw => h _ (Node.mentions_sq hw),
    fun _ hw => h _ (Node.mentions_cq hw)⟩

namespace Provided

variable {nd nd' : Node}

/-- What is referred to behind a step was referred to before, or is new. -/
theorem grow (h : Provided nd) (hp : nd'.dramMempool = nd.dramMempool)
    (ht : ∀ k u, nd'.connectTrans k = some u → nd.connectTrans k = some u ∨ u < nd'.nextTrans)
    (hn : nd.nextTrans ≤ nd'.nextTrans) (hk : nd.KeepsTasks nd')
    (hm : ∀ u p, nd'.Mentions u p → nd.Mentions u p ∨ nd.NewTask nd' u p) : Provided nd' where
  table k u hu := (ht k u hu).elim (fun hu => (h.table k u hu).trans_le hn) id
  names u p hu := (hm u p hu).elim (fun hu => hk.owns (h.names u p hu)) And.right
  pool pool hpool := h.pool pool (hp ▸ hpool)

/-- A step that leaves the pool, the table and the queues alone. -/
theorem same (h : Provided nd) (hp : nd'.dramMempool = nd.dramMempool)
    (hc : nd'.connectTrans = nd.connectTrans) (hn : nd'.nextTrans = nd.nextTrans)
    (hk : nd.KeepsTasks nd') (hq : nd'.qp = nd.qp) : Provided nd' :=
  h.grow hp (fun _ _ hu => .inl (hc ▸ hu)) hn.ge hk fun _ _ hm => .inl (hm.congr (by rw [hq]))

/-- A queue pair is replaced by one that names nothing new. -/
theorem setQp {q : VerbsQp} (h : Provided nd) (hr : ∀ wr ∈ q.rq, nd.Mentions t wr.wrId)
    (hs : ∀ wr ∈ q.sq, nd.Mentions t wr.wrId) (hc : ∀ wc ∈ q.cq, nd.Mentions t wc.wrId) :
    Provided (nd.setQp t q) :=
  h.grow rfl (fun _ _ hu => .inl hu) le_rfl (.same rfl rfl)
    fun _ _ hm => .inl (hm.setQp hr hs hc)

/-- A handler that only adds messages. -/
theorem messages (h : Provided nd) (hp : nd'.dramMempool = nd.dramMempool)
    (hc : nd'.connectTrans = nd.connectTrans) (hn : nd.nextTrans ≤ nd'.nextTrans)
    (hm : nd.AddsMessages nd') : Provided nd' :=
  h.grow hp (fun _ _ hu => .inl (hc ▸ hu)) hn hm.tasks.keeps fun _ _ => hm.mentions

end Provided

/-- An adapter has finished the oldest request of a queue. -/
theorem Provided.complete {nd : Node} {wr : IbvSendWr} {rest : List IbvSendWr} {wc : IbvWc}
    (h : Provided nd) (hq : (nd.qp t).sq = wr :: rest) (hwc : wc.wrId = wr.wrId) :
    Provided (nd.setQp t { nd.qp t with sq := rest, cq := (nd.qp t).cq ++ [wc] }) := by
  refine h.setQp (fun w hw => Node.mentions_rq hw) (fun w hw => ?_) fun w hw => ?_
  · exact Node.mentions_sq (by rw [hq]; exact List.mem_cons_of_mem _ hw)
  · rcases List.mem_append.mp hw with hw | hw
    · exact Node.mentions_cq hw
    · obtain rfl := List.mem_singleton.mp hw
      exact hwc ▸ Node.mentions_sq (by rw [hq]; exact List.mem_cons_self)

theorem Provided.recv {nd : Node} {wr : IbvRecvWr} {rest : List IbvRecvWr} {wc : IbvWc}
    (h : Provided nd) (hq : (nd.qp t).rq = wr :: rest) (hwc : wc.wrId = wr.wrId) :
    Provided (nd.setQp t { nd.qp t with rq := rest, cq := (nd.qp t).cq ++ [wc] }) := by
  refine h.setQp (fun w hw => ?_) (fun w hw => Node.mentions_sq hw) fun w hw => ?_
  · exact Node.mentions_rq (by rw [hq]; exact List.mem_cons_of_mem _ hw)
  · rcases List.mem_append.mp hw with hw | hw
    · exact Node.mentions_cq hw
    · obtain rfl := List.mem_singleton.mp hw
      exact hwc ▸ Node.mentions_rq (by rw [hq]; exact List.mem_cons_self)

theorem Provided.poll {nd : Node} {wc : IbvWc} {rest : List IbvWc} (h : Provided nd)
    (hq : (nd.qp t).cq = wc :: rest) : Provided (nd.setQp t { nd.qp t with cq := rest }) :=
  h.setQp (fun _ hw => Node.mentions_rq hw) (fun _ hw => Node.mentions_sq hw)
    fun _ hw => Node.mentions_cq (by rw [hq]; exact List.mem_cons_of_mem _ hw)

theorem Provided.post {nd : Node} {op : TransferOp} {localAddr remoteAddr : ℕ} {length : ℤ}
    {o : PostOutcome} (h : Provided nd) :
    Provided (rdmaPostOf op nd t localAddr remoteAddr length o).1 := by
  cases op with
  | read =>
    obtain ⟨hp, hn, hc, ha, -, hm⟩ :=
      Transfer.posted_mentions (hmpRdmaReadPost_eq nd t localAddr remoteAddr length o)
    exact h.grow hp (fun _ _ hu => .inl (hc ▸ hu)) hn.ge ha.keeps hm
  | write =>
    obtain ⟨hp, hn, hc, ha, -, hm⟩ :=
      Transfer.posted_mentions (hmpRdmaWritePost_eq nd t localAddr remoteAddr length o)
    exact h.grow hp (fun _ _ hu => .inl (hc ▸ hu)) hn.ge ha.keeps hm

/-- A transport with an id has been created. -/
theorem NodeOk.lt_nextTrans {cm : CmId} (h : NodeOk cfg s i)
    (hcm : ((s.node i).trans t).cmId = some cm) : t < (s.node i).nextTrans := by
  by_contra hge
  simp [h.fresh t (by omega)] at hcm

/-- The statements of `hmp_node_init`. -/
theorem provided_main {ret : ℤ} (h : Provided (s.node i)) (hnf : s.noFailure (i, .main ret) = true)
    (hm : Moves cfg s i (.main ret) s') : Provided (s'.node i) := by
  cases hm with
  | listen hm =>
    simp only [setMain_node, setNode_node, Function.update_self, hmpTransportListen]
    split_ifs
    · exact h
    · exact h.same rfl rfl rfl (.same rfl rfl) rfl
  | clear hm =>
    simp only [setMain_node, setNode_node, Function.update_self]
    refine h.grow rfl (fun k u hu => .inl ?_) le_rfl (.same rfl rfl) fun u p hu => .inl (hu.congr rfl)
    simp only [clearTable] at hu
    split_ifs at hu
    exact hu
  | create hm hk hr =>
    simp only [setMain_node, setNode_node, Function.update_self]
    refine h.grow rfl (fun k u hu => ?_) (Nat.le_succ _) (.same rfl rfl)
      fun u p hu => .inl (hu.congr rfl)
    rename_i k'
    by_cases hkk : k = k'
    · subst hkk
      simp only [peerCreate, Function.update_self] at hu
      obtain rfl := Option.some.inj hu
      exact .inr (Nat.lt_succ_self _)
    · exact .inl ((Function.update_of_ne hkk ..).symm.trans hu)
  | createExit hm hk hr => simp [noFailure, hm, hr] at hnf
  | done hm hk => exact h
  | peer hm =>
    rename_i k t stmt
    simp only [setMain_node, setNode_node, Function.update_self]
    cases stmt <;> exact h.same rfl rfl rfl (.same rfl rfl) rfl
  | entry hm =>
    simp only [setMain_node, setNode_node, Function.update_self, connectEntry, hmpPortUriInit]
    split_ifs <;> first | exact h | exact h.same rfl rfl rfl (.same rfl rfl) rfl
  | createIdFail hm hr => simp [noFailure, hm, hr] at hnf
  | resolveFail hm hr => simp [noFailure, hm, hr] at hnf
  | createId hm hr =>
    simp only [addConn_node, setMain_node, setNode_node, Function.update_self]
    exact h.same rfl rfl rfl (.same rfl rfl) rfl
  | resolve hm hr hcm =>
    simp only [setConn_node, setMain_node, setNode_node, Function.update_self]
    exact h
  | setState hm =>
    simp only [setMain_node, setNode_node, Function.update_self]
    exact h.same rfl rfl rfl (.same rfl rfl) rfl

/-- A step without failure keeps the process provided. -/
theorem provided_move {e : NodeEvent} (h : Provided (s.node i)) (hpl : NodeOk cfg s i)
    (hnf : s.noFailure (i, e) = true) (hm : Moves cfg s i e s') : Provided (s'.node i) := by
  cases e with
  | main ret => exact provided_main h hnf hm
  | memInit base pageArray keys =>
    cases hm with
    | memInit hm hp =>
      rename_i pool
      simp only [setMain_node, setNode_node, Function.update_self]
      exact ⟨h.table.congr rfl rfl, fun u p hu => h.names u p (hu.congr rfl),
        fun pool' hpool' => Option.some.inj hpool' ▸ ⟨base, pageArray, keys, pool, hp, rfl⟩⟩
    | memExit hm hp => exact h
  | cm t e =>
    cases hm with
    | cm hl hcm hx =>
      have hreq : e.type ≠ .connectRequest := by
        cases e with
        | addrResolved | routeResolved | established => simp [CmEvent.type]
        | connectRequest | disconnected | other => simp [noFailure] at hnf
      have hst := hmpHandleEcEvent_steady (s.node i) t e hreq
      simp only [setConn_node, setNode_node, Function.update_self]
      exact h.messages hst.pool (hmpHandleEcEvent_sameTable _ t e hreq).connectTrans hst.nextTrans
        (hmpHandleEcEvent_addsMessages _ t e)
  | request c o =>
    cases hm with
    | requestFail hc hph hd hli hl hr => exact absurd hr (noFailure_request hnf)
    | request hc hph hd hli hl =>
      have hw : (s.node i).AddsMessages
          (withRequest (s.node i) ⟨c, false⟩ (hmpDeviceLookup (s.node i) o.verbs)) :=
        .same (.same rfl rfl) rfl
      simp only [setLoop_node, setConn_node, setNode_node, Function.update_self]
      exact h.messages rfl rfl (Nat.le_succ _) (hw.trans (setQp_addsMessages _ _ rfl rfl rfl))
  | register =>
    cases hm with
    | register hl =>
      rename_i c t
      have hcm := (hl ▸ hpl.loop : LoopOk cfg s i (.storing c t)).1
      obtain ⟨-, hp, hn, hk, ht, hq, -⟩ :=
        requestRegister_frame (s.node i) t (cfg.nodeInfos (s.conn c).src).addr
      simp only [setLoop_node, setNode_node, Function.update_self]
      refine h.grow hp (fun k u hu => ?_) hn.ge (.same hk ht) fun u p hu => .inl (hu.congr (by rw [hq]))
      rcases requestRegister_entry hu with hu | rfl
      · exact .inl hu
      · exact .inr (hn ▸ hpl.lt_nextTrans hcm)
  | accept o =>
    cases hm with
    | acceptFail hl ha => simp [noFailure, ha] at hnf
    | accept hl ha =>
      rename_i c t
      obtain ⟨hc, hn, -, hp⟩ := hmpPrePostRecv_frame (s.node i) t o.recv₁ o.recv₂
      simp only [setLoop_node, setConn_node, setNode_node, Function.update_self]
      exact h.messages hp hc hn.ge (hmpPrePostRecv_addsMessages ..)
  | requestDone =>
    cases hm with
    | requestDone hl =>
      simp only [setLoop_node, setNode_node, Function.update_self]
      exact h.same rfl rfl rfl (.same rfl rfl) rfl
  | poll t =>
    cases hm with
    | pollInit hl hq hnd hs hinit =>
      subst hnd
      simp only [setLoop_node, setNode_node, Function.update_self]
      exact h.poll hq
    | poll hl hq hnd hinit =>
      rename_i wc rest nd
      obtain ⟨hqp, -, hn, hc, -, hp, -⟩ := dispatchWc_frame nd wc
      simp only [setNode_node, Function.update_self]
      exact (hnd ▸ h.poll hq).same hp hc hn (dispatchWc_keepsTasks nd wc) hqp
  | mr =>
    cases hm with
    | mr hl =>
      rename_i t data stmt
      simp only [setLoop_node, setNode_node, Function.update_self]
      cases stmt <;> exact h.same rfl rfl rfl (.same rfl rfl) rfl
  | complete t status sent =>
    cases hm with
    | complete hcm hq ho =>
      simp only [setNode_node, Function.update_self]
      exact h.complete hq rfl
    | send hcm hq ho hs =>
      simp only [setConn_node, setNode_node, Function.update_self]
      exact h.complete hq rfl
  | deliver t =>
    cases hm with
    | deliver hcm hq hx hlive hlen =>
      simp only [setConn_node, setNode_node, Function.update_self]
      refine Provided.same (h.recv hq ?_) rfl rfl rfl (.same rfl rfl) rfl
      rfl
  | recvError t status =>
    cases hm with
    | recvError hq hs => simp [noFailure] at hnf
  | post t op localAddr remoteAddr length o =>
    cases hm with
    | post hc hnd =>
      subst hnd
      simp only [setNode_node, Function.update_self]
      exact h.post
  | check t =>
    cases hm with
    | check hct => exact h
  | loopExit =>
    cases hm with
    | loopExit hl hs => exact h
  | store addr bytes =>
    cases hm with
    | store =>
      simp only [setNode_node, Function.update_self]
      exact h.same rfl rfl rfl (.same rfl rfl) rfl

/-! ## At the end of startup -/

/-- What holds of a cluster in every state of an orderly run, with what its processes refer to. -/
structure HandoverInv (cfg : ClusterConfig) (s : Cluster) : Prop where
  startup : StartupInv cfg s
  provided : ∀ i < cfg.nodeCnt, Provided (s.node i)

theorem HandoverInv.step {e : ℕ × NodeEvent} (h : HandoverInv cfg s) (hok : Orderly cfg s e)
    (hst : (sys cfg).step s e = some s') : HandoverInv cfg s' := by
  refine ⟨h.startup.step hok hst, fun k hk => ?_⟩
  obtain ⟨hi, hm⟩ := step_moves hst
  by_cases hke : k = e.1
  · subst hke
    exact provided_move (h.provided _ hk) (h.startup.cluster.place.1 _ hk) hok.1.1 hm
  · obtain ⟨c, hs⟩ := (h.startup.cluster.place.move hi hm).place
    rw [hs.node k hke]
    exact h.provided k hk

theorem HandoverInv.start (h : Start cfg s) (he : Equipped cfg s) : HandoverInv cfg s := by
  refine ⟨.start h he, fun i hi => ?_⟩
  obtain ⟨id, devs, mem, -, hn⟩ := h.1 i hi
  rw [hn]
  refine ⟨(fun _ _ hk => by cases hk), fun u p hu => ?_, (fun _ hp => by cases hp)⟩
  rcases hu with ⟨w, hw, -⟩ | ⟨w, hw, -⟩ | ⟨w, hw, -⟩ <;> cases hw

section

variable (h : HandoverInv cfg s) (hdone : ∀ i < cfg.nodeCnt, s.main i = .done)
  (hh : (sys cfg).Halted (OrderlyOwn cfg) s)

include h

/-- The other end of a transport is a node of the cluster. -/
theorem transferAt_far (hi : i < cfg.nodeCnt) (t : ℕ) : (s.transferAt i).far t < cfg.nodeCnt := by
  have hplace := h.startup.cluster.place
  cases hcm : ((s.node i).trans t).cmId with
  | none => simpa [transferAt, otherEnd, hcm] using hi
  | some cm =>
    obtain ⟨hc, hend⟩ := (hplace.1 i hi).ends t cm hcm
    have hok := hplace.2 cm.conn hc
    cases hdst : (s.conn cm.conn).dst with
    | none => cases hact : cm.active <;> simp [transferAt, otherEnd, hcm, hact, hdst, hi, hok.src]
    | some j =>
      have hj := (hok.active j hdst).2.2.lt
      cases hact : cm.active <;> simp [transferAt, otherEnd, hcm, hact, hdst, hj, hok.src]

/-- The transport for another node leads there. -/
theorem transferAt_conn (hmesh : FullMesh cfg s) (hi : i < cfg.nodeCnt) (hk : k < cfg.nodeCnt)
    (hne : k ≠ i) : ∃ t, (s.node i).connectTrans k = some t ∧ (s.transferAt i).far t = k ∧
      ((s.node i).trans t).nodeId = k ∧ ((s.node i).trans t).transState = .connected := by
  obtain ⟨t, u, pool, ht, -, ⟨c, active, -, -, hfar, -⟩, hst, -⟩ := hmesh.2 i hi k hk hne.symm
  obtain ⟨j, hp, -⟩ := h.startup.cluster.mr.connected i hi t hst
  obtain rfl : k = j := Option.some.inj (hfar.symm.trans hp.far)
  exact ⟨t, ht, by simp [transferAt, hfar], hp.located.nodeId, hst⟩

theorem transferAt_connected (hmesh : FullMesh cfg s) (hi : i < cfg.nodeCnt) :
    Transfer.Connected (s.transferAt i) := by
  have hn := h.startup.cluster.place.1 i hi
  refine ⟨rfl, hn.nodeCnt.trans_le cfg.nodeCnt_le, ?_, fun k hk hne => ?_, fun t =>
    Node.tasksOk_of_names ((h.provided i hi).names t)⟩
  · exact (hn.curnodeId.trans_lt hi).trans_eq hn.nodeCnt.symm
  · exact transferAt_conn h hmesh hi (hk.trans_eq hn.nodeCnt) (hne.trans_eq hn.curnodeId)

include hdone hh

theorem transferAt_ready (hmesh : FullMesh cfg s) (hi : i < cfg.nodeCnt) :
    Transfer.Ready (s.transferAt i) := by
  have hconn := transferAt_connected h hmesh hi
  have hg := h.startup.ledger.1 i hi
  refine ⟨hconn, ⟨rfl, rfl, (h.provided i hi).table, fun t ht => ?_, hconn.tasks⟩,
    fun t wr hw => ?_⟩
  · exact hg.unused t ((h.startup.cluster.place.1 i hi).fresh t ht)
  · have hsq : ((s.node i).qp t).sq = [] := by
      cases hcm : ((s.node i).trans t).cmId with
      | none => rw [hg.unused t hcm]
      | some cm => exact sq_empty hdone hh hi hcm
    have hw : wr ∈ ((s.node i).qp t).sq := hw
    rw [hsq] at hw
    cases hw

end

/-- Where the startup of a cluster has come to its end, every node can begin a sequence of calls:
the transports of its table lead to the nodes they are for, and its queues are empty of transfers
and name no task but their own. -/
theorem startup_serves_transfers (cfg : ClusterConfig) (s₀ s : Cluster) (h₀ : Start cfg s₀)
    (he : Equipped cfg s₀) (hr : (sys cfg).Run (Orderly cfg) s₀ s)
    (hh : (sys cfg).Halted (OrderlyOwn cfg) s) :
    ∃ pools : ℕ → HmpMempool, (∀ k < cfg.nodeCnt, (s.node k).dramMempool = some (pools k)) ∧
      ∀ i < cfg.nodeCnt, Transfer.Ready (s.transferAt i) ∧
        Transfer.FullyConnected pools (s.transferAt i) := by
  have hinv : HandoverInv cfg s := hr.keeps (fun _ _ _ h hok hst => h.step hok hst) (.start h₀ he)
  have hmesh := fullMesh_of_halted hinv.startup hh he.ports
  have hpool : ∀ k < cfg.nodeCnt, ∃ pool, (s.node k).dramMempool = some pool := by
    intro k hk
    have hm := (hinv.startup.cluster.place.1 k hk).main
    rw [hmesh.1 k hk] at hm
    exact Option.ne_none_iff_exists'.mp hm
  have : Nonempty HmpMempool := ⟨samplePool⟩
  choose! pools hpools using hpool
  refine ⟨pools, hpools, fun i hi => ⟨transferAt_ready hinv hmesh.1 hh hmesh hi, ?_⟩⟩
  have hn := hinv.startup.cluster.place.1 i hi
  refine ⟨transferAt_connected hinv hmesh hi, fun k hk => ?_, ?_, fun t => ?_⟩
  · have hk : k < cfg.nodeCnt := hk.trans_eq hn.nodeCnt
    exact (hinv.provided k hk).pool _ (hpools k hk)
  · exact (hpools i hi).trans (congrArg (some ∘ pools) hn.curnodeId.symm)
  · exact (transferAt_far hinv hi t).trans_eq hn.nodeCnt.symm

theorem startup_serves_transfers_sample : ∃ s,
    (sys sampleConfig).Run (Orderly sampleConfig) sample s ∧
      ∃ pools : ℕ → HmpMempool, (∀ k < 2, (s.node k).dramMempool = some (pools k)) ∧
        ∀ i < 2, Transfer.Ready (s.transferAt i) ∧
          Transfer.FullyConnected pools (s.transferAt i) := by
  obtain ⟨s, hr, hh⟩ := sample_halts
  exact ⟨s, hr, startup_serves_transfers sampleConfig sample s sample_start sample_equipped hr hh⟩

end Cluster

end HMP
