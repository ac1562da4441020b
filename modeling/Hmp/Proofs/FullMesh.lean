import Hmp.Proofs.Termination

/-! Startup without failures connects every two nodes: no thread and no connection waits for ever. -/

namespace HMP

namespace Cluster

variable {cfg : ClusterConfig} {s s' : Cluster} {i j k t u c : ℕ}

/-! ## Where nothing can happen, everything has happened -/

/-- In a state where no orderly step is left, an orderly event is not enabled. -/
theorem Halted.step_none {e : NodeEvent} (h : (sys cfg).Halted (OrderlyOwn cfg) s)
    (hi : i < cfg.nodeCnt) (ho : Orderly cfg s (i, e)) (hown : ownStep e = true) :
    s.nodeStep cfg i e = none := by
  have hs := h (i, e) ⟨ho, hown⟩
  simpa [sys, step, hi] using hs

theorem orderly_main {ret : ℤ} (h : s.noFailure (i, .main ret) = true) :
    Orderly cfg s (i, .main ret) :=
  ⟨⟨h, rfl⟩, rfl, trivial⟩

/-- Some statement of `hmp_node_init` can be taken as long as it has not finished. -/
theorem main_done (h : StartupInv cfg s) (hp : ∀ k < cfg.nodeCnt, (cfg.nodeInfos k).port ≠ 0)
    (hh : (sys cfg).Halted (OrderlyOwn cfg) s) (hi : i < cfg.nodeCnt) : s.main i = .done := by
  have hg := h.ledger.1 i hi
  have hok := (h.cluster.place.1 i hi).main
  have hnone : s.noFailure (i, .main 0) = true → s.mainStep cfg i 0 = none :=
    fun hnf => Halted.step_none hh hi (orderly_main hnf) rfl
  cases hm : s.main i with
  | memInit =>
    have hpool : (hmpMempoolCreate HMP_DRAM_MEM_SIZE (some ⟨4096, by decide⟩) true
        (some ⟨1, 55, by decide⟩)).isSome = true := rfl
    obtain ⟨pool, hpool'⟩ := Option.isSome_iff_exists.mp hpool
    have hs := Halted.step_none hh hi (e := createPool 4096 55 (by decide) (by decide))
      ⟨⟨hpool, rfl⟩, rfl, trivial⟩ rfl
    simp [createPool, nodeStep, memInitStep, hm, hpool'] at hs
  | listen => simp [noFailure, mainStep, hm] at hnone
  | memset => simp [noFailure, mainStep, hm] at hnone
  | loop k =>
    by_cases hk : k < (s.node i).config.nodeCnt
    · simp [noFailure, mainStep, hm, hk, peerCreate, hmpTransportCreate] at hnone
    · simp [noFailure, mainStep, hm, hk] at hnone
  | peer k t stmt => simp [noFailure, mainStep, hm] at hnone
  | connect k t pc =>
    rw [hm] at hok
    cases pc with
    | entry =>
      have hport : ((s.node i).config.nodeInfos k).port ≠ 0 := hg.port k ▸ hp k hok.2.1
      simp [noFailure, mainStep, connectStep, hm, hport] at hnone
    | createId => simp [noFailure, mainStep, connectStep, connectCreateId, hm] at hnone
    | resolveAddr =>
      obtain ⟨-, -, -, -, -, -, d, hcm, -⟩ := hok
      simp [noFailure, mainStep, connectStep, connectResolve, hm, hcm] at hnone
    | setState => simp [noFailure, mainStep, connectStep, hm] at hnone
    | returned ret =>
      have hgo := hg.main
      rw [hm] at hgo
      exact hgo.elim
  | done => rfl
  | exited =>
    have hgo := hg.main
    rw [hm] at hgo
    exact hgo.elim

/-- Where `hmp_node_init` has finished, an event that does not fail is orderly. -/
theorem orderly_done {e : NodeEvent} (hm : s.main i = .done) (hnf : s.noFailure (i, e) = true)
    (hown : ownStep e = true) : Orderly cfg s (i, e) := by
  refine ⟨⟨hnf, ?_⟩, ?_, ?_⟩
  · cases e <;> simp [storesBeforeClear, hm]
  · cases e with
    | mr =>
      rw [connectsEarly, hm]
      split
      · rename_i h
        cases h
      · rfl
    | _ => rfl
  · cases e with
    | store => simp [ownStep] at hown
    | _ => trivial

/-- A device that `hmp_device_lookup` finds. -/
theorem exists_device (h : StartupInv cfg s) (hi : i < cfg.nodeCnt) :
    ∃ verbs, (hmpDeviceLookup (s.node i) verbs).isSome = true := by
  obtain ⟨d, ds, hd⟩ := List.exists_cons_of_ne_nil (h.ledger.1 i hi).devices
  exact ⟨d.verbs, by simp [hmpDeviceLookup, hd]⟩

section

variable (h : StartupInv cfg s) (hdone : ∀ i < cfg.nodeCnt, s.main i = .done)
  (hh : (sys cfg).Halted (OrderlyOwn cfg) s)

include hdone hh

theorem event_none {e : NodeEvent} (hi : i < cfg.nodeCnt) (hnf : s.noFailure (i, e) = true)
    (hown : ownStep e = true) : s.nodeStep cfg i e = none :=
  Halted.step_none hh hi (orderly_done (hdone i hi) hnf hown) hown

/-- The adapter has executed all requests. -/
theorem sq_empty {cm : CmId} (hi : i < cfg.nodeCnt) (hcm : ((s.node i).trans t).cmId = some cm) :
    ((s.node i).qp t).sq = [] := by
  cases hq : ((s.node i).qp t).sq with
  | nil => rfl
  | cons wr rest =>
    have hn := event_none hdone hh (e := .complete t .success true) hi rfl rfl
    simp only [nodeStep, completeStep, hcm, hq] at hn
    split_ifs at hn

include h

/-- Some handler of the event thread can go on as long as it has not returned. -/
theorem loop_idle (hi : i < cfg.nodeCnt) : s.loop i = .idle := by
  cases hl : s.loop i with
  | idle => rfl
  | storing c t =>
    have hs := event_none hdone hh (e := .register) hi rfl rfl
    simp [nodeStep, registerStep, hl] at hs
  | accepting c t =>
    have hs := event_none hdone hh (e := .accept {}) hi rfl rfl
    simp [nodeStep, acceptStep, hl, requestAccept] at hs
  | connecting t =>
    have hs := event_none hdone hh (e := .requestDone) hi rfl rfl
    simp [nodeStep, requestDoneStep, hl] at hs
  | mr t data stmt =>
    have hs := event_none hdone hh (e := .mr) hi rfl rfl
    simp [nodeStep, mrStep, hl] at hs
  | ended => exact absurd hl (h.ledger.1 i hi).loop

/-- An event of an end that rdma_cm delivers is handled. -/
theorem handled_none {e : CmEvent} {cm : CmId} (hi : i < cfg.nodeCnt)
    (hcm : ((s.node i).trans t).cmId = some cm) (hnf : s.noFailure (i, .cm t e) = true) :
    (s.conn cm.conn).handled cm.active e (hmpHandleEcEvent (s.node i) t e).2 = none := by
  have hs := event_none hdone hh (e := .cm t e) hi hnf rfl
  simpa [nodeStep, cmStep, loop_idle h hdone hh hi, hcm] using hs

/-- Every connection is established at both ends. -/
theorem conn_established (hc : c < s.nconn) :
    (s.conn c).phase = .accepted ∧ (s.conn c).srcEst = true ∧ (s.conn c).dstEst = true := by
  have hok := h.cluster.place.2 c hc
  have hcount := h.ledger.2 c hc
  have hsrc := hok.src
  have hacc : (s.conn c).phase = .accepted := by
    cases hph : (s.conn c).phase with
    | created =>
      obtain ⟨k, hk⟩ := hcount.created hph
      simp [hdone _ hsrc] at hk
    | addr =>
      obtain ⟨verbs, hv⟩ := exists_device h hsrc
      have hn := handled_none h hdone hh (e := .addrResolved verbs 0) hsrc hcount.srcId
        (by simp [noFailure, hv])
      simp [Conn.handled, hph] at hn
    | route =>
      have hn := handled_none h hdone hh (e := .routeResolved {}) hsrc hcount.srcId rfl
      simp [Conn.handled, hph] at hn
    | requested =>
      obtain ⟨j, hj⟩ := Option.ne_none_iff_exists'.mp (hok.target.resolve_left (by simp [hph]))
      obtain ⟨-, -, hpl⟩ := hok.active j hj
      obtain ⟨verbs, hv⟩ := exists_device h hpl.lt
      have hli := (h.ledger.1 j hpl.lt).listening (by simp [hdone j hpl.lt])
        (by simp [hdone j hpl.lt])
      have hn := event_none hdone hh (e := .request c { verbs := verbs }) hpl.lt
        (by simp [noFailure, hv]) rfl
      simp only [nodeStep, requestStep, hc, hph, hj, hli, loop_idle h hdone hh hpl.lt, and_self,
        if_true] at hn
      split at hn <;> simp at hn
    | answering =>
      obtain ⟨j, hj⟩ := Option.ne_none_iff_exists'.mp (hok.target.resolve_left (by simp [hph]))
      obtain ⟨u, hu⟩ := Option.ne_none_iff_exists'.mp (hcount.asked hph)
      obtain ⟨-, -, hpl⟩ := hok.active j hj
      have hr := (hcount.answering j u hj hu).mp hph
      rw [loop_idle h hdone hh hpl.lt] at hr
      exact hr.elim
    | accepted => rfl
    | dead => exact absurd hph (h.table.2 c hc).alive
  refine ⟨hacc, ?_, ?_⟩
  · have hn := handled_none h hdone hh (e := .established {} {}) hsrc hcount.srcId rfl
    simpa [Conn.handled, hacc] using hn
  · obtain ⟨u, j, hj, -, hu, hpl⟩ := hok.passive hacc
    have hjn : j < cfg.nodeCnt := (hok.active j hj).2.2.lt
    have hn := handled_none h hdone hh (e := .established {} {}) hjn hu rfl
    simpa [Conn.handled, hacc] using hn

/-- The adapter has sent everything, and the event thread has handled it. -/
theorem end_empty {cm : CmId} (hi : i < cfg.nodeCnt) (hcm : ((s.node i).trans t).cmId = some cm) :
    s.sendsOf i t = 0 ∧
      s.gotOf i t = if ((s.node i).trans t).transState = .connected then 1 else 0 := by
  have hl := loop_idle h hdone hh hi
  have hcq : ((s.node i).qp t).cq = [] := by
    cases hq : ((s.node i).qp t).cq with
    | nil => rfl
    | cons wc rest =>
      have hn := event_none hdone hh (e := .poll t) hi rfl rfl
      simp only [nodeStep, pollStep, hl, hq] at hn
      split_ifs at hn
  refine ⟨by rw [sendsOf, VerbsQp.sends, sq_empty hdone hh hi hcm]; rfl, ?_⟩
  rw [gotOf, Node.got, VerbsQp.arrived, hcq, hl]
  simp [LoopPc.handles]

/-- No message is on the way. -/
theorem wire_empty {active : Bool} (hi : i < cfg.nodeCnt)
    (hcm : ((s.node i).trans t).cmId = some ⟨c, active⟩)
    (hlive : ((s.node i).qp t).live = true)
    (hrq : ((s.node i).qp t).rq.length + s.gotOf i t = 2) : (s.conn c).out (!active) = [] := by
  have hgot : s.gotOf i t ≤ 1 := by
    rw [(end_empty h hdone hh hi hcm).2]
    split_ifs <;> omega
  obtain ⟨hc, -⟩ := (h.cluster.place.1 i hi).ends t _ hcm
  obtain ⟨wr, rest, hq⟩ := List.exists_cons_of_ne_nil
    (List.ne_nil_of_length_pos (show 0 < ((s.node i).qp t).rq.length by omega))
  have hroom : wr.sge.length = HMP_TASK_SIZE :=
    (h.ledger.1 i hi).room t wr (by rw [hq]; exact List.mem_cons_self)
  have hlen : ∀ bytes ∈ (s.conn c).out (!active), bytes.length ≤ wr.sge.length := by
    intro bytes hb
    have hinit : ∃ pool, bytes = initFrame pool := by
      cases active with
      | true =>
        obtain ⟨-, pool, -, -, hf⟩ := h.cluster.msg.toSrc c hc bytes hb
        exact ⟨pool, hf⟩
      | false =>
        obtain ⟨pool, -, hf⟩ := h.cluster.msg.toDst c hc bytes hb
        exact ⟨pool, hf⟩
    obtain ⟨pool, rfl⟩ := hinit
    rw [initFrame_length, hroom]
    decide
  have hn := event_none hdone hh (e := .deliver t) hi rfl rfl
  cases hw : (s.conn c).out (!active) with
  | nil => rfl
  | cons bytes more =>
    have hb := hlen bytes (by rw [hw]; exact List.mem_cons_self)
    obtain ⟨x, hx⟩ : ∃ x, (s.conn c).pop active = some (bytes, x) := by
      cases active with
      | true =>
        have hw : (s.conn c).toSrc = bytes :: more := hw
        exact ⟨{ s.conn c with toSrc := more }, by simp [Conn.pop, hw]⟩
      | false =>
        have hw : (s.conn c).toDst = bytes :: more := hw
        exact ⟨{ s.conn c with toDst := more }, by simp [Conn.pop, hw]⟩
    simp [nodeStep, deliverStep, hcm, hq, hx, hlive, hb] at hn

/-- The two ends of a connection are CONNECTED. -/
theorem ends_connected (hc : c < s.nconn) (hj : (s.conn c).dst = some j)
    (hu : (s.conn c).dstTrans = some u) :
    ((s.node (s.conn c).src).trans (s.conn c).srcTrans).transState = .connected ∧
      ((s.node j).trans u).transState = .connected := by
  have hok := h.cluster.place.2 c hc
  have hcount := h.ledger.2 c hc
  obtain ⟨hacc, hse, hde⟩ := conn_established h hdone hh hc
  have hjn : j < cfg.nodeCnt := (hok.active j hj).2.2.lt
  obtain ⟨hs₁, hg₁⟩ := end_empty h hdone hh hok.src hcount.srcId
  obtain ⟨hs₂, hg₂⟩ := end_empty h hdone hh hjn (hcount.dstId j u hj hu)
  obtain ⟨hl₁, hr₁⟩ := hcount.srcRq (.inr (.inr hacc))
  obtain ⟨hl₂, -, hr₂⟩ := hcount.dstRq j u hj hu
  have hw₁ : (s.conn c).toSrc = [] := wire_empty h hdone hh hok.src hcount.srcId hl₁ hr₁
  have hw₂ : (s.conn c).toDst = [] :=
    wire_empty h hdone hh hjn (hcount.dstId j u hj hu) hl₂ (hr₂ hacc)
  have h₁ := hcount.toDst
  have h₂ := hcount.toSrc
  rw [Conn.atDst_some hj hu, hw₂, hs₁, hg₂, hse] at h₁
  rw [Conn.atDst_some hj hu, hw₁, hs₂, hg₁, hde] at h₂
  simp only [List.length_nil, Bool.toNat_true] at h₁ h₂
  split_ifs at h₁ h₂ <;> first | omega | exact ⟨‹_›, ‹_›⟩

/-- The connection between two nodes, and what it has brought. -/
theorem joined_of_lt (hj : j < cfg.nodeCnt) (hij : i < j) : Joined s i j ∧ Joined s j i := by
  have hi : i < cfg.nodeCnt := hij.trans hj
  obtain ⟨c, hc, hsrc, hdst⟩ := (h.table.1 i hi).led j hj hij (by rw [hdone i hi]; trivial)
  obtain ⟨hacc, -, hde⟩ := conn_established h hdone hh hc
  obtain ⟨t, u, ht, hu, hcmt, hcmu, hft, hfu⟩ := h.table.ends h.cluster.place hc hsrc hdst hde
  obtain ⟨-, -, hst⟩ := end_active h.cluster.place hi hcmt
  obtain ⟨-, -, hdt⟩ := end_passive h.cluster.place h.table hj hcmu
  obtain ⟨hct, hcu⟩ := ends_connected h hdone hh hc hdst hdt
  rw [hsrc, hst] at hct
  obtain ⟨j', hpt, pool, hpool, hmr⟩ := h.cluster.mr.connected i hi t hct
  obtain ⟨i', hpu, pool', hpool', hmr'⟩ := h.cluster.mr.connected j hj u hcu
  obtain rfl : j = j' := Option.some.inj (hft.symm.trans hpt.far)
  obtain rfl : i = i' := Option.some.inj (hfu.symm.trans hpu.far)
  exact ⟨⟨t, u, pool, ht, hu, ⟨c, true, hcmt, hcmu, hft, hfu⟩, hct, hpool, hmr⟩,
    ⟨u, t, pool', hu, ht, ⟨c, false, hcmu, hcmt, hfu, hft⟩, hcu, hpool', hmr'⟩⟩

omit hdone in
theorem fullMesh_of_halted (hp : ∀ k < cfg.nodeCnt, (cfg.nodeInfos k).port ≠ 0) :
    FullMesh cfg s := by
  have hdone : ∀ i < cfg.nodeCnt, s.main i = .done := fun i hi => main_done h hp hh hi
  refine ⟨hdone, fun i hi j hj hij => ?_⟩
  rcases Nat.lt_or_gt_of_ne hij with hlt | hlt
  · exact (joined_of_lt h hdone hh hj hlt).1
  · exact (joined_of_lt h hdone hh hi hlt).2

end

/-- No orderly run of the startup gets stuck: whatever the threads, the adapters and the application
have done, and in whatever order, where no further step is left every two nodes are connected. -/
theorem startup_never_stuck (cfg : ClusterConfig) (s₀ s : Cluster) (h₀ : Start cfg s₀)
    (he : Equipped cfg s₀) (hr : (sys cfg).Run (Orderly cfg) s₀ s)
    (hh : (sys cfg).Halted (OrderlyOwn cfg) s) : FullMesh cfg s := by
  have hinv : StartupInv cfg s :=
    hr.keeps (fun _ _ _ h hok hst => h.step hok hst) (.start h₀ he)
  exact fullMesh_of_halted hinv hh he.ports

/-- Every orderly run of the startup ends, after 50 steps for each two nodes and four for each node,
and every two nodes are connected then. -/
theorem startup_completes (cfg : ClusterConfig) (f : ℕ → Cluster) (h₀ : Start cfg (f 0))
    (he : Equipped cfg (f 0)) (hf : (sys cfg).Follows (OrderlyOwn cfg) f) :
    ∃ n ≤ cfg.nodeCnt * (50 * cfg.nodeCnt + 4), FullMesh cfg (f n) ∧ ∀ m ≥ n, f m = f n := by
  obtain ⟨n, hn, hinv, hh, hrest⟩ := hf.halts (I := StartupInv cfg) (μ := toGo cfg)
    (fun s e s' h hok hst => h.step hok.1 hst)
    (fun s e s' h hok hst => toGo_move h (step_moves hst).1 hok (step_moves hst).2) (.start h₀ he)
  rw [toGo_start h₀] at hn
  exact ⟨n, hn, fullMesh_of_halted hinv hh he.ports, hrest⟩

theorem sample_equipped : Equipped sampleConfig sample :=
  ⟨fun _ _ => nofun, fun _ _ => show (18515 : ℤ) ≠ 0 by decide⟩

theorem sample_halts : ∃ s, (sys sampleConfig).Run (Orderly sampleConfig) sample s ∧
    (sys sampleConfig).Halted (OrderlyOwn sampleConfig) s := by
  obtain ⟨f, h0, hf⟩ := Sys.exists_follows (sys sampleConfig) (OrderlyOwn sampleConfig) sample
  obtain ⟨n, -, -, hh, -⟩ := hf.halts (I := StartupInv sampleConfig) (μ := toGo sampleConfig)
    (fun s e s' h hok hst => h.step hok.1 hst)
    (fun s e s' h hok hst => toGo_move h (step_moves hst).1 hok (step_moves hst).2)
    (h0 ▸ .start sample_start sample_equipped)
  have hr : (sys sampleConfig).Run (OrderlyOwn sampleConfig) sample (f n) := h0 ▸ hf.run n
  exact ⟨f n, hr.weaken fun _ _ h => h.1, hh⟩

theorem startup_never_stuck_sample : ∃ s, (sys sampleConfig).Run (Orderly sampleConfig) sample s ∧
    FullMesh sampleConfig s := by
  obtain ⟨s, hr, hh⟩ := sample_halts
  exact ⟨s, hr, startup_never_stuck sampleConfig sample s sample_start sample_equipped hr hh⟩

theorem startup_completes_sample : ∃ f : ℕ → Cluster, f 0 = sample ∧
    (sys sampleConfig).Follows (OrderlyOwn sampleConfig) f ∧ ∃ n ≤ 208,
    FullMesh sampleConfig (f n) ∧ ∀ m ≥ n, f m = f n := by
  obtain ⟨f, h0, hf⟩ := Sys.exists_follows (sys sampleConfig) (OrderlyOwn sampleConfig) sample
  exact ⟨f, h0, hf, startup_completes sampleConfig f (h0 ▸ sample_start) (h0 ▸ sample_equipped) hf⟩

end Cluster

end HMP
