import Hmp.Sanity.Attempt
import Hmp.Sanity.Cluster

/-! A transport after its DISCONNECTED event. The handler destroys the queue pair and leaves
`trans_state` as it is, so the check before a transfer tells nothing about the queue pair. -/

namespace HMP

namespace Node

/-- Transport `t` is CONNECTED afterwards only if it was before. -/
structure Lowers (nd nd' : Node) (t : ℕ) : Prop where
  connected : (nd'.trans t).transState = .connected → (nd.trans t).transState = .connected

variable {nd nd₁ nd₂ : Node} {t : ℕ}

theorem Lowers.same (h : nd₁.trans = nd.trans) : nd.Lowers nd₁ t := ⟨fun hc => by rwa [h] at hc⟩

theorem Lowers.trans (h₁ : nd.Lowers nd₁ t) (h₂ : nd₁.Lowers nd₂ t) : nd.Lowers nd₂ t :=
  ⟨fun h => h₁.connected (h₂.connected h)⟩

theorem Lowers.of_setTrans {u : ℕ} {x : HmpTransport} (ht : nd₁.trans = Function.update nd.trans u x)
    (hx : x.transState = .connected → (nd.trans u).transState = .connected) :
    nd.Lowers nd₁ t := by
  refine ⟨fun h => ?_⟩
  rw [ht] at h
  by_cases htu : t = u
  · subst htu
    rw [Function.update_self] at h
    exact hx h
  · rwa [Function.update_of_ne htu] at h

end Node

open Node

theorem requestRegister_lowers (nd : Node) (u t : ℕ) (addr : String) :
    nd.Lowers (requestRegister nd u addr) t := by
  unfold requestRegister
  split
  · exact .of_setTrans rfl fun h => h
  · exact .same rfl

theorem hmpPrePostRecv_lowers (nd : Node) (u t : ℕ) (o₁ o₂ : PostOutcome) :
    nd.Lowers (hmpPrePostRecv nd u o₁ o₂) t := by
  refine ⟨fun h => ?_⟩
  simpa [hmpPrePostRecv] using h

theorem connectEntry_lowers (nd : Node) (u t : ℕ) (url : String) (port pton : ℤ) :
    nd.Lowers (connectEntry nd u url port pton).1 t := by
  unfold connectEntry hmpPortUriInit
  dsimp only
  split_ifs <;> first | exact .same rfl | exact .of_setTrans rfl fun h => h

theorem peerStmt_lowers (nd : Node) (k u t : ℕ) (stmt : PeerStmt) :
    nd.Lowers (stmt.exec nd k u) t := by
  cases stmt <;> exact .of_setTrans rfl fun h => h

theorem mrStmt_lowers (nd : Node) {u t : ℕ} (data : ℕ) (stmt : MrStmt) (h : u ≠ t) :
    nd.Lowers (stmt.exec nd u data) t := by
  cases stmt with
  | addr | length | rkey => exact .same rfl
  | state =>
    refine ⟨fun hc => ?_⟩
    rwa [MrStmt.exec, mrMsgState, setState_trans, Function.update_of_ne h.symm] at hc

/-- No handler of a CM event stores CONNECTED. -/
theorem hmpHandleEcEvent_lowers (nd : Node) (u t : ℕ) (e : CmEvent)
    (he : e.type ≠ .connectRequest) : nd.Lowers (hmpHandleEcEvent nd u e).1 t := by
  refine ⟨fun h => ?_⟩
  by_cases htu : t = u
  · subst htu
    rcases Attempt.handle_state { node := nd, t := t, url := "", port := 0 } he with hs | ⟨-, hs⟩
    · exact hs.symm.trans h
    · rw [hs] at h
      simp at h
  · rwa [(hmpHandleEcEvent_steady nd u e he).others t htu] at h

namespace Cluster

variable {cfg : ClusterConfig} {s s' : Cluster} {i j t : ℕ}

/-- Nothing leads to CONNECTED: not the state, no thread past the check, and no INIT message in
the hands of the event thread. -/
structure Down (s : Cluster) (i t : ℕ) : Prop where
  state : ((s.node i).trans t).transState ≠ .connected
  checked : t ∉ s.checked i
  loop : ∀ data stmt, s.loop i ≠ .mr t data stmt

theorem Down.unused (h : Down s i t) : Unused cfg s i t := by
  refine ⟨h.state, fun op localAddr remoteAddr length o => ?_⟩
  simp [step, nodeStep, postStep, h.checked]

theorem Down.keep {nd : Node} (h : Down s i t) (hn : s'.node i = nd)
    (hs : (s.node i).Lowers nd t) (hc : ∀ u ∈ s'.checked i, u ∈ s.checked i)
    (hl : ∀ data stmt, s'.loop i ≠ .mr t data stmt) : Down s' i t :=
  ⟨fun hst => h.state (hs.connected (hn ▸ hst)), fun ht => h.checked (hc t ht), hl⟩

/-- A step changes only what belongs to its node. -/
theorem Moves.other {e : NodeEvent} (h : Moves cfg s j e s') (hij : i ≠ j) :
    s'.node i = s.node i ∧ s'.loop i = s.loop i ∧ s'.checked i = s.checked i := by
  cases h <;> simp [hij]

theorem handled_type {x y : Conn} {active : Bool} {e : CmEvent} {ret : ℤ}
    (h : x.handled active e ret = some y) : e.type ≠ .connectRequest := by
  cases e with
  | other type =>
    exact type.ne rfl
  | connectRequest => simp [Conn.handled] at h
  | _ => simp [CmEvent.type]

/-- The step lemma: a transport that is down stays down. -/
theorem Moves.down {e : NodeEvent} (h : Moves cfg s i e s') (hd : Down s i t)
    (hok : NoInitOf i t s (i, e)) : Down s' i t := by
  cases h with
  | memInit hm hp =>
    exact hd.keep (Function.update_self ..) (.same rfl) (by simp) (by simpa using hd.loop)
  | memExit hm hp => exact hd.keep rfl (.same rfl) (by simp) hd.loop
  | listen hm =>
    refine hd.keep (Function.update_self ..) (.same ?_) (by simp) (by simpa using hd.loop)
    unfold hmpTransportListen
    split_ifs <;> rfl
  | clear hm =>
    exact hd.keep (Function.update_self ..) (.same rfl) (by simp) (by simpa using hd.loop)
  | create hm hk hr =>
    refine hd.keep (Function.update_self ..) ?_ (by simp) (by simpa using hd.loop)
    rw [peerCreate_eq]
    exact .of_setTrans rfl (by simp)
  | createExit hm hk hr =>
    exact hd.keep (Function.update_self ..) (.same rfl) (by simp) (by simpa using hd.loop)
  | done hm hk => exact hd.keep rfl (.same rfl) (by simp) hd.loop
  | peer hm =>
    exact hd.keep (Function.update_self ..) (peerStmt_lowers ..) (by simp) (by simpa using hd.loop)
  | entry hm =>
    exact hd.keep (Function.update_self ..) (connectEntry_lowers ..) (by simp)
      (by simpa using hd.loop)
  | createIdFail hm hr | createId hm hr | resolveFail hm hr =>
    refine hd.keep (Function.update_self ..) ?_ (by simp) (by simpa using hd.loop)
    exact .of_setTrans (setTrans_trans ..) fun h => h
  | resolve hm hr hcm =>
    exact hd.keep (Function.update_self ..) (.same rfl) (by simp) (by simpa using hd.loop)
  | setState hm =>
    refine hd.keep (Function.update_self ..) ?_ (by simp) (by simpa using hd.loop)
    exact .of_setTrans (setState_trans ..) (by simp)
  | cm hl hcm hx =>
    exact hd.keep (Function.update_self ..) (hmpHandleEcEvent_lowers _ _ _ _ (handled_type hx))
      (by simp) (by simpa using hd.loop)
  | @requestFail c o nd hc hph hdst hli hl hr =>
    refine hd.keep (Function.update_self ..) ?_ (by simp) (by simpa using hd.loop)
    obtain rfl : (requestTransport (s.node i) ⟨c, false⟩ o).1 = nd := by rw [hr]
    rcases requestTransport_cases (s.node i) ⟨c, false⟩ o with h | h | h <;> rw [h]
    · exact .same rfl
    · exact .of_setTrans rfl (by simp)
    · exact .of_setTrans rfl (by simp)
  | request hc hph hdst hli hl =>
    exact hd.keep (Function.update_self ..) (.of_setTrans rfl (by simp)) (by simp) (by simp)
  | register hl =>
    exact hd.keep (Function.update_self ..) (requestRegister_lowers ..) (by simp) (by simp)
  | acceptFail hl ha | accept hl ha =>
    exact hd.keep (Function.update_self ..) (hmpPrePostRecv_lowers ..) (by simp) (by simp)
  | requestDone hl =>
    refine hd.keep (Function.update_self ..) ?_ (by simp) (by simp)
    exact .of_setTrans (setState_trans ..) (by simp)
  | @pollInit u wc rest nd hl hq hnd hs hi =>
    subst hnd
    refine hd.keep (Function.update_self ..) (.same rfl) (by simp) fun data stmt => ?_
    have ht : ((s.node i).task wc.wrId).rdmaTrans ≠ t := hok rfl wc (by simp [hq]) hs hi
    simp [ht]
  | @poll u wc rest nd hl hq hnd hi =>
    have hs : (s.node i).Lowers nd t := .same (by rw [hnd]; rfl)
    refine hd.keep (Function.update_self ..) (hs.trans (.same ?_)) (by simp)
      (by simpa using hd.loop)
    rcases dispatchWc_quiet hi with he | he <;> rw [he]
    rfl
  | @mr u data stmt hl =>
    have hu : u ≠ t := fun hu => hd.loop data stmt (hu ▸ hl)
    refine hd.keep (Function.update_self ..) (mrStmt_lowers _ data stmt hu) (by simp)
      fun data' stmt' => ?_
    cases stmt <;> simp [MrStmt.next, hu]
  | loopExit hl hs => exact hd.keep rfl (.same rfl) (by simp) (by simp)
  | complete hcm hq ho | send hcm hq ho hs | deliver hcm hq hx hlive hlen | recvError hq hs
  | store =>
    exact hd.keep (Function.update_self ..) (.same rfl) (by simp) (by simpa using hd.loop)
  | @check u hc =>
    have hu : t ≠ u := fun hu => hd.state (hu ▸ hc)
    exact ⟨hd.state, by simpa [hu] using hd.checked, hd.loop⟩
  | post hc hnd =>
    obtain ⟨-, -, -, ht, -⟩ := rdmaPostOf_frame _ _ _ _ _ _ _ hnd
    refine hd.keep (Function.update_self ..) (.same ht) ?_ (by simpa using hd.loop)
    simpa using fun u => List.mem_of_mem_erase

theorem down_step {e : ℕ × NodeEvent} (hs : (sys cfg).step s e = some s') (hd : Down s i t)
    (hok : NoInitOf i t s e) : Down s' i t := by
  obtain ⟨j, e⟩ := e
  have hm := (step_moves hs).2
  by_cases hij : i = j
  · subst hij
    exact hm.down hd hok
  · obtain ⟨hn, hl, hc⟩ := hm.other hij
    exact ⟨by rw [hn]; exact hd.state, by rw [hc]; exact hd.checked, by rw [hl]; exact hd.loop⟩

/-- The handler of DISCONNECTED changes neither the state nor the threads past the check. -/
theorem disconnected_step {s₁ : Cluster}
    (h : (sys cfg).step s (i, .cm t .disconnected) = some s₁) :
    i < cfg.nodeCnt ∧ s.loop i = .idle ∧ s₁.loop i = .idle ∧ s₁.checked i = s.checked i ∧
      ((s₁.node i).trans t).transState = ((s.node i).trans t).transState := by
  obtain ⟨hi, hm⟩ := step_moves h
  generalize hs : s₁ = s' at hm
  cases hm with
  | cm hl hcm hx =>
    subst hs
    exact ⟨hi, hl, by simpa using hl, by simp, by simp [hmpHandleEcEvent, onCmDisconnected]⟩

/-- After its DISCONNECTED event a transport stays unused, as long as no INIT message of it is
handled, exactly when the event found it in another state than CONNECTED and no call between
the check and the post. -/
theorem disconnected_unused_iff (cfg : ClusterConfig) (s s₁ : Cluster) (i t : ℕ)
    (h : (sys cfg).step s (i, .cm t .disconnected) = some s₁) :
    (∀ s', (sys cfg).Run (NoInitOf i t) s₁ s' → Unused cfg s' i t) ↔
      ((s.node i).trans t).transState ≠ .connected ∧ t ∉ s.checked i := by
  obtain ⟨hi, -, hl, hc, hst⟩ := disconnected_step h
  constructor
  · intro hall
    obtain ⟨hne, hpost⟩ := hall s₁ .nil
    refine ⟨hst ▸ hne, fun ht => ?_⟩
    have hp := hpost .read 0 0 0 {}
    simp [step, nodeStep, postStep, hi, hc, ht] at hp
  · rintro ⟨hne, ht⟩ s' hr
    have hd : Down s₁ i t := ⟨hst ▸ hne, hc ▸ ht, by simp [hl]⟩
    exact (hr.keeps (I := fun x => Down x i t) (fun _ _ _ hd hok hs => down_step hs hd hok) hd).unused

/-- The connection ends before the INIT message of node 1 has reached node 0. -/
theorem disconnected_unused_iff_early : ∃ s s₁, (sys sampleConfig).Reach Sys.Always s ∧
    (sys sampleConfig).step s (0, .cm 0 .disconnected) = some s₁ ∧
    ∀ s', (sys sampleConfig).Run (NoInitOf 0 0) s₁ s' → Unused sampleConfig s' 0 0 := by
  obtain ⟨s, hr, hstate, hchecked, hstep⟩ := Sys.exists_run_of_replay (sys sampleConfig) Sys.Always
    sample sampleStartup
    (p := fun s => ((s.node 0).trans 0).transState ≠ .connected ∧ 0 ∉ s.checked 0 ∧
      ((sys sampleConfig).step s (0, .cm 0 .disconnected)).isSome) (by decide)
  obtain ⟨s₁, hs₁⟩ := Option.isSome_iff_exists.mp hstep
  exact ⟨s, s₁, ⟨sample, sample_start, hr⟩, hs₁,
    (disconnected_unused_iff sampleConfig s s₁ 0 0 hs₁).mpr ⟨hstate, hchecked⟩⟩

/-- The connection ends after the INIT messages, and node 0 goes on as if it stood. -/
theorem disconnected_stays_connected : ¬ ∀ cfg s s₁ s' i t, (sys cfg).Reach Sys.Always s →
    (sys cfg).step s (i, .cm t .disconnected) = some s₁ → (sys cfg).Run Sys.Always s₁ s' →
    Unused cfg s' i t := by
  intro h
  obtain ⟨s, hr, hstate, hstep⟩ := Sys.exists_run_of_replay (sys sampleConfig) Sys.Always sample
    (sampleStartup ++ sampleExchange)
    (p := fun s => ((s.node 0).trans 0).transState = .connected ∧
      ((sys sampleConfig).step s (0, .cm 0 .disconnected)).isSome) (by decide +kernel)
  obtain ⟨s₁, hs₁⟩ := Option.isSome_iff_exists.mp hstep
  obtain ⟨-, -, -, -, hkeep⟩ := disconnected_step hs₁
  exact (h sampleConfig s s₁ s₁ 0 0 ⟨sample, sample_start, hr⟩ hs₁ .nil).1 (hkeep.trans hstate)

end Cluster

end HMP
