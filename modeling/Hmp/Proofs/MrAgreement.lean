import Hmp.Proofs.InitMsgs

/-! A node believes of the pool of a peer what the INIT message of the peer says. -/

namespace HMP

/-- What the statements of `hmp_handle_mr_msg` before `stmt` have stored. -/
def MrStmt.stored (mr : HmpMrInfo) (pool : HmpMempool) : MrStmt → Prop
  | .addr => True
  | .length => mr.addr = pool.baseAddr
  | .rkey => mr.addr = pool.baseAddr ∧ mr.length = pool.mr.length
  | .state => mr = mrOf pool

namespace Cluster

variable {cfg : ClusterConfig} {s s' : Cluster} {i j k t u c : ℕ}

/-- Node `i` knows the pool of node `j`. -/
def Right (s : Cluster) (i j : ℕ) : Prop :=
  ∃ pool, (s.node j).dramMempool = some pool ∧
    ((s.node i).config.nodeInfos j).dramMr = mrOf pool

/-- Transport `t` leads to a node whose pool is known. -/
def Known (cfg : ClusterConfig) (s : Cluster) (i t : ℕ) : Prop :=
  ∃ j, Placed cfg s i t j ∧ Right s i j

/-- The message at `data` is the INIT message of the peer of `t`. -/
def Handling (cfg : ClusterConfig) (s : Cluster) (i t data : ℕ) (stmt : MrStmt) : Prop :=
  ∃ j, Placed cfg s i t j ∧ ∃ r < 3, data = (s.node i).slot j (r + 1) + HEADER_SIZE ∧
    FrameAt s i j (r + 1) ∧ ∃ pool, (s.node j).dramMempool = some pool ∧
      stmt.stored ((s.node i).config.nodeInfos j).dramMr pool

def PostedOk (cfg : ClusterConfig) (s : Cluster) (e : ℕ × ℕ × IbvSendWr) : Prop :=
  e.1 < cfg.nodeCnt ∧ ∃ j pool, Placed cfg s e.1 e.2.1 j ∧ (s.node j).dramMempool = some pool ∧
    e.2.2.rkey = pool.mr.rkey

structure MrInv (cfg : ClusterConfig) (s : Cluster) : Prop where
  connected : ∀ i < cfg.nodeCnt, ∀ t, ((s.node i).trans t).transState = .connected →
    Known cfg s i t
  handling : ∀ i < cfg.nodeCnt, ∀ t data stmt, s.loop i = .mr t data stmt →
    Handling cfg s i t data stmt
  checked : ∀ i < cfg.nodeCnt, ∀ t ∈ s.checked i, Known cfg s i t
  posted : ∀ e ∈ s.posted, PostedOk cfg s e

/-! ## The rules -/

theorem Known.carried (hc : Carried cfg s s' i) (hk : k < cfg.nodeCnt)
    (hr : ∀ j ≠ i, Right s i j → Right s' i j) (h : Known cfg s k t) : Known cfg s' k t := by
  obtain ⟨j, hp, hj⟩ := h
  refine ⟨j, hc.kept.placed k hk t j hp, ?_⟩
  by_cases hki : k = i
  · subst hki
    exact hr j hp.ne hj
  · obtain ⟨pool, hpool, hmr⟩ := hj
    exact ⟨pool, hc.kept.pool j pool hpool, by rw [hc.kept.node hki, hmr]⟩

theorem Handling.carried {data : ℕ} {stmt : MrStmt} (hc : Carried cfg s s' i) (hk : k < cfg.nodeCnt)
    (hm : k = i → ∀ j ≠ i, ((s'.node i).config.nodeInfos j).dramMr =
      ((s.node i).config.nodeInfos j).dramMr) (h : Handling cfg s k t data stmt) :
    Handling cfg s' k t data stmt := by
  obtain ⟨j, hp, r, hr, hd, hf, pool, hpool, hst⟩ := h
  refine ⟨j, hc.kept.placed k hk t j hp, r, hr, by rw [hc.kept.slot hp.pool, hd],
    hc.frameAt hp.lt (by omega) hf, pool, hc.kept.pool j pool hpool, ?_⟩
  by_cases hki : k = i
  · subst hki
    rw [hm rfl j hp.ne]
    exact hst
  · rw [hc.kept.node hki]
    exact hst

theorem PostedOk.carried {e : ℕ × ℕ × IbvSendWr} (hc : Carried cfg s s' i)
    (h : PostedOk cfg s e) : PostedOk cfg s' e := by
  obtain ⟨hi, j, pool, hp, hpool, hr⟩ := h
  exact ⟨hi, j, pool, hc.kept.placed _ hi _ j hp, hc.kept.pool j pool hpool, hr⟩

theorem MrInv.step (h : MrInv cfg s) (hc : Carried cfg s s' i)
    (hr : ∀ j ≠ i, Right s i j → Right s' i j)
    (hst : ∀ t, ((s'.node i).trans t).transState = .connected →
      ((s.node i).trans t).transState = .connected ∨ Known cfg s' i t)
    (hl : ∀ t data stmt, s'.loop i = .mr t data stmt → Handling cfg s' i t data stmt)
    (hch : ∀ k, k ≠ i → s'.checked k = s.checked k)
    (hchi : ∀ t ∈ s'.checked i, t ∈ s.checked i ∨ Known cfg s' i t)
    (hpo : ∀ e ∈ s'.posted, e ∈ s.posted ∨ PostedOk cfg s' e) : MrInv cfg s' := by
  refine ⟨fun k hk t ht => ?_, fun k hk t data stmt hlk => ?_, fun k hk t ht => ?_, fun e he => ?_⟩
  · by_cases hki : k = i
    · subst hki
      exact (hst t ht).elim (fun ht => (h.connected k hk t ht).carried hc hk hr) id
    · exact (h.connected k hk t (hc.kept.node hki ▸ ht)).carried hc hk hr
  · by_cases hki : k = i
    · subst hki
      exact hl t data stmt hlk
    · exact (h.handling k hk t data stmt (hc.kept.loop hki ▸ hlk)).carried hc hk
        (fun he => absurd he hki)
  · by_cases hki : k = i
    · subst hki
      exact (hchi t ht).elim (fun ht => (h.checked k hk t ht).carried hc hk hr) id
    · exact (h.checked k hk t (hch k hki ▸ ht)).carried hc hk hr
  · exact (hpo e he).elim (fun he => (h.posted e he).carried hc) id

/-- The steps that store nothing about the pool of a peer. -/
theorem MrInv.quiet (h : MrInv cfg s) (hi : i < cfg.nodeCnt) (hc : Carried cfg s s' i)
    (hm : ∀ j ≠ i, ((s'.node i).config.nodeInfos j).dramMr =
      ((s.node i).config.nodeInfos j).dramMr)
    (hst : ∀ t, ((s'.node i).trans t).transState = .connected →
      ((s.node i).trans t).transState = .connected)
    (hl : s'.loop i = s.loop i ∨ ∀ t data stmt, s'.loop i ≠ .mr t data stmt)
    (hch : s'.checked = s.checked) (hpo : s'.posted = s.posted) : MrInv cfg s' := by
  refine h.step hc (fun j hj hr => ?_) (fun t ht => .inl (hst t ht)) (fun t data stmt hlk => ?_)
    (fun k _ => by rw [hch]) (fun t ht => .inl (hch ▸ ht)) (fun e he => .inl (hpo ▸ he))
  · obtain ⟨pool, hpool, hmr⟩ := hr
    exact ⟨pool, hc.kept.pool j pool hpool, by rw [hm j hj, hmr]⟩
  · rcases hl with hl | hl
    · exact (h.handling i hi t data stmt (hl ▸ hlk)).carried hc hi fun _ => hm
    · exact absurd hlk (hl t data stmt)

/-! ## `hmp_handle_mr_msg` -/

/-- A statement stores what the message says, and what is known stays so. -/
theorem mr_exec {nd : Node} {pool : HmpMempool} {a : ℕ} {stmt : MrStmt} (hid : (nd.trans t).nodeId = j)
    (hread : nd.mem.read a INIT_SIZE = initFrame pool)
    (hst : stmt.stored (nd.config.nodeInfos j).dramMr pool) :
    let nd' := stmt.exec nd t (a + HEADER_SIZE)
    (∀ k ≠ j, nd'.config.nodeInfos k = nd.config.nodeInfos k) ∧
      ((nd.config.nodeInfos j).dramMr = mrOf pool → (nd'.config.nodeInfos j).dramMr = mrOf pool) ∧
      (∀ data' stmt', stmt.next t data' = .mr t data' stmt' →
        stmt'.stored (nd'.config.nodeInfos j).dramMr pool) ∧
      (stmt = .state → (nd'.config.nodeInfos j).dramMr = mrOf pool) := by
  obtain ⟨-, ha, hl, hr⟩ := initFrame_words hread
  subst hid
  cases stmt with
  | addr =>
    simp only [MrStmt.exec, mrMsgAddr, ha, MrStmt.next]
    refine ⟨fun k hk => by simp [hk], fun he => by simp [he, mrOf], fun data' stmt' hn => ?_, by simp⟩
    obtain rfl : MrStmt.length = stmt' := by simpa using hn
    simp [MrStmt.stored]
  | length =>
    simp only [MrStmt.exec, mrMsgLength, hl, MrStmt.next]
    refine ⟨fun k hk => by simp [hk], fun he => by simp [he, mrOf], fun data' stmt' hn => ?_, by simp⟩
    obtain rfl : MrStmt.rkey = stmt' := by simpa using hn
    simpa [MrStmt.stored] using hst
  | rkey =>
    simp only [MrStmt.exec, mrMsgRkey, hr, MrStmt.next]
    refine ⟨fun k hk => by simp [hk], fun he => by simp [he, mrOf], fun data' stmt' hn => ?_, by simp⟩
    obtain rfl : MrStmt.state = stmt' := by simpa using hn
    obtain ⟨h₁, h₂⟩ := hst
    simp [MrStmt.stored, mrOf, h₁, h₂]
  | state =>
    simp only [MrStmt.exec, mrMsgState, MrStmt.next]
    exact ⟨fun k _ => rfl, fun he => he, fun data' stmt' hn => by simp at hn, fun _ => hst⟩

theorem mrStmt_next {t' data data' : ℕ} {stmt stmt' : MrStmt}
    (h : stmt.next t data = .mr t' data' stmt') : t' = t ∧ data' = data := by
  cases stmt <;> simp [MrStmt.next] at h
  all_goals exact ⟨h.1.symm, h.2.1.symm⟩

/-- `trans_state` becomes CONNECTED with the last statement, and nowhere else. -/
theorem mrStmt_connected {nd : Node} {data : ℕ} {stmt : MrStmt}
    (h : ((stmt.exec nd t data).trans u).transState = .connected) :
    (nd.trans u).transState = .connected ∨ stmt = .state ∧ u = t := by
  cases stmt with
  | state =>
    by_cases hut : u = t
    · exact .inr ⟨rfl, hut⟩
    · left
      simpa [MrStmt.exec, mrMsgState, hut] using h
  | _ => exact .inl h

theorem mr_mr {data : ℕ} {stmt : MrStmt} (h : MrInv cfg s) (hi : i < cfg.nodeCnt)
    (hl : s.loop i = .mr t data stmt)
    (hs' : s' = (s.setNode i (stmt.exec (s.node i) t data)).setLoop i (stmt.next t data))
    (hc : Carried cfg s s' i) : MrInv cfg s' := by
  obtain ⟨j, hp, r, hr, hd, ⟨hne, pool, hpool, hread⟩, pool', hpool', hst⟩ :=
    h.handling i hi t data stmt hl
  rw [if_neg (Nat.succ_ne_zero r)] at hpool
  obtain rfl : pool = pool' := Option.some.inj (hpool.symm.trans hpool')
  obtain ⟨hother, hright, hnext, hlast⟩ := mr_exec hp.located.nodeId hread hst
  rw [← hd] at hother hright hnext hlast
  have hni : s'.node i = stmt.exec (s.node i) t data := by
    rw [hs']
    exact Function.update_self ..
  have hp' := hc.kept.placed i hi t j hp
  have hpool'' := hc.kept.pool j pool hpool
  refine h.step hc (fun k hk hrk => ?_) (fun u hu => ?_) (fun u d stmt' hlk => ?_)
    (fun k _ => by rw [hs']; rfl) (fun u hu => .inl (by rw [hs'] at hu; exact hu))
    (fun e he => .inl (by rw [hs'] at he; exact he))
  · obtain ⟨pk, hpk, hmr⟩ := hrk
    refine ⟨pk, hc.kept.pool k pk hpk, ?_⟩
    rw [hni]
    by_cases hkj : k = j
    · subst hkj
      obtain rfl : pk = pool := Option.some.inj (hpk.symm.trans hpool)
      exact hright hmr
    · rw [hother k hkj, hmr]
  · rw [hni] at hu
    rcases mrStmt_connected hu with hu | ⟨hstate, rfl⟩
    · exact .inl hu
    · refine .inr ⟨j, hp', pool, hpool'', ?_⟩
      rw [hni]
      exact hlast hstate
  · have hloop : stmt.next t data = .mr u d stmt' := by
      rw [hs'] at hlk
      exact (Function.update_self ..).symm.trans hlk
    obtain ⟨rfl, rfl⟩ := mrStmt_next hloop
    refine ⟨j, hp', r, hr, by rw [hc.kept.slot hp.pool, hd],
      hc.frameAt hp.lt (by omega) ⟨hne, pool, by simpa using hpool, hread⟩, pool, hpool'', ?_⟩
    rw [hni]
    exact hnext d stmt' hloop

/-- A completion that is taken for an INIT message brings one. -/
theorem mr_pollInit {wc : IbvWc} {rest : List IbvWc} {nd : Node} (h : MrInv cfg s)
    (hm : MsgInv cfg s) (hi : i < cfg.nodeCnt) (hq : ((s.node i).qp t).cq = wc :: rest)
    (hnd : nd = (s.node i).setQp t { (s.node i).qp t with cq := rest })
    (hs : wc.status = .success) (hinit : isInitMsg nd wc = true)
    (hs' : s' = (s.setNode i nd).setLoop i
      (.mr (nd.task wc.wrId).rdmaTrans ((nd.task wc.wrId).sge.addr + HEADER_SIZE) .addr))
    (hc : Carried cfg s s' i) : MrInv cfg s' := by
  have ho : wc.opcode = .recv := by
    simp only [isInitMsg, decide_eq_true_eq] at hinit
    exact hinit.1
  obtain ⟨hn, ht, j, hp, r, hr, ha, hf⟩ := hm.cq i hi t wc (by simp [hq]) hs ho
  obtain ⟨hne, pool, hpool, hread⟩ := id hf
  rw [if_neg (Nat.succ_ne_zero r)] at hpool
  have hhand : Handling cfg s i t (((s.node i).task wc.wrId).sge.addr + HEADER_SIZE) .addr :=
    ⟨j, hp, r, hr, by rw [ha], hf, pool, hpool, trivial⟩
  have hni : s'.node i = nd := by
    rw [hs']
    exact Function.update_self ..
  have hmr : ∀ k ≠ i, ((s'.node i).config.nodeInfos k).dramMr =
      ((s.node i).config.nodeInfos k).dramMr := by
    intro k _
    rw [hni, hnd]
    rfl
  refine h.step hc (fun k hk hrk => ?_) (fun u hu => .inl ?_) (fun u d stmt' hlk => ?_)
    (fun k _ => by rw [hs']; rfl) (fun u hu => .inl (by rw [hs'] at hu; exact hu))
    (fun e he => .inl (by rw [hs'] at he; exact he))
  · obtain ⟨pk, hpk, he⟩ := hrk
    exact ⟨pk, hc.kept.pool k pk hpk, by rw [hmr k hk, he]⟩
  · rw [hni, hnd] at hu
    exact hu
  · have hloop : LoopPc.mr t (((s.node i).task wc.wrId).sge.addr + HEADER_SIZE) .addr =
        .mr u d stmt' := by
      rw [hs', hnd] at hlk
      rw [← ht]
      exact (Function.update_self ..).symm.trans hlk
    simp only [LoopPc.mr.injEq] at hloop
    obtain ⟨rfl, rfl, rfl⟩ := hloop
    exact hhand.carried hc hi fun _ => hmr

theorem mr_check (h : MrInv cfg s) (hi : i < cfg.nodeCnt)
    (ht : ((s.node i).trans t).transState = .connected)
    (hs' : s' = { s with checked := Function.update s.checked i (t :: s.checked i) })
    (hc : Carried cfg s s' i) : MrInv cfg s' := by
  have hnode : s'.node = s.node := by rw [hs']
  have hright : ∀ k ≠ i, Right s i k → Right s' i k := by
    rintro k - ⟨pk, hpk, he⟩
    exact ⟨pk, hc.kept.pool k pk hpk, by rw [hnode, he]⟩
  refine h.step hc hright (fun u hu => .inl (hnode ▸ hu)) (fun u d stmt' hlk => ?_)
    (fun k hk => by simp [hs', hk]) (fun u hu => ?_) (fun e he => .inl (by rw [hs'] at he; exact he))
  · exact (h.handling i hi u d stmt' (by rw [hs'] at hlk; exact hlk)).carried hc hi
      fun _ k _ => by rw [hnode]
  · have hch : s'.checked i = t :: s.checked i := by
      rw [hs']
      exact Function.update_self ..
    rw [hch] at hu
    rcases List.mem_cons.mp hu with rfl | hu
    · exact .inr ((h.connected i hi u ht).carried hc hi hright)
    · exact .inl hu

/-- The request of a transfer takes the key from what is known of the peer. -/
theorem mr_post {op : TransferOp} {localAddr remoteAddr : ℕ} {length : ℤ} {o : PostOutcome}
    {nd : Node} (h : MrInv cfg s) (hi : i < cfg.nodeCnt) (ht : t ∈ s.checked i)
    (hnd : nd = (rdmaPostOf op (s.node i) t localAddr remoteAddr length o).1)
    (hs' : s' = { s.setNode i nd with
      checked := Function.update s.checked i ((s.checked i).erase t)
      posted := s.posted ++
        ((nd.qp t).sq.drop ((s.node i).qp t).sq.length).map fun wr => (i, t, wr) })
    (hc : Carried cfg s s' i) : MrInv cfg s' := by
  obtain ⟨hconf, -, -, htr, -⟩ := rdmaPostOf_frame _ _ _ _ _ _ _ hnd
  obtain ⟨-, -, wrs, hsq, -, hwrs⟩ := rdmaPostOf_queues hnd
  have hni : s'.node i = nd := by
    rw [hs']
    exact Function.update_self ..
  have hright : ∀ k ≠ i, Right s i k → Right s' i k := by
    rintro k - ⟨pk, hpk, he⟩
    exact ⟨pk, hc.kept.pool k pk hpk, by rw [hni, hconf, he]⟩
  refine h.step hc hright (fun u hu => .inl ?_) (fun u d stmt' hlk => ?_)
    (fun k hk => by simp [hs', hk]) (fun u hu => .inl ?_) (fun e he => ?_)
  · rw [hni, htr] at hu
    exact hu
  · exact (h.handling i hi u d stmt' (by rw [hs'] at hlk; exact hlk)).carried hc hi
      fun _ k _ => by rw [hni, hconf]
  · have hch : s'.checked i = (s.checked i).erase t := by
      rw [hs']
      exact Function.update_self ..
    exact List.mem_of_mem_erase (hch ▸ hu)
  · rw [hs', hsq, List.drop_left] at he
    rcases List.mem_append.mp he with he | he
    · exact .inl he
    · obtain ⟨wr, hwr, rfl⟩ := List.mem_map.mp he
      obtain ⟨j, hp, pool, hpool, hmr⟩ := h.checked i hi t ht
      refine .inr ⟨hi, j, pool, hc.kept.placed i hi t j hp, hc.kept.pool j pool hpool, ?_⟩
      rw [(hwrs wr hwr).2, hp.located.nodeId, hmr]
      rfl

/-! ## The other steps -/

/-- The config stays, and no transport becomes CONNECTED. -/
structure NoNews (nd nd' : Node) : Prop where
  config : nd'.config = nd.config
  state : ∀ t, (nd'.trans t).transState = .connected → (nd.trans t).transState = .connected

theorem NoNews.trans {nd nd₁ nd₂ : Node} (h₁ : NoNews nd nd₁) (h₂ : NoNews nd₁ nd₂) :
    NoNews nd nd₂ :=
  ⟨h₂.config.trans h₁.config, fun t ht => h₁.state t (h₂.state t ht)⟩

theorem NoNews.of_setTrans (nd : Node) {x : HmpTransport} (h : x.transState = .connected →
    (nd.trans t).transState = .connected) : NoNews nd (nd.setTrans t x) := by
  refine ⟨rfl, fun u hu => ?_⟩
  by_cases hut : u = t
  · subst hut
    exact h (by simpa using hu)
  · simpa [hut] using hu

theorem setState_noNews (nd : Node) {st : TransportState} (h : st ≠ .connected) :
    NoNews nd (nd.setState t st) :=
  .of_setTrans nd fun hc => absurd hc h

theorem hmpPrePostRecv_noNews (nd : Node) (t : ℕ) (o₁ o₂ : PostOutcome) :
    NoNews nd (hmpPrePostRecv nd t o₁ o₂) :=
  ⟨by simp [hmpPrePostRecv], fun u hu => by simpa [hmpPrePostRecv] using hu⟩

theorem hmpHandleEcEvent_noNews (nd : Node) (t : ℕ) {e : CmEvent} (h : e.type ≠ .connectRequest) :
    NoNews nd (hmpHandleEcEvent nd t e).1 := by
  cases e with
  | addrResolved verbs route =>
    rw [hmpHandleEcEvent, onCmAddrResolved_eq]
    exact .of_setTrans nd id
  | routeResolved o =>
    have hp : NoNews nd (hmpPrePostRecv (nd.setQp t { live := true, registered := true }) t
        o.recv₁ o.recv₂) := by
      obtain ⟨hc, hs⟩ := hmpPrePostRecv_noNews (nd.setQp t { live := true, registered := true }) t
        o.recv₁ o.recv₂
      exact ⟨hc, hs⟩
    rw [hmpHandleEcEvent]
    rcases onCmRouteResolved_cases nd t o with ⟨-, he⟩ | ⟨-, -, he⟩ | ⟨-, -, he⟩ <;> rw [he]
    · exact ⟨rfl, fun _ hu => hu⟩
    · refine hp.trans (.trans ?_ (setState_noNews _ (by decide)))
      unfold hmpQpRelease
      split_ifs <;> exact ⟨rfl, fun _ hu => hu⟩
    · exact hp
  | connectRequest cm peerAddr o => exact absurd rfl h
  | established peer o =>
    have ht : NoNews nd (nd.setTrans t { nd.trans t with peerAddr := peer }) := .of_setTrans nd id
    refine ht.trans ⟨?_, fun u hu => ?_⟩
    · simp [hmpHandleEcEvent, onCmEstablished]
    · simpa [hmpHandleEcEvent, onCmEstablished] using hu
  | disconnected => exact ⟨rfl, fun _ hu => hu⟩
  | other type =>
    obtain ⟨type, _⟩ := type
    cases type with
    | connectError =>
      have hs : NoNews nd { nd with stop := true } := ⟨rfl, fun _ hu => hu⟩
      exact hs.trans (setState_noNews _ (by decide))
    | _ => exact ⟨rfl, fun _ hu => hu⟩

theorem withRequest_noNews (nd : Node) (cm : CmId) (d : Option HmpDevice) :
    NoNews nd (withRequest nd cm d) := by
  refine ⟨rfl, fun u hu => ?_⟩
  by_cases hut : u = nd.nextTrans
  · subst hut
    simp [withRequest] at hu
  · simpa [withRequest, hut] using hu

theorem requestTransport_noNews {nd nd' : Node} {cm : CmId} {o : RequestOutcome}
    (h : requestTransport nd cm o = (nd', none)) : NoNews nd nd' := by
  rcases requestTransport_cases nd cm o with he | he | he <;> rw [he] at h <;>
    simp only [Prod.mk.injEq, and_true, reduceCtorEq, and_false] at h <;> subst h
  · exact ⟨rfl, fun _ hu => hu⟩
  · exact withRequest_noNews _ _ _

theorem requestRegister_noNews (nd : Node) (t : ℕ) (addr : String) :
    NoNews nd (requestRegister nd t addr) := by
  unfold requestRegister
  split
  · rename_i i _
    obtain ⟨hc, hs⟩ := NoNews.of_setTrans (t := t) nd
      (x := { nd.trans t with nodeId := i, region := slotRegion nd i }) id
    exact ⟨hc, hs⟩
  · exact ⟨rfl, fun _ hu => hu⟩

theorem peerStmt_noNews (nd : Node) (k t : ℕ) (stmt : PeerStmt) : NoNews nd (stmt.exec nd k t) := by
  cases stmt <;> exact .of_setTrans nd id

theorem MrInv.noNews {nd : Node} (h : MrInv cfg s) (hi : i < cfg.nodeCnt) (hc : Carried cfg s s' i)
    (hni : s'.node i = nd) (hn : NoNews (s.node i) nd)
    (hl : s'.loop i = s.loop i ∨ ∀ t data stmt, s'.loop i ≠ .mr t data stmt)
    (hch : s'.checked = s.checked) (hpo : s'.posted = s.posted) : MrInv cfg s' := by
  subst hni
  exact h.quiet hi hc (fun j _ => by rw [hn.config]) hn.state hl hch hpo

theorem setLoop_ne_mr {lp : LoopPc} (hl : s'.loop = Function.update s.loop i lp)
    (h : ∀ t data stmt, lp ≠ .mr t data stmt) : ∀ t data stmt, s'.loop i ≠ .mr t data stmt := by
  intro t data stmt
  rw [hl, Function.update_self]
  exact h t data stmt

/-- Every step keeps what is known of the pools. -/
theorem MrInv.move {e : NodeEvent} (h : MrInv cfg s) (hm' : MsgInv cfg s) (hp : PlaceInv cfg s)
    (hi : i < cfg.nodeCnt) (hm : Moves cfg s i e s') (hok : SlotsUntouched cfg s (i, e)) :
    MrInv cfg s' := by
  obtain ⟨-, hc⟩ := hm'.move hp hi hm hok
  have hself : ∀ nd, Function.update s.node i nd i = nd := fun nd => Function.update_self ..
  cases hm with
  | memInit hm hp' =>
    refine h.quiet hi hc (fun j hj => ?_) (fun t ht => ?_) (.inl rfl) rfl rfl
    · simp [hmpMemInit, (hp.1 i hi).curnodeId, hj]
    · simpa [hmpMemInit] using ht
  | memExit hm hp => exact h.noNews hi hc rfl ⟨rfl, fun _ ht => ht⟩ (.inl rfl) rfl rfl
  | listen hm =>
    refine h.noNews hi hc (hself _) ?_ (.inl rfl) rfl rfl
    unfold hmpTransportListen
    split_ifs <;> exact ⟨rfl, fun _ ht => ht⟩
  | clear hm => exact h.noNews hi hc (hself _) ⟨rfl, fun _ ht => ht⟩ (.inl rfl) rfl rfl
  | create hm hk hr =>
    refine h.noNews hi hc (hself _) ⟨rfl, fun t ht => ?_⟩ (.inl rfl) rfl rfl
    rw [peerCreate_eq] at ht
    by_cases htn : t = (s.node i).nextTrans
    · subst htn
      simp at ht
    · simpa [htn] using ht
  | createExit hm hk hr => exact h.noNews hi hc (hself _) ⟨rfl, fun _ ht => ht⟩ (.inl rfl) rfl rfl
  | done hm hk => exact h.noNews hi hc rfl ⟨rfl, fun _ ht => ht⟩ (.inl rfl) rfl rfl
  | peer hm => exact h.noNews hi hc (hself _) (peerStmt_noNews _ _ _ _) (.inl rfl) rfl rfl
  | entry hm =>
    refine h.noNews hi hc (hself _) ?_ (.inl rfl) rfl rfl
    simp only [connectEntry, hmpPortUriInit]
    split_ifs <;> first | exact ⟨rfl, fun _ ht => ht⟩ | exact .of_setTrans _ id
  | createIdFail hm hr => exact h.noNews hi hc (hself _) (.of_setTrans _ id) (.inl rfl) rfl rfl
  | createId hm hr => exact h.noNews hi hc (hself _) (.of_setTrans _ id) (.inl rfl) rfl rfl
  | resolveFail hm hr => exact h.noNews hi hc (hself _) (.of_setTrans _ id) (.inl rfl) rfl rfl
  | resolve hm hr hcm => exact h.noNews hi hc (hself _) ⟨rfl, fun _ ht => ht⟩ (.inl rfl) rfl rfl
  | setState hm =>
    exact h.noNews hi hc (hself _) (setState_noNews _ (by decide)) (.inl rfl) rfl rfl
  | cm hl hcm hx =>
    exact h.noNews hi hc (hself _) (hmpHandleEcEvent_noNews _ _ (handled_progress hx).2.2.1)
      (.inl rfl) rfl rfl
  | requestFail hcn hph hd hli hl hr =>
    exact h.noNews hi hc (hself _) (requestTransport_noNews hr) (.inl rfl) rfl rfl
  | request hcn hph hd hli hl =>
    obtain ⟨h₁, h₂⟩ := withRequest_noNews (s.node i) ⟨_, false⟩
      (hmpDeviceLookup (s.node i) _)
    exact h.noNews hi hc (hself _) ⟨h₁, h₂⟩ (.inr (setLoop_ne_mr rfl (by simp))) rfl rfl
  | register hl =>
    exact h.noNews hi hc (hself _) (requestRegister_noNews _ _ _)
      (.inr (setLoop_ne_mr rfl (by simp))) rfl rfl
  | acceptFail hl ha =>
    exact h.noNews hi hc (hself _) (hmpPrePostRecv_noNews _ _ _ _)
      (.inr (setLoop_ne_mr rfl (by simp))) rfl rfl
  | accept hl ha =>
    exact h.noNews hi hc (hself _) (hmpPrePostRecv_noNews _ _ _ _)
      (.inr (setLoop_ne_mr rfl (by simp))) rfl rfl
  | requestDone hl =>
    exact h.noNews hi hc (hself _) (setState_noNews _ (by decide))
      (.inr (setLoop_ne_mr rfl (by simp))) rfl rfl
  | pollInit hl hq hnd hs hinit => exact mr_pollInit h hm' hi hq hnd hs hinit rfl hc
  | poll hl hq hnd hinit =>
    refine h.noNews hi hc (hself _) ?_ (.inl rfl) rfl rfl
    subst hnd
    rcases dispatchWc_quiet hinit with he | he <;> rw [he] <;> exact ⟨rfl, fun _ ht => ht⟩
  | mr hl => exact mr_mr h hi hl rfl hc
  | loopExit hl hs =>
    exact h.noNews hi hc rfl ⟨rfl, fun _ ht => ht⟩ (.inr (setLoop_ne_mr rfl (by simp))) rfl rfl
  | complete hcm hq ho => exact h.noNews hi hc (hself _) ⟨rfl, fun _ ht => ht⟩ (.inl rfl) rfl rfl
  | send hcm hq ho hs => exact h.noNews hi hc (hself _) ⟨rfl, fun _ ht => ht⟩ (.inl rfl) rfl rfl
  | deliver hcm hq hx hlive hlen =>
    exact h.noNews hi hc (hself _) ⟨rfl, fun _ ht => ht⟩ (.inl rfl) rfl rfl
  | recvError hq hs => exact h.noNews hi hc (hself _) ⟨rfl, fun _ ht => ht⟩ (.inl rfl) rfl rfl
  | check hct => exact mr_check h hi hct rfl hc
  | post hct hnd => exact mr_post h hi hct hnd rfl hc
  | store => exact h.noNews hi hc (hself _) ⟨rfl, fun _ ht => ht⟩ (.inl rfl) rfl rfl

theorem MsgInv.start (h : Start cfg s) : MsgInv cfg s := by
  obtain ⟨hnode, -, hnc, -⟩ := h
  refine ⟨fun i hi t wr hw => ?_, fun i hi t wr hw => ?_, fun i hi t wc hw => ?_,
    fun c hc => by omega, fun c hc => by omega⟩
  all_goals
    obtain ⟨id, devs, mem, -, hn⟩ := hnode i hi
    simp [hn] at hw

theorem MrInv.start (h : Start cfg s) : MrInv cfg s := by
  obtain ⟨hnode, hpc, -, hpo⟩ := h
  refine ⟨fun i hi t ht => ?_, fun i hi t data stmt hl => ?_, fun i hi t ht => ?_,
    fun e he => by simp [hpo] at he⟩
  · obtain ⟨id, devs, mem, -, hn⟩ := hnode i hi
    simp [hn] at ht
  · simp [(hpc i hi).2.1] at hl
  · simp [(hpc i hi).2.2] at ht

/-- What holds of a cluster in every state. -/
structure ClusterInv (cfg : ClusterConfig) (s : Cluster) : Prop where
  place : PlaceInv cfg s
  msg : MsgInv cfg s
  mr : MrInv cfg s

theorem ClusterInv.reach (h : (sys cfg).Reach (SlotsUntouched cfg) s) : ClusterInv cfg s := by
  refine h.inv (fun s₀ h₀ => ⟨.start h₀, .start h₀, .start h₀⟩) ?_
  intro s e s' hinv hok hst
  obtain ⟨hi, hm⟩ := step_moves hst
  exact ⟨(hinv.place.move hi hm).inv, (hinv.msg.move hinv.place hi hm hok).1,
    hinv.mr.move hinv.msg hinv.place hi hm hok⟩

/-- Agreement on the memory regions: a CONNECTED transport leads to the node that it names, and
the region known of that node is the one that it has registered; so the requests of
one-sided transfers carry the key that the other end has registered. -/
theorem mr_agreement (cfg : ClusterConfig) (s : Cluster)
    (h : (sys cfg).Reach (SlotsUntouched cfg) s) :
    (∀ i < cfg.nodeCnt, ∀ t, ((s.node i).trans t).transState = .connected →
      ∃ j < cfg.nodeCnt, ∃ pool, s.otherEnd i t = some j ∧ ((s.node i).trans t).nodeId = j ∧
        (s.node j).dramMempool = some pool ∧ ((s.node i).config.nodeInfos j).dramMr =
          { addr := pool.baseAddr, length := pool.mr.length, rkey := pool.mr.rkey }) ∧
    ∀ i t wr, (i, t, wr) ∈ s.posted → ∃ j pool, s.otherEnd i t = some j ∧
      (s.node j).dramMempool = some pool ∧ wr.rkey = pool.mr.rkey := by
  have hinv := ClusterInv.reach h
  refine ⟨fun i hi t ht => ?_, fun i t wr hw => ?_⟩
  · obtain ⟨j, hp, pool, hpool, hmr⟩ := hinv.mr.connected i hi t ht
    exact ⟨j, hp.lt, pool, hp.far, hp.located.nodeId, hpool, hmr⟩
  · obtain ⟨-, j, pool, hp, hpool, hr⟩ := hinv.mr.posted _ hw
    exact ⟨j, pool, hp.far, hpool, hr⟩

/-- Node 0 is connected to node 1, and posts a write with the key of the pool there. -/
theorem mr_agreement_run : ∃ s, (sys sampleConfig).Reach (SlotsUntouched sampleConfig) s ∧
    ((s.node 0).trans 0).transState = .connected ∧ ((s.node 0).trans 0).nodeId = 1 ∧
    ∃ wr pool, (0, 0, wr) ∈ s.posted ∧ (s.node 1).dramMempool = some pool ∧
      wr.rkey = pool.mr.rkey := by
  obtain ⟨s, hr, hc, hp, ho⟩ := Sys.exists_run_of_replay (sys sampleConfig)
    (SlotsUntouched sampleConfig) sample (sampleStartup ++
      [(1, .complete 0 .success true), (0, .deliver 0), (0, .poll 0), (0, .mr), (0, .mr), (0, .mr),
        (0, .mr), (0, .check 0), (0, .post 0 .write 4096 8192 8 {})])
    (p := fun s => ((s.node 0).trans 0).transState = .connected ∧
      s.posted.map (fun e => (e.1, e.2.1)) = [(0, 0)] ∧ s.otherEnd 0 0 = some 1)
    (by decide +kernel)
  have hs : (sys sampleConfig).Reach (SlotsUntouched sampleConfig) s := ⟨sample, sample_start, hr⟩
  obtain ⟨hcon, hpost⟩ := mr_agreement sampleConfig s hs
  obtain ⟨j, -, -, hj, hn, -⟩ := hcon 0 (by decide) 0 hc
  obtain rfl : 1 = j := Option.some.inj (ho.symm.trans hj)
  obtain ⟨⟨i, t, wr⟩, hw⟩ := List.exists_mem_of_ne_nil s.posted fun hnil => by simp [hnil] at hp
  have hit : (i, t) ∈ s.posted.map (fun e => (e.1, e.2.1)) := List.mem_map.mpr ⟨_, hw, rfl⟩
  obtain ⟨rfl, rfl⟩ : i = 0 ∧ t = 0 := by simpa [hp] using hit
  obtain ⟨j, pool, hj, hpool, hk⟩ := hpost _ _ _ hw
  obtain rfl : 1 = j := Option.some.inj (ho.symm.trans hj)
  exact ⟨s, hs, hc, hn, wr, pool, hw, hpool, hk⟩

end Cluster

end HMP
