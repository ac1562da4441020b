import Hmp.Proofs.PlacementSteps

/-! In a cluster whose nodes clear their tables before a request is stored there, no
entry of a transport table changes once it is set, and the entries of two nodes
for each other are the two ends of one connection. -/

namespace HMP

namespace MainPc

/-- `hmp_node_init` has not come to entry `p` of the table. -/
def empty : MainPc → ℕ → Prop
  | .memInit, _ | .listen, _ | .memset, _ => True
  | .loop k, p => k ≤ p
  | .peer k _ _, p | .connect k _ _, p => k < p
  | .done, _ | .exited, _ => False

/-- The entry that the loop has filled last, while it sets its transport up. -/
def entry : MainPc → Option (ℕ × ℕ)
  | .peer k t _ | .connect k t _ => some (k, t)
  | _ => none

/-- The loop has resolved the address of node `p`. -/
def led : MainPc → ℕ → Prop
  | .loop k, p | .peer k _ _, p => p < k
  | .connect k _ pc, p => p < k ∨ p = k ∧ pc = .setState
  | .done, _ => True
  | .memInit, _ | .listen, _ | .memset, _ | .exited, _ => False

end MainPc

namespace Cluster

variable {cfg : ClusterConfig} {s s' : Cluster} {i j k t u c : ℕ}

/-- A connection of node `i` leads to node `p`. -/
def Leads (s : Cluster) (i p : ℕ) : Prop :=
  ∃ c < s.nconn, (s.conn c).src = i ∧ (s.conn c).dst = some p

structure NodeTable (cfg : ClusterConfig) (s : Cluster) (i : ℕ) : Prop where
  early : s.main i = .memInit ∨ s.main i = .listen →
    (s.node i).listenState ≠ .listen ∧ ∀ c t, s.loop i ≠ .storing c t
  empty : ∀ p, (s.main i).empty p → (s.node i).connectTrans p = none
  entry : ∀ k t, (s.main i).entry = some (k, t) → (s.node i).connectTrans k = some t
  led : ∀ p < cfg.nodeCnt, i < p → (s.main i).led p → Leads s i p
  passive : ∀ p < i, ∀ t, (s.node i).connectTrans p = some t →
    ∃ c < s.nconn, (s.conn c).src = p ∧ (s.conn c).dst = some i ∧ (s.conn c).dstTrans = some t
  accepting : ∀ c t, s.loop i = .accepting c t →
    (s.node i).connectTrans (s.conn c).src = some t

structure ConnTable (s : Cluster) (c : ℕ) : Prop where
  alive : (s.conn c).phase ≠ .dead
  active : ∀ j, (s.conn c).dst = some j →
    (s.node (s.conn c).src).connectTrans j = some (s.conn c).srcTrans
  accepted : (s.conn c).phase = .accepted → ∀ j, (s.conn c).dst = some j →
    (s.node j).connectTrans (s.conn c).src = (s.conn c).dstTrans
  est : (s.conn c).dstEst = true → (s.conn c).phase = .accepted

def TableInv (cfg : ClusterConfig) (s : Cluster) : Prop :=
  (∀ i < cfg.nodeCnt, NodeTable cfg s i) ∧ ∀ c < s.nconn, ConnTable s c

/-- No entry of a table changes once it is set. -/
def Grows (s s' : Cluster) : Prop :=
  ∀ k p t, (s.node k).connectTrans p = some t → (s'.node k).connectTrans p = some t

/-! ## The rules for a step -/

theorem Leads.mono (hs : Local s s' i c) {k p : ℕ} (h : Leads s k p) : Leads s' k p := by
  obtain ⟨d, hd, hsrc, hdst⟩ := h
  have he := hs.evolve hd
  exact ⟨d, hd.trans_le hs.nconn, he.src.trans hsrc, he.dst _ hdst⟩

/-- The entries of the passive ends keep their connections. -/
theorem passive_mono (hs : Local s s' i c) {k p : ℕ}
    (h : ∃ d < s.nconn, (s.conn d).src = p ∧ (s.conn d).dst = some k ∧
      (s.conn d).dstTrans = some t) :
    ∃ d < s'.nconn, (s'.conn d).src = p ∧ (s'.conn d).dst = some k ∧
      (s'.conn d).dstTrans = some t := by
  obtain ⟨d, hd, hsrc, hdst, hdt⟩ := h
  have he := hs.evolve hd
  exact ⟨d, hd.trans_le hs.nconn, he.src.trans hsrc, he.dst _ hdst, he.dstTrans _ hdt⟩

theorem NodeTable.elsewhere (h : NodeTable cfg s k) (hp : PlaceInv cfg s) (hs : Local s s' i c)
    (hk : k < cfg.nodeCnt) (hki : k ≠ i) : NodeTable cfg s' k := by
  have hn := hs.node k hki
  have hm := hs.main k hki
  have hl := hs.loop k hki
  refine ⟨?_, ?_, ?_, ?_, ?_, ?_⟩
  · rw [hn, hm, hl]
    exact h.early
  · rw [hn, hm]
    exact h.empty
  · rw [hn, hm]
    exact h.entry
  · intro p hpn hkp hled
    rw [hm] at hled
    exact (h.led p hpn hkp hled).mono hs
  · intro p hpk t ht
    rw [hn] at ht
    exact passive_mono hs (h.passive p hpk t ht)
  · intro d t hd
    rw [hl] at hd
    rw [hn, (hs.evolve (accepting_conn hp hk hd).1).src]
    exact h.accepting d t hd

theorem ConnTable.elsewhere {d : ℕ} (h : ConnTable s d) (ho : ConnOk cfg s d)
    (he : s'.conn d = s.conn d) (hg : Grows s s') : ConnTable s' d := by
  refine ⟨?_, ?_, ?_, ?_⟩
  · rw [he]
    exact h.alive
  · intro j hj
    rw [he] at hj ⊢
    exact hg _ _ _ (h.active j hj)
  · intro hph j hj
    rw [he] at hph hj ⊢
    obtain ⟨t, -, -, ht, -⟩ := ho.passive hph
    have ha := h.accepted hph j hj
    rw [ht] at ha ⊢
    exact hg _ _ _ ha
  · rw [he]
    exact h.est

/-- The rule for a step of node `i`: what is left to show is about node `i` and connection `c`. -/
theorem TableInv.step (h : TableInv cfg s) (hp : PlaceInv cfg s) (hs : Local s s' i c)
    (hg : ∀ p t, (s.node i).connectTrans p = some t → (s'.node i).connectTrans p = some t)
    (hn : NodeTable cfg s' i) (hc : c < s'.nconn → Grows s s' → ConnTable s' c) :
    TableInv cfg s' ∧ Grows s s' := by
  have hgr : Grows s s' := by
    intro k p t ht
    by_cases hki : k = i
    · subst hki
      exact hg p t ht
    · rw [hs.node k hki, ht]
  refine ⟨⟨fun k hk => ?_, fun d hd => ?_⟩, hgr⟩
  · by_cases hki : k = i
    · exact hki ▸ hn
    · exact (h.1 k hk).elsewhere hp hs hk hki
  · by_cases hdc : d = c
    · exact hdc ▸ hc (hdc ▸ hd) hgr
    · have hd' := (hs.new d hd).resolve_right hdc
      exact (h.2 d hd').elsewhere (hp.2 d hd') (hs.conn d hdc) hgr

/-- A node whose table stays as it is. -/
theorem NodeTable.same {nd : Node} {m : MainPc} {l : LoopPc} (h : NodeTable cfg s i)
    (hp : PlaceInv cfg s) (hi : i < cfg.nodeCnt) (hs : Local s s' i c) (hnd : s'.node i = nd)
    (hmp : s'.main i = m) (hlp : s'.loop i = l)
    (ht : nd.connectTrans = (s.node i).connectTrans)
    (hearly : m = .memInit ∨ m = .listen →
      nd.listenState ≠ .listen ∧ ∀ c t, l ≠ .storing c t)
    (hempty : ∀ p, m.empty p → (s.main i).empty p)
    (hentry : ∀ e, m.entry = some e → (s.main i).entry = some e)
    (hled : ∀ p < cfg.nodeCnt, i < p → m.led p → (s.main i).led p ∨ Leads s' i p)
    (hacc : ∀ d t, l = .accepting d t → s.loop i = l) : NodeTable cfg s' i := by
  subst hnd hmp hlp
  refine ⟨hearly, ?_, ?_, ?_, ?_, ?_⟩
  · intro p he
    rw [ht]
    exact h.empty p (hempty p he)
  · intro k t he
    rw [ht]
    exact h.entry k t (hentry _ he)
  · intro p hpn hip hl
    rcases hled p hpn hip hl with hl | hl
    · exact (h.led p hpn hip hl).mono hs
    · exact hl
  · intro p hpi t he
    rw [ht] at he
    exact passive_mono hs (h.passive p hpi t he)
  · intro d t hd
    have hl := (hacc d t hd).trans hd
    rw [ht, (hs.evolve (accepting_conn hp hi hl).1).src]
    exact h.accepting d t hl

/-- What connection `c` has to meet when it goes on to be `x`. -/
structure GoesOn (s : Cluster) (c : ℕ) (x : Conn) : Prop where
  alive : x.phase ≠ .dead
  accepted : x.phase = .accepted → (s.conn c).phase = .accepted ∨
    ∀ j, (s.conn c).dst = some j → ∃ t, (s.conn c).dstTrans = some t ∧
      (s.node j).connectTrans (s.conn c).src = some t
  est : x.dstEst = true → x.phase = .accepted

theorem GoesOn.same {x : Conn} (h : ConnTable s c) (hph : x.phase = (s.conn c).phase)
    (he : x.dstEst = (s.conn c).dstEst) : GoesOn s c x := by
  refine ⟨hph ▸ h.alive, fun hacc => .inl (hph ▸ hacc), fun hest => ?_⟩
  rw [hph]
  exact h.est (he ▸ hest)

theorem push_dstEst (x : Conn) (active : Bool) (bytes : List UInt8) :
    (x.push active bytes).dstEst = x.dstEst := by
  unfold Conn.push
  split_ifs <;> rfl

theorem pop_dstEst {x y : Conn} {active : Bool} {bytes : List UInt8}
    (h : x.pop active = some (bytes, y)) : y.dstEst = x.dstEst := by
  unfold Conn.pop at h
  split at h
  all_goals simp only [Option.some.injEq, Prod.mk.injEq, reduceCtorEq] at h
  all_goals rw [← h.2]

theorem ConnTable.progress (h : ConnTable s c) (ho : ConnOk cfg s c)
    (hx : Progress (s.conn c) (s'.conn c)) (hg : Grows s s') (hgo : GoesOn s c (s'.conn c)) :
    ConnTable s' c := by
  refine ⟨hgo.alive, ?_, ?_, hgo.est⟩
  · intro j hj
    rw [hx.dst] at hj
    rw [hx.src, hx.srcTrans]
    exact hg _ _ _ (h.active j hj)
  · intro hph j hj
    rw [hx.dst] at hj
    rw [hx.src, hx.dstTrans]
    rcases hgo.accepted hph with hph | hst
    · obtain ⟨t, -, -, ht, -⟩ := ho.passive hph
      have hst := h.accepted hph j hj
      rw [ht] at hst ⊢
      exact hg _ _ _ hst
    · obtain ⟨t, ht, hst⟩ := hst j hj
      rw [ht]
      exact hg _ _ _ hst

/-- A step of the event thread, of the adapter or of the application that leaves the table. -/
theorem TableInv.quiet {nd : Node} {l : LoopPc} {x : Conn} (h : TableInv cfg s)
    (hp : PlaceInv cfg s) (hi : i < cfg.nodeCnt) (hnode : s'.node = Function.update s.node i nd)
    (hmain : s'.main = s.main) (hloop : s'.loop = Function.update s.loop i l)
    (hconn : s'.conn = Function.update s.conn c x) (hnconn : s'.nconn = s.nconn)
    (hst : (s.node i).SameTable nd)
    (hl : l = s.loop i ∨ ∀ d t, l ≠ .storing d t ∧ l ≠ .accepting d t)
    (hx : Progress (s.conn c) x) (hgo : c < s.nconn → GoesOn s c x) :
    TableInv cfg s' ∧ Grows s s' := by
  have hs : Local s s' i c := .of_eq hnode (m := s.main i) (by simp [hmain]) hloop hconn hnconn
    (fun _ => hx.evolves) (fun _ hcr => .inl (hx.created hcr))
  have hni : s'.node i = nd := by rw [hnode, Function.update_self]
  have hli : s'.loop i = l := by rw [hloop, Function.update_self]
  have hci : s'.conn c = x := by rw [hconn, Function.update_self]
  have ht := h.1 i hi
  refine h.step hp hs (fun p t hpt => by rw [hni, hst.connectTrans, hpt]) ?_ (fun hc hg => ?_)
  · refine ht.same hp hi hs hni (m := s.main i) (by rw [hmain]) hli hst.connectTrans ?_
      (fun _ => id) (fun _ => id) (fun _ _ _ => .inl) (fun d t hd => ?_)
    · intro hm
      obtain ⟨hlis, hno⟩ := ht.early hm
      refine ⟨by rw [hst.listenState]; exact hlis, fun d t => ?_⟩
      rcases hl with rfl | hl
      · exact hno d t
      · exact (hl d t).1
    · rcases hl with rfl | hl
      · rfl
      · exact absurd hd (hl d t).2
  · rw [hnconn] at hc
    exact (h.2 c hc).progress (hp.2 c hc) (hci ▸ hx) hg (hci ▸ hgo hc)

/-- Such a step that leaves the connections too. -/
theorem TableInv.still {n : Node} {l : LoopPc} (h : TableInv cfg s) (hp : PlaceInv cfg s)
    (hi : i < cfg.nodeCnt) (hnode : s'.node = Function.update s.node i n)
    (hmain : s'.main = s.main) (hloop : s'.loop = Function.update s.loop i l)
    (hconn : s'.conn = s.conn) (hnconn : s'.nconn = s.nconn) (hst : (s.node i).SameTable n)
    (hl : l = s.loop i ∨ ∀ d t, l ≠ .storing d t ∧ l ≠ .accepting d t) :
    TableInv cfg s' ∧ Grows s s' :=
  h.quiet (c := s.nconn) hp hi hnode hmain hloop (x := s.conn s.nconn) (by simp [hconn]) hnconn hst
    hl (.refl _) (fun hc => absurd hc (lt_irrefl _))

/-- A step of the main thread that leaves the table; it may change one connection of its node. -/
theorem TableInv.main_step {nd : Node} {m : MainPc} (h : TableInv cfg s) (hp : PlaceInv cfg s)
    (hi : i < cfg.nodeCnt) (hs : Local s s' i c) (hni : s'.node i = nd) (hmi : s'.main i = m)
    (hli : s'.loop i = s.loop i) (ht : nd.connectTrans = (s.node i).connectTrans)
    (hearly : m = .listen → s.main i = .memInit ∧ nd.listenState = (s.node i).listenState)
    (hmp : m ≠ .memInit) (hempty : ∀ p, m.empty p → (s.main i).empty p)
    (hentry : ∀ e, m.entry = some e → (s.main i).entry = some e)
    (hled : ∀ p < cfg.nodeCnt, i < p → m.led p → (s.main i).led p ∨ Leads s' i p)
    (hc : c < s'.nconn → Grows s s' → ConnTable s' c) : TableInv cfg s' ∧ Grows s s' := by
  refine h.step hp hs (fun p t hpt => by rw [hni, ht, hpt]) ?_ hc
  refine (h.1 i hi).same hp hi hs hni hmi hli ht (fun hm => ?_) hempty hentry hled (fun _ _ _ => rfl)
  obtain ⟨hm, hl⟩ := hearly (hm.resolve_left hmp)
  rw [hl]
  exact (h.1 i hi).early (.inl hm)

/-! ## The main thread -/

theorem table_memInit (h : TableInv cfg s) (hp : PlaceInv cfg s) (hi : i < cfg.nodeCnt)
    (hm : s.main i = .memInit) (pool : HmpMempool) :
    TableInv cfg ((s.setNode i (hmpMemInit (s.node i) pool)).setMain i .listen) ∧
      Grows s ((s.setNode i (hmpMemInit (s.node i) pool)).setMain i .listen) := by
  refine h.main_step hp hi (.of_node rfl rfl (l := s.loop i) (by simp) rfl rfl)
    (Function.update_self ..) (Function.update_self ..) rfl rfl (fun _ => ⟨hm, rfl⟩) (by simp)
    (fun p _ => ?_) (by simp [MainPc.entry]) (by simp [MainPc.led])
    (fun hc => absurd hc (lt_irrefl _))
  rw [hm]
  trivial

theorem table_listen {ret : ℤ} (h : TableInv cfg s) (hp : PlaceInv cfg s) (hi : i < cfg.nodeCnt)
    (hm : s.main i = .listen) :
    TableInv cfg ((s.setNode i (hmpTransportListen (s.node i) ret).1).setMain i .memset) ∧
      Grows s ((s.setNode i (hmpTransportListen (s.node i) ret).1).setMain i .memset) := by
  refine h.main_step hp hi (.of_node rfl rfl (l := s.loop i) (by simp) rfl rfl)
    (Function.update_self ..) (Function.update_self ..) rfl ?_ (by simp) (by simp)
    (fun p _ => ?_) (by simp [MainPc.entry]) (by simp [MainPc.led])
    (fun hc => absurd hc (lt_irrefl _))
  · unfold hmpTransportListen
    split_ifs <;> rfl
  · rw [hm]
    trivial

/-- The table is still empty when it is cleared. -/
theorem table_clear (h : TableInv cfg s) (hp : PlaceInv cfg s) (hi : i < cfg.nodeCnt)
    (hm : s.main i = .memset) :
    TableInv cfg ((s.setNode i (clearTable (s.node i))).setMain i
        (.loop ((s.node i).config.curnodeId + 1))) ∧
      Grows s ((s.setNode i (clearTable (s.node i))).setMain i
        (.loop ((s.node i).config.curnodeId + 1))) := by
  have hnone : ∀ p, (s.node i).connectTrans p = none := by
    intro p
    refine (h.1 i hi).empty p ?_
    rw [hm]
    trivial
  refine h.main_step hp hi (.of_node rfl rfl (l := s.loop i) (by simp) rfl rfl)
    (Function.update_self ..) (Function.update_self ..) rfl ?_ (by simp) (by simp)
    (fun p _ => ?_) (by simp [MainPc.entry]) (fun p _ hip hl => ?_)
    (fun hc => absurd hc (lt_irrefl _))
  · funext p
    simp [clearTable, hnone]
  · rw [hm]
    trivial
  · rw [(hp.1 i hi).curnodeId, MainPc.led] at hl
    omega

theorem table_create (h : TableInv cfg s) (hp : PlaceInv cfg s) (hi : i < cfg.nodeCnt)
    (hm : s.main i = .loop k) :
    TableInv cfg ((s.setNode i (peerCreate (s.node i) k true).1).setMain i
        (.peer k (s.node i).nextTrans .nodeId)) ∧
      Grows s ((s.setNode i (peerCreate (s.node i) k true).1).setMain i
        (.peer k (s.node i).nextTrans .nodeId)) := by
  have ht := h.1 i hi
  obtain ⟨hik, -⟩ : MainOk cfg s i (.loop k) := hm ▸ (hp.1 i hi).main
  have hnone : (s.node i).connectTrans k = none := ht.empty k (by simp [hm, MainPc.empty])
  rw [peerCreate_eq]
  set nd : Node := { s.node i with
    trans := Function.update (s.node i).trans (s.node i).nextTrans {}
    nextTrans := (s.node i).nextTrans + 1
    connectTrans := Function.update (s.node i).connectTrans k (some (s.node i).nextTrans) } with hnd
  set s' := (s.setNode i nd).setMain i (.peer k (s.node i).nextTrans .nodeId) with hs'
  have hni : s'.node i = nd := by simp [hs']
  have hmi : s'.main i = .peer k (s.node i).nextTrans .nodeId := by simp [hs']
  have hs : Local s s' i s.nconn := .of_node rfl rfl (l := s.loop i) (by simp [hs']) rfl rfl
  have hold : ∀ p ≠ k, (s'.node i).connectTrans p = (s.node i).connectTrans p := by
    intro p hpk
    rw [hni]
    simp [hnd, hpk]
  have hgrow : ∀ p u, (s.node i).connectTrans p = some u → (s'.node i).connectTrans p = some u := by
    intro p u hpu
    rw [hold p (by rintro rfl; simp [hnone] at hpu), hpu]
  refine h.step hp hs hgrow ⟨?_, ?_, ?_, ?_, ?_, ?_⟩ (fun hc => absurd hc (lt_irrefl _))
  · simp [hmi]
  · intro p he
    rw [hmi, MainPc.empty] at he
    rw [hold p (by omega)]
    exact ht.empty p (by rw [hm, MainPc.empty]; omega)
  · intro j u he
    obtain ⟨rfl, rfl⟩ : k = j ∧ (s.node i).nextTrans = u := by simpa [hmi, MainPc.entry] using he
    rw [hni]
    simp [hnd]
  · intro p hpn hip hl
    rw [hmi, MainPc.led] at hl
    exact (ht.led p hpn hip (by rw [hm, MainPc.led]; exact hl)).mono hs
  · intro p hpi u hu
    rw [hold p (by omega)] at hu
    exact ht.passive p hpi u hu
  · intro d u hd
    exact hgrow _ _ (ht.accepting d u hd)

theorem table_createId (h : TableInv cfg s) (hp : PlaceInv cfg s) (hi : i < cfg.nodeCnt)
    (hm : s.main i = .connect k t .createId) {nd : Node} (hst : nd.connectTrans =
      (s.node i).connectTrans) :
    TableInv cfg (((s.setNode i nd).setMain i (.connect k t .resolveAddr)).addConn
        { src := i, srcTrans := t }) ∧
      Grows s (((s.setNode i nd).setMain i (.connect k t .resolveAddr)).addConn
        { src := i, srcTrans := t }) := by
  refine h.main_step hp hi (.of_new rfl rfl rfl rfl rfl) (Function.update_self ..)
    (Function.update_self ..) rfl hst (by simp) (by simp) (fun p he => ?_) (fun e he => ?_)
    (fun p _ _ hl => ?_) (fun _ _ => ?_)
  · rw [hm]
    exact he
  · rw [hm]
    exact he
  · refine .inl ?_
    rw [hm]
    simpa [MainPc.led] using hl
  · refine ⟨?_, ?_, ?_, ?_⟩ <;> simp

theorem table_resolve {cm : CmId} (h : TableInv cfg s) (hp : PlaceInv cfg s)
    (hi : i < cfg.nodeCnt) (hm : s.main i = .connect k t .resolveAddr)
    (hcm : ((s.node i).trans t).cmId = some cm) :
    TableInv cfg (((s.setNode i (s.node i)).setMain i (.connect k t .setState)).setConn cm.conn
        { s.conn cm.conn with
          phase := .addr, dst := cfg.nodeAt ((s.node i).trans t).peerAddr.addr }) ∧
      Grows s (((s.setNode i (s.node i)).setMain i (.connect k t .setState)).setConn cm.conn
        { s.conn cm.conn with
          phase := .addr, dst := cfg.nodeAt ((s.node i).trans t).peerAddr.addr }) := by
  have hn := hp.1 i hi
  obtain ⟨c, hcm', hc, hsrc, hst, hph, hd⟩ := resolve_dst hp hi hm
  obtain rfl : ⟨c, true⟩ = cm := Option.some.inj (hcm'.symm.trans hcm)
  obtain ⟨hik, hkn, -, -, -, ha, -⟩ : MainOk cfg s i (.connect k t .resolveAddr) := hm ▸ hn.main
  rw [ha, nodeAt_addr cfg hkn]
  set x : Conn := { s.conn c with phase := .addr, dst := some k } with hx
  set s' := ((s.setNode i (s.node i)).setMain i (.connect k t .setState)).setConn c x with hs'
  have hni : s'.node i = s.node i := by simp [hs']
  have hci : s'.conn c = x := by simp [hs']
  have hs : Local s s' i c := by
    refine .of_eq (n := s.node i) (by simp [hs']) rfl (l := s.loop i) (by simp [hs']) rfl rfl
      (fun _ => ⟨rfl, rfl, fun j hj => by simp [hd] at hj, fun u hu => hu,
        fun hdead => by simp [hph] at hdead⟩) (fun _ _ => .inr hsrc)
  refine h.main_step hp hi hs hni (m := .connect k t .setState) (by simp [hs']) rfl rfl (by simp)
    (by simp) (fun p he => ?_) (fun e he => ?_) (fun p _ _ hl => ?_) (fun _ hg => ?_)
  · rw [hm]
    exact he
  · rw [hm]
    exact he
  · -- the connection to node `k` is on its way now
    rcases hl with hl | ⟨rfl, -⟩
    · refine .inl ?_
      rw [hm]
      exact .inl hl
    · exact .inr ⟨c, hc, by rw [hci]; exact hsrc, by rw [hci]⟩
  · refine ⟨by simp [hci, hx], fun j hj => ?_, by simp [hci, hx], fun he => ?_⟩
    · obtain rfl : k = j := by simpa [hci, hx] using hj
      rw [hci, show x.src = i from hsrc, show x.srcTrans = t from hst]
      exact hg _ _ _ ((h.1 i hi).entry k t (by simp [hm, MainPc.entry]))
    · have hacc := (h.2 c hc).est (by rw [hci] at he; exact he)
      simp [hph] at hacc

/-- A step that goes from one statement of the loop to the next. -/
theorem table_next {nd : Node} {m : MainPc} (h : TableInv cfg s) (hp : PlaceInv cfg s)
    (hi : i < cfg.nodeCnt) (ht : nd.connectTrans = (s.node i).connectTrans)
    (hmp : m ≠ .memInit ∧ m ≠ .listen) (hempty : ∀ p, m.empty p → (s.main i).empty p)
    (hentry : ∀ e, m.entry = some e → (s.main i).entry = some e)
    (hled : ∀ p < cfg.nodeCnt, i < p → m.led p → (s.main i).led p) :
    TableInv cfg ((s.setNode i nd).setMain i m) ∧ Grows s ((s.setNode i nd).setMain i m) :=
  h.main_step hp hi (.of_node rfl rfl (l := s.loop i) (by simp) rfl rfl)
    (Function.update_self ..) (Function.update_self ..) rfl ht (fun hm => absurd hm hmp.2) hmp.1
    hempty hentry (fun p hpn hip hl => .inl (hled p hpn hip hl)) (fun hc => absurd hc (lt_irrefl _))

theorem peerStmt_connectTrans (nd : Node) (k t : ℕ) (stmt : PeerStmt) :
    (stmt.exec nd k t).connectTrans = nd.connectTrans := by
  cases stmt <;> rfl

theorem connectEntry_connectTrans (nd : Node) (t : ℕ) (url : String) (port pton : ℤ) :
    (connectEntry nd t url port pton).1.connectTrans = nd.connectTrans := by
  simp only [connectEntry, hmpPortUriInit]
  split_ifs <;> rfl

/-! ## The event thread -/

/-- Without a failure every event moves its connection on. -/
theorem handled_goesOn {e : CmEvent} {cm : CmId} {x : Conn} (h : ConnTable s cm.conn)
    (hok : s.noFailure (i, .cm t e) = true)
    (hx : (s.conn cm.conn).handled cm.active e (hmpHandleEcEvent (s.node i) t e).2 = some x) :
    GoesOn s cm.conn x := by
  cases e with
  | addrResolved verbs route =>
    simp only [noFailure, Bool.decide_and, Bool.decide_eq_true, Bool.and_eq_true,
      decide_eq_true_eq] at hok
    have hr : (hmpHandleEcEvent (s.node i) t (.addrResolved verbs route)).2 = 0 := by
      rw [hmpHandleEcEvent, onCmAddrResolved_eq]
      simp [Option.isNone_eq_false_iff.mpr hok.1, hok.2]
    simp only [Conn.handled, hr, if_true, Option.ite_none_right_eq_some, Option.some.injEq] at hx
    obtain ⟨⟨-, hph⟩, rfl⟩ := hx
    exact ⟨by simp, by simp, fun he => by simp [h.est he] at hph⟩
  | routeResolved o =>
    simp only [noFailure, Bool.decide_and, Bool.decide_eq_true, Bool.and_eq_true,
      decide_eq_true_eq] at hok
    have hr : (hmpHandleEcEvent (s.node i) t (.routeResolved o)).2 = 0 := by
      rcases onCmRouteResolved_cases (s.node i) t o with ⟨hq, -⟩ | ⟨-, hc, -⟩ | ⟨-, -, he⟩
      · exact absurd hok.1 hq
      · exact absurd hok.2.2.2 hc
      · rw [hmpHandleEcEvent, he]
    simp only [Conn.handled, hr, if_true, Option.ite_none_right_eq_some, Option.some.injEq] at hx
    obtain ⟨⟨-, hph⟩, rfl⟩ := hx
    exact ⟨by simp, by simp, fun he => by simp [h.est he] at hph⟩
  | connectRequest cm peerAddr o => simp [Conn.handled] at hx
  | established peer o =>
    have hph : (s.conn cm.conn).phase = .accepted ∧ x.phase = (s.conn cm.conn).phase := by
      simp only [Conn.handled] at hx
      split_ifs at hx with hp
      all_goals
        simp only [Option.some.injEq] at hx
        subst hx
        exact ⟨not_not.mp hp, rfl⟩
    exact ⟨by simp [hph.2, hph.1], fun _ => .inl hph.1, fun _ => hph.2.trans hph.1⟩
  | disconnected => simp [noFailure] at hok
  | other type => simp [noFailure] at hok

/-- Without a failure the request gets its transport. -/
theorem noFailure_request {o : RequestOutcome} {nd : Node} {cm : CmId}
    (hok : s.noFailure (i, .request c o) = true) :
    requestTransport (s.node i) cm o ≠ (nd, none) := by
  simp only [noFailure, Bool.decide_and, Bool.decide_eq_true, Bool.and_eq_true,
    decide_eq_true_eq] at hok
  obtain ⟨hc, hd, hq⟩ := hok
  obtain ⟨d, hd⟩ := Option.isSome_iff_exists.mp hd
  have hl : hmpDeviceLookup { (s.node i).setTrans (s.node i).nextTrans {} with
      nextTrans := (s.node i).nextTrans + 1 } o.verbs = some d := hd
  simp only [requestTransport, hmpTransportCreate, hc, if_true, hl, hmpQpCreate, hq]
  simp

/-- Two connections do not join the same nodes. -/
theorem conn_unique {d p : ℕ} (h : TableInv cfg s) (hp : PlaceInv cfg s) (hc : c < s.nconn)
    (hd : d < s.nconn) (hsrc : (s.conn c).src = (s.conn d).src) (hcp : (s.conn c).dst = some p)
    (hdp : (s.conn d).dst = some p) : c = d := by
  have hct := (h.2 c hc).active p hcp
  have hdt := (h.2 d hd).active p hdp
  rw [hsrc, hdt, Option.some.injEq] at hct
  obtain ⟨-, hcc, -⟩ := (hp.2 c hc).active p hcp
  obtain ⟨-, hcd, -⟩ := (hp.2 d hd).active p hdp
  rw [hsrc, ← hct, hcd] at hcc
  simpa using hcc.symm

theorem table_request {o : RequestOutcome} (h : TableInv cfg s) (hp : PlaceInv cfg s)
    (hi : i < cfg.nodeCnt) (hph : (s.conn c).phase = .requested)
    (hli : (s.node i).listenState = .listen) (hc : c < s.nconn) :
    TableInv cfg (((s.setNode i ((withRequest (s.node i) ⟨c, false⟩
      (hmpDeviceLookup (s.node i) o.verbs)).setQp (s.node i).nextTrans
        { live := true, registered := true })).setConn c
      { s.conn c with phase := .answering, dstTrans := some (s.node i).nextTrans }).setLoop i
        (.storing c (s.node i).nextTrans)) ∧
    Grows s (((s.setNode i ((withRequest (s.node i) ⟨c, false⟩
      (hmpDeviceLookup (s.node i) o.verbs)).setQp (s.node i).nextTrans
        { live := true, registered := true })).setConn c
      { s.conn c with phase := .answering, dstTrans := some (s.node i).nextTrans }).setLoop i
        (.storing c (s.node i).nextTrans)) := by
  set nd := (withRequest (s.node i) ⟨c, false⟩ (hmpDeviceLookup (s.node i) o.verbs)).setQp
    (s.node i).nextTrans { live := true, registered := true } with hnd
  set x : Conn := { s.conn c with
    phase := .answering, dstTrans := some (s.node i).nextTrans } with hx
  set s' := ((s.setNode i nd).setConn c x).setLoop i (.storing c (s.node i).nextTrans) with hs'
  have hni : s'.node i = nd := by simp [hs']
  have hci : s'.conn c = x := by simp [hs']
  have hli' : s'.loop i = .storing c (s.node i).nextTrans := by simp [hs']
  have hs : Local s s' i c :=
    .of_eq (n := nd) rfl (m := s.main i) (by simp [hs']) rfl rfl rfl
      (fun hc => request_evolves hp hc hph _) (fun _ hcr => by simp [hph] at hcr)
  have ht := h.1 i hi
  have htc := h.2 c hc
  refine h.step hp hs (fun p t hpt => by rw [hni]; exact hpt) ?_ (fun _ hg => ?_)
  · refine ht.same hp hi hs hni (m := s.main i) rfl hli' rfl (fun hm => ?_) (fun _ => id)
      (fun _ => id) (fun _ _ _ => .inl) (by simp)
    exact absurd hli (ht.early hm).1
  · refine ⟨by simp [hci, hx], fun j hj => ?_, by simp [hci, hx], fun he => ?_⟩
    · rw [hci] at hj ⊢
      exact hg _ _ _ (htc.active j hj)
    · have hacc := htc.est (by rw [hci] at he; exact he)
      simp [hph] at hacc

/-- A request is stored only where the loop of `hmp_node_init` has been or does not come. -/
theorem not_empty_of_storing (h : TableInv cfg s) (hp : PlaceInv cfg s) (hi : i < cfg.nodeCnt)
    (hl : s.loop i = .storing c t) (hm : s.main i ≠ .memset) {q : ℕ} (hlt : q < i) :
    ¬ (s.main i).empty q := by
  intro hq
  have ht := h.1 i hi
  have hmain := (hp.1 i hi).main
  cases hpc : s.main i with
  | memInit => exact (ht.early (.inl hpc)).2 c t hl
  | listen => exact (ht.early (.inr hpc)).2 c t hl
  | memset => exact hm hpc
  | loop k | peer k u stmt | connect k u pc =>
    rw [hpc] at hq hmain
    have := hmain.1
    simp only [MainPc.empty] at hq
    omega
  | done | exited =>
    rw [hpc] at hq
    exact hq

/-- The search stores the transport into an empty entry. -/
theorem table_register (h : TableInv cfg s) (hp : PlaceInv cfg s) (hi : i < cfg.nodeCnt)
    (hl : s.loop i = .storing c t) (hok : s.storesBeforeClear (i, .register) = false) :
    TableInv cfg ((s.setNode i (requestRegister (s.node i) t
        (cfg.nodeInfos (s.conn c).src).addr)).setLoop i (.accepting c t)) ∧
      Grows s ((s.setNode i (requestRegister (s.node i) t
        (cfg.nodeInfos (s.conn c).src).addr)).setLoop i (.accepting c t)) := by
  obtain ⟨hc, hd, hlt, he⟩ := requestRegister_src hp hi hl
  obtain ⟨hcm, hpool⟩ : LoopOk cfg s i (.storing c t) := hl ▸ (hp.1 i hi).loop
  obtain ⟨-, -, hdt⟩ := (hp.1 i hi).ends t _ hcm
  have hdt : (s.conn c).dstTrans = some t := hdt.resolve_left (h.2 c hc).alive
  have ht := h.1 i hi
  have hm : s.main i ≠ .memset := by simpa [storesBeforeClear] using hok
  rw [he]
  set p := (s.conn c).src with hp'
  set nd : Node := { (s.node i).setTrans t { (s.node i).trans t with
      nodeId := p, region := slotRegion (s.node i) p } with
    connectTrans := Function.update (s.node i).connectTrans p (some t) } with hnd
  set s' := (s.setNode i nd).setLoop i (.accepting c t) with hs'
  have hni : s'.node i = nd := by simp [hs']
  have hmi : s'.main i = s.main i := rfl
  have hli : s'.loop i = .accepting c t := by simp [hs']
  have hs : Local s s' i s.nconn := .of_node rfl (m := s.main i) (by simp [hs']) rfl rfl rfl
  have hself : (s'.node i).connectTrans p = some t := by
    rw [hni]
    simp [hnd]
  have hold : ∀ q ≠ p, (s'.node i).connectTrans q = (s.node i).connectTrans q := by
    intro q hq
    rw [hni]
    simp [hnd, hq]
  have hgrow : ∀ q u, (s.node i).connectTrans q = some u → (s'.node i).connectTrans q = some u := by
    intro q u hqu
    by_cases hqp : q = p
    · -- the entry can only come from the same connection
      subst hqp
      obtain ⟨d, hdn, hsrc, hdst, hdu⟩ := ht.passive p hlt u hqu
      obtain rfl := conn_unique h hp hdn hc hsrc hdst hd
      rw [hself, ← hdt, hdu]
    · rw [hold q hqp, hqu]
  refine h.step hp hs hgrow ⟨?_, ?_, ?_, ?_, ?_, ?_⟩ (fun hc => absurd hc (lt_irrefl _))
  · intro hm'
    exact absurd hl ((ht.early hm').2 c t)
  · intro q hq
    have hqp : q ≠ p := by
      rintro rfl
      exact not_empty_of_storing h hp hi hl hm hlt hq
    rw [hold q hqp]
    exact ht.empty q hq
  · intro k u he'
    exact hgrow _ _ (ht.entry k u he')
  · intro q hqn hiq hled
    exact (ht.led q hqn hiq hled).mono hs
  · intro q hqi u hqu
    by_cases hqp : q = p
    · subst hqp
      obtain rfl : t = u := Option.some.inj (hself.symm.trans hqu)
      exact ⟨c, hc, rfl, hd, hdt⟩
    · rw [hold q hqp] at hqu
      exact passive_mono hs (ht.passive q hqi u hqu)
  · intro d u hdu
    rw [hli] at hdu
    obtain ⟨rfl, rfl⟩ : c = d ∧ t = u := by simpa using hdu
    exact hself

theorem table_accept {o : RequestOutcome} (h : TableInv cfg s) (hp : PlaceInv cfg s)
    (hi : i < cfg.nodeCnt) (hl : s.loop i = .accepting c t) :
    TableInv cfg (((s.setNode i (hmpPrePostRecv (s.node i) t o.recv₁ o.recv₂)).setConn c
        { s.conn c with
          phase := if (s.conn c).phase = .answering then .accepted else (s.conn c).phase }).setLoop
        i (.connecting t)) ∧
      Grows s (((s.setNode i (hmpPrePostRecv (s.node i) t o.recv₁ o.recv₂)).setConn c
        { s.conn c with
          phase := if (s.conn c).phase = .answering then .accepted else (s.conn c).phase }).setLoop
        i (.connecting t)) := by
  obtain ⟨hc, -, hd, hdt, -, -⟩ := accepting_conn hp hi hl
  have htc := h.2 c hc
  have hdt := hdt.resolve_left htc.alive
  refine h.quiet hp hi rfl rfl rfl rfl rfl (hmpPrePostRecv_sameTable _ t _ _) (.inr (by simp))
    ⟨rfl, rfl, rfl, rfl, ?_⟩ (fun _ => ⟨?_, fun _ => .inr fun j hj => ?_, fun he => ?_⟩)
  · dsimp only
    split_ifs with hph
    · exact .inr (.inr (.inr (.inr ⟨hph, rfl⟩)))
    · exact .inl rfl
  · dsimp only
    split_ifs
    · simp
    · exact htc.alive
  · obtain rfl : i = j := Option.some.inj (hd.symm.trans hj)
    exact ⟨t, hdt, (h.1 i hi).accepting c t hl⟩
  · have hph := htc.est he
    simp [hph]

/-- A step that the condition allows keeps the table. -/
theorem TableInv.move {e : NodeEvent} (h : TableInv cfg s) (hp : PlaceInv cfg s)
    (hi : i < cfg.nodeCnt) (hok : ClearedFirst s (i, e)) (hm : Moves cfg s i e s') :
    TableInv cfg s' ∧ Grows s s' := by
  obtain ⟨hnf, hst⟩ := hok
  have hmain := (hp.1 i hi).main
  cases hm with
  | memInit hm _ => exact table_memInit h hp hi hm _
  | memExit hm hpool => simp [noFailure, hpool] at hnf
  | listen hm => exact table_listen h hp hi hm
  | clear hm => exact table_clear h hp hi hm
  | create hm hk hr => exact table_create h hp hi hm
  | createExit hm hk hr => simp [noFailure, hm, hr] at hnf
  | done hm hk =>
    rename_i ret k
    rw [show s.setMain i .done = (s.setNode i (s.node i)).setMain i .done by simp [setNode]]
    refine table_next h hp hi rfl (by simp) (by simp [MainPc.empty]) (by simp [MainPc.entry])
      (fun p hpn _ _ => ?_)
    rw [(hp.1 i hi).nodeCnt] at hk
    rw [hm, MainPc.led]
    omega
  | peer hm =>
    rename_i ret k t stmt
    refine table_next h hp hi (peerStmt_connectTrans _ _ _ _) ?_ ?_ ?_ ?_
    all_goals cases stmt <;> simp [hm, PeerStmt.next, MainPc.empty, MainPc.entry, MainPc.led]
  | entry hm =>
    rename_i ret k t
    have hport : ((s.node i).config.nodeInfos k).port ≠ 0 := by simpa [noFailure, hm] using hnf
    rw [if_neg hport]
    refine table_next h hp hi (connectEntry_connectTrans _ _ _ _ _) ?_ ?_ ?_ ?_ <;>
      simp [hm, MainPc.empty, MainPc.entry, MainPc.led]
  | createIdFail hm hr => simp [noFailure, hm, hr] at hnf
  | createId hm hr => exact table_createId h hp hi hm rfl
  | resolveFail hm hr => simp [noFailure, hm, hr] at hnf
  | resolve hm hr hcm => exact table_resolve h hp hi hm hcm
  | setState hm =>
    refine table_next h hp hi rfl (by simp) ?_ ?_ ?_ <;> rw [hm] <;>
      simp [MainPc.empty, MainPc.entry, MainPc.led]
    omega
  | cm hl hcm hx =>
    obtain ⟨hpr, -, he, -⟩ := handled_progress hx
    exact h.quiet hp hi rfl rfl (l := s.loop i) (by simp) rfl rfl
      (hmpHandleEcEvent_sameTable _ _ _ he) (.inl rfl) hpr
      (fun hc => handled_goesOn (h.2 _ hc) hnf hx)
  | requestFail hc hph hd hli hl hr => exact absurd hr (noFailure_request hnf)
  | request hc hph hd hli hl => exact table_request h hp hi hph hli hc
  | register hl => exact table_register h hp hi hl hst
  | acceptFail hl ha => simp [noFailure, ha] at hnf
  | accept hl ha => exact table_accept h hp hi hl
  | requestDone hl => exact h.still hp hi rfl rfl rfl rfl rfl ⟨rfl, rfl⟩ (.inr (by simp))
  | pollInit hl hq hnd hs hinit =>
    subst hnd
    exact h.still hp hi rfl rfl rfl rfl rfl ⟨rfl, rfl⟩ (.inr (by simp))
  | poll hl hq hnd hinit =>
    subst hnd
    refine h.still hp hi rfl rfl (l := s.loop i) (by simp) rfl rfl ?_ (.inl rfl)
    rcases dispatchWc_quiet hinit with he | he <;> rw [he] <;> exact ⟨rfl, rfl⟩
  | mr hl =>
    rename_i stmt
    refine h.still hp hi rfl rfl rfl rfl rfl (mrStmt_sameTable _ _ _ _) (.inr ?_)
    cases stmt <;> simp [MrStmt.next]
  | loopExit hl hs =>
    exact h.still (n := s.node i) hp hi (by simp) rfl rfl rfl rfl ⟨rfl, rfl⟩ (.inr (by simp))
  | send hcm hq ho hs =>
    exact h.quiet hp hi rfl rfl (l := s.loop i) (by simp) rfl rfl ⟨rfl, rfl⟩ (.inl rfl)
      (push_progress _ _ _).1 (fun hc => .same (h.2 _ hc) (push_progress _ _ _).2 (push_dstEst _ _ _))
  | deliver hcm hq hx hlive hlen =>
    exact h.quiet hp hi rfl rfl (l := s.loop i) (by simp) rfl rfl ⟨rfl, rfl⟩ (.inl rfl)
      (pop_progress hx).1 (fun hc => .same (h.2 _ hc) (pop_progress hx).2 (pop_dstEst hx))
  | complete | recvError =>
    exact h.still hp hi rfl rfl (l := s.loop i) (by simp) rfl rfl ⟨rfl, rfl⟩ (.inl rfl)
  | check hct =>
    exact h.still (n := s.node i) hp hi (by simp) rfl (l := s.loop i) (by simp) rfl rfl
      ⟨rfl, rfl⟩ (.inl rfl)
  | post hct hnd =>
    obtain ⟨-, -, -, -, h₅, h₆, -⟩ := rdmaPostOf_frame _ _ _ _ _ _ _ hnd
    exact h.still hp hi rfl rfl (l := s.loop i) (by simp) rfl rfl ⟨h₅, h₆⟩ (.inl rfl)
  | store =>
    exact h.still hp hi rfl rfl (l := s.loop i) (by simp) rfl rfl ⟨rfl, rfl⟩ (.inl rfl)

theorem TableInv.start (h : Start cfg s) : TableInv cfg s := by
  obtain ⟨hnode, hpc, hnc, -⟩ := h
  refine ⟨fun i hi => ?_, fun c hc => by omega⟩
  obtain ⟨id, devs, mem, -, hn⟩ := hnode i hi
  obtain ⟨hm, hl, -⟩ := hpc i hi
  constructor <;> simp [hn, hm, hl, MainPc.entry, MainPc.led]

theorem TableInv.reach (h : (sys cfg).Reach ClearedFirst s) : TableInv cfg s ∧ PlaceInv cfg s := by
  refine h.inv (I := fun x => TableInv cfg x ∧ PlaceInv cfg x)
    (fun s₀ h₀ => ⟨.start h₀, .start h₀⟩) ?_
  intro s e s' hinv hok hst
  obtain ⟨hi, hm⟩ := step_moves hst
  exact ⟨(hinv.1.move hinv.2 hi hok hm).1, (hinv.2.move hi hm).inv⟩

theorem Grows.run (h : (sys cfg).Reach ClearedFirst s) (hr : (sys cfg).Run ClearedFirst s s') :
    Grows s s' := by
  obtain ⟨ht, hp⟩ := TableInv.reach h
  refine hr.keeps_of_inv (I := fun x => TableInv cfg x ∧ PlaceInv cfg x) (J := Grows s)
    (fun x e y hx hok hst => ?_) (fun x e y hx hg hok hst => ?_) ⟨ht, hp⟩ (fun _ _ _ => id)
  · obtain ⟨hi, hm⟩ := step_moves hst
    exact ⟨(hx.1.move hx.2 hi hok hm).1, (hx.2.move hi hm).inv⟩
  · obtain ⟨hi, hm⟩ := step_moves hst
    exact fun k p t hk => (hx.1.move hx.2 hi hok hm).2 k p t (hg k p t hk)

/-- When the address of `j` has been resolved and the connection is established, the two nodes
hold its ends in their tables. -/
theorem TableInv.ends (h : TableInv cfg s) (hp : PlaceInv cfg s) (hc : c < s.nconn)
    (hsrc : (s.conn c).src = i) (hdst : (s.conn c).dst = some j) (he : (s.conn c).dstEst = true) :
    ∃ t u, (s.node i).connectTrans j = some t ∧ (s.node j).connectTrans i = some u ∧
      ((s.node i).trans t).cmId = some ⟨c, true⟩ ∧ ((s.node j).trans u).cmId = some ⟨c, false⟩ ∧
      s.otherEnd i t = some j ∧ s.otherEnd j u = some i := by
  have htc := h.2 c hc
  have hph := htc.est he
  obtain ⟨u, j', hj', hu, hcu, hpu⟩ := (hp.2 c hc).passive hph
  obtain rfl : j = j' := Option.some.inj (hdst.symm.trans hj')
  obtain ⟨-, hct, hpt⟩ := (hp.2 c hc).active j hdst
  have hti := htc.active j hdst
  have htj := htc.accepted hph j hdst
  rw [hsrc] at hct hpt hti htj hpu
  exact ⟨_, u, hti, htj.trans hu, hct, hcu, hpt.far, hpu.far⟩

/-- No established connection is lost from the table of a cluster whose nodes clear their tables
before a request is stored there. -/
theorem no_connection_lost (cfg : ClusterConfig) (s : Cluster)
    (h : (sys cfg).Reach ClearedFirst s) :
    (∀ s', (sys cfg).Run ClearedFirst s s' → ∀ j < cfg.nodeCnt,
      (∀ c t, s.loop j = .accepting c t →
        (s'.node j).connectTrans (s.conn c).src = some t) ∧
      ∀ p t, (s.node j).connectTrans p = some t → (s'.node j).connectTrans p = some t) ∧
    (AllConnected cfg s → ∀ i < cfg.nodeCnt, ∀ j < cfg.nodeCnt, i ≠ j →
      ∃ t u, (s.node i).connectTrans j = some t ∧ (s.node j).connectTrans i = some u ∧
        TwoEnds s i t j u) := by
  obtain ⟨ht, hp⟩ := TableInv.reach h
  refine ⟨fun s' hr j hj => ?_, fun hall i hi j hj hij => ?_⟩
  · have hg := Grows.run h hr
    exact ⟨fun c t hl => hg _ _ _ ((ht.1 j hj).accepting c t hl), fun p t => hg j p t⟩
  · obtain ⟨hdone, hest⟩ := hall
    have hleads : ∀ i < cfg.nodeCnt, ∀ j < cfg.nodeCnt, i < j → Leads s i j := by
      intro i hi j hj hlt
      refine (ht.1 i hi).led j hj hlt ?_
      rw [hdone i hi]
      trivial
    -- the node with the smaller id has connected
    rcases lt_or_gt_of_ne hij with hlt | hlt
    · obtain ⟨c, hc, hsrc, hdst⟩ := hleads i hi j hj hlt
      obtain ⟨t, u, ht, hu, hct, hcu, hot, hou⟩ := ht.ends hp hc hsrc hdst (hest c hc).2
      exact ⟨t, u, ht, hu, c, true, hct, hcu, hot, hou⟩
    · obtain ⟨c, hc, hsrc, hdst⟩ := hleads j hj i hi hlt
      obtain ⟨t, u, ht, hu, hct, hcu, hot, hou⟩ := ht.ends hp hc hsrc hdst (hest c hc).2
      exact ⟨u, t, hu, ht, c, false, hcu, hct, hou, hot⟩

/-- Two nodes that hold the two ends of their connection. -/
theorem no_connection_lost_run : ∃ s, (sys sampleConfig).Reach ClearedFirst s ∧
    AllConnected sampleConfig s ∧ ∃ t u, (s.node 0).connectTrans 1 = some t ∧
      (s.node 1).connectTrans 0 = some u ∧ TwoEnds s 0 t 1 u := by
  obtain ⟨s, hr, hc⟩ := Sys.exists_run_of_replay (sys sampleConfig) ClearedFirst sample
    sampleStartup (p := AllConnected sampleConfig) (by decide)
  have hs : (sys sampleConfig).Reach ClearedFirst s := ⟨sample, sample_start, hr⟩
  exact ⟨s, hs, hc, (no_connection_lost sampleConfig s hs).2 hc 0 (by decide) 1 (by decide)
    (by decide)⟩

/-- Node 1 stands before its `memset` when the request of node 0 is stored. -/
theorem stored_transport_lost : ¬ ∀ cfg s, (sys cfg).Reach NoFailure s → AllConnected cfg s →
    ∀ i < cfg.nodeCnt, ∀ j < cfg.nodeCnt, i ≠ j →
      ∃ t u, (s.node i).connectTrans j = some t ∧ (s.node j).connectTrans i = some u ∧
        TwoEnds s i t j u := by
  intro h
  obtain ⟨s, hr, hc, hl⟩ := Sys.exists_run_of_replay (sys sampleConfig) NoFailure sample
    ([(1, createPool 8192 77 (by decide) (by decide)), (1, .main 0)] ++ sampleConnect ++
      [(1, .request 0 { verbs := 1 }), (1, .register)] ++ sampleAccept ++
      List.replicate 2 (1, .main 0))
    (p := fun s => AllConnected sampleConfig s ∧ (s.node 1).connectTrans 0 = none)
    (by decide)
  obtain ⟨t, u, -, hu, -⟩ := h sampleConfig s ⟨sample, sample_start, hr⟩ hc 0 (by decide) 1
    (by decide) (by decide)
  simp [hl] at hu

end Cluster

end HMP
