import Hmp.Proofs.Placement

/-! Every step keeps the placement: the statements of the main thread, then the
handlers of the event thread. -/

namespace HMP

namespace Cluster

variable {cfg : ClusterConfig} {s s' : Cluster} {i j k t u c : ℕ}

/-! ## The main thread -/

/-- An address of the config leads to its node. -/
theorem nodeAt_addr (cfg : ClusterConfig) (hk : k < cfg.nodeCnt) :
    cfg.nodeAt (cfg.nodeInfos k).addr = some k := by
  rw [ClusterConfig.nodeAt, List.find?_range_eq_some]
  refine ⟨by simp, List.mem_range.mpr hk, fun j hj => ?_⟩
  simp only [Bool.not_eq_eq_eq_not, Bool.not_true, decide_eq_false_iff_not]
  intro he
  have := cfg.distinct j (hj.trans hk) k hk he
  omega

theorem place_memInit (h : PlaceInv cfg s) (hi : i < cfg.nodeCnt) (hm : s.main i = .memInit)
    (pool : HmpMempool) :
    Kept cfg s ((s.setNode i (hmpMemInit (s.node i) pool)).setMain i .listen) i := by
  have hk := h.1 i hi
  have hnone : (s.node i).dramMempool = none := by
    have := hk.main
    rwa [hm] at this
  set s' := (s.setNode i (hmpMemInit (s.node i) pool)).setMain i .listen with hs'
  have hni : s'.node i = hmpMemInit (s.node i) pool := by simp [hs']
  have hs : Local s s' i s.nconn :=
    .of_node rfl rfl (l := s.loop i) (by simp [hs']) rfl rfl
  have hp : ∀ t j, Placed cfg s i t j → Placed cfg s' i t j :=
    fun t j hp => absurd hnone hp.pool
  refine h.step hs hp (fun t cm ht _ => by rw [hni]; exact ht) (fun p hp => by simp [hnone] at hp) ?_
    (fun hc => absurd hc (lt_irrefl _))
  refine ⟨by rw [hni]; exact hk.curnodeId, by rw [hni]; exact hk.nodeCnt, fun j => ?_,
    by rw [hni]; exact hk.fresh, by rw [hni]; exact hk.curRecv, fun _ => ?_, ?_, ?_,
    fun t cm ht => hs.endOk (hk.ends t cm (by rw [hni] at ht; exact ht))⟩
  · rw [hni]
    simp only [hmpMemInit, Node.setInfo]
    by_cases hj : j = (s.node i).config.curnodeId
    · rw [hj, Function.update_self, hk.addr]
    · rw [Function.update_of_ne hj, hk.addr]
  · simp [hni, hmpMemInit]
  · simp [hs', MainOk, hmpMemInit]
  · refine hk.loop.mono (fun t d ht => ⟨?_, hs.evolve (hk.ends t _ ht).1⟩) (fun hne => absurd hnone hne)
      hp
    rw [hni]
    exact ht

theorem place_peer {stmt : PeerStmt} (h : PlaceInv cfg s) (hi : i < cfg.nodeCnt)
    (hm : s.main i = .peer k t stmt) :
    Kept cfg s ((s.setNode i (stmt.exec (s.node i) k t)).setMain i (stmt.next k t)) i := by
  have hk := h.1 i hi
  obtain ⟨hik, hkn, hpool, ht, hcm, hid, hsend⟩ : MainOk cfg s i (.peer k t stmt) := hm ▸ hk.main
  set s' := (s.setNode i (stmt.exec (s.node i) k t)).setMain i (stmt.next k t) with hs'
  have hni : s'.node i = stmt.exec (s.node i) k t := by simp [hs']
  have hs : Local s s' i s.nconn :=
    .of_node rfl rfl (l := s.loop i) (by simp [hs']) rfl rfl
  have hnd : ∃ x : HmpTransport, stmt.exec (s.node i) k t = (s.node i).setTrans t x ∧
      x.cmId = none ∧ x.region.curRecv < 3 ∧ (stmt = .nodeId → x.nodeId = k) ∧
      (stmt ≠ .nodeId → x.nodeId = ((s.node i).trans t).nodeId) ∧
      (stmt = .sendAddr → x.region.sendAddr = (s.node i).slot k 0) ∧
      (stmt = .recvAddr → x.region.sendAddr = ((s.node i).trans t).region.sendAddr ∧
        x.region.recvAddr = ((s.node i).trans t).region.sendAddr + HMP_TASK_SIZE) := by
    have hr := hk.curRecv t
    cases stmt <;> refine ⟨_, rfl, ?_⟩ <;> simp [hcm, hr, Node.slot]
  obtain ⟨x, hx, hxcm, hxr, hx₁, hx₂, hx₃, hx₄⟩ := hnd
  rw [hx] at hni
  refine h.setup hi hs hni rfl rfl rfl le_rfl ht (fun u hu => by simp [hu]) (by simpa using hxr)
    (fun j hp => ?_) (fun cm hc _ => by simp [hcm] at hc) ?_ (fun hp => ?_)
    (fun cm hc => by simp [hxcm] at hc) (fun hc => absurd hc (lt_irrefl _))
  · obtain ⟨cm, hc, -⟩ := hp.cmId
    simp [hcm] at hc
  · have hslot : ((s.node i).setTrans t x).slot = (s.node i).slot := rfl
    have hcm' : ((s'.node i).trans t).cmId = none := by rw [hni]; simpa using hxcm
    have htn : t < (s'.node i).nextTrans := by rw [hni]; exact ht
    have hpool' : (s'.node i).dramMempool ≠ none := by rw [hni]; exact hpool
    rw [show s'.main i = stmt.next k t by simp [hs']]
    cases stmt with
    | nodeId =>
      exact ⟨hik, hkn, hpool', htn, hcm', fun _ => by rw [hni]; simpa using hx₁ rfl, by simp⟩
    | curRecv =>
      exact ⟨hik, hkn, hpool', htn, hcm', fun _ => by rw [hni]; simpa [hid] using hx₂, by simp⟩
    | sendAddr =>
      exact ⟨hik, hkn, hpool', htn, hcm', fun _ => by rw [hni]; simpa [hid] using hx₂,
        fun _ => by rw [hni, hslot]; simpa using hx₃⟩
    | recvAddr =>
      obtain ⟨hxs, hxr⟩ := hx₄ rfl
      have hl : ((s.node i).setTrans t x).Located t k := by
        refine ⟨by simpa [hid] using hx₂, ?_, ?_⟩
        · rw [hslot]
          simpa [hsend] using hxs
        · rw [hslot]
          simp [hxr, hsend, Node.slot]
      exact ⟨hik, hkn, hpool', htn, hni ▸ hl, hcm'⟩
  · have hl : s'.loop i = s.loop i := rfl
    rw [hl]
    refine hk.loop.mono (fun u d hu => ⟨?_, hs.evolve (hk.ends u _ hu).1⟩)
      (fun _ => by rw [hni]; exact hpool) hp
    have hut : u ≠ t := by
      rintro rfl
      simp [hcm] at hu
    rw [hni]
    simpa [hut] using hu

theorem place_create (h : PlaceInv cfg s) (hi : i < cfg.nodeCnt) (hm : s.main i = .loop k)
    (hk : k < (s.node i).config.nodeCnt) :
    Kept cfg s ((s.setNode i (peerCreate (s.node i) k true).1).setMain i
      (.peer k (s.node i).nextTrans .nodeId)) i := by
  have hn := h.1 i hi
  obtain ⟨hik, hpool⟩ : MainOk cfg s i (.loop k) := hm ▸ hn.main
  have hf := hn.fresh _ le_rfl
  rw [peerCreate_eq]
  set nd : Node := { s.node i with
    trans := Function.update (s.node i).trans (s.node i).nextTrans {}
    nextTrans := (s.node i).nextTrans + 1
    connectTrans := Function.update (s.node i).connectTrans k (some (s.node i).nextTrans) } with hnd
  set s' := (s.setNode i nd).setMain i (.peer k (s.node i).nextTrans .nodeId) with hs'
  have hni : s'.node i = nd := by simp [hs']
  have hs : Local s s' i s.nconn :=
    .of_node rfl rfl (l := s.loop i) (by simp [hs']) rfl rfl
  refine h.setup hi hs hni rfl rfl rfl (Nat.le_succ _) (Nat.lt_succ_self _)
    (fun u hu => by simp [hnd, hu]) (by simp [hnd]) (fun j hp => ?_)
    (fun cm hc _ => by simp [hf] at hc) ?_ (fun hp => ?_) (fun cm hc => by simp [hnd] at hc)
    (fun hc => absurd hc (lt_irrefl _))
  · obtain ⟨cm, hc, -⟩ := hp.cmId
    simp [hf] at hc
  · rw [show s'.main i = .peer k (s.node i).nextTrans .nodeId by simp [hs']]
    refine ⟨hik, hn.nodeCnt ▸ hk, by rw [hni]; exact hpool, by rw [hni]; exact Nat.lt_succ_self _,
      by rw [hni]; simp [hnd], by simp, by simp⟩
  · have hl : s'.loop i = s.loop i := rfl
    rw [hl]
    refine hn.loop.mono (fun u d hu => ⟨?_, hs.evolve (hn.ends u _ hu).1⟩)
      (fun _ => by rw [hni]; exact hpool) hp
    have hut : u ≠ (s.node i).nextTrans := by
      rintro rfl
      simp [hf] at hu
    rw [hni]
    simpa [hnd, hut] using hu

theorem place_createId (h : PlaceInv cfg s) (hi : i < cfg.nodeCnt)
    (hm : s.main i = .connect k t .createId) :
    Kept cfg s (((s.setNode i ((s.node i).setTrans t { (s.node i).trans t with
      cmId := some ⟨s.nconn, true⟩ })).setMain i (.connect k t .resolveAddr)).addConn
        { src := i, srcTrans := t }) i := by
  have hn := h.1 i hi
  obtain ⟨hik, hkn, hpool, ht, hloc, hcm, ha⟩ : MainOk cfg s i (.connect k t .createId) :=
    hm ▸ hn.main
  set nd := (s.node i).setTrans t { (s.node i).trans t with cmId := some ⟨s.nconn, true⟩ } with hnd
  set s' := ((s.setNode i nd).setMain i (.connect k t .resolveAddr)).addConn
    { src := i, srcTrans := t } with hs'
  have hni : s'.node i = nd := by simp [hs']
  have hci : s'.conn s.nconn = { src := i, srcTrans := t } := by simp [hs']
  have hnn : s'.nconn = s.nconn + 1 := rfl
  have hs : Local s s' i s.nconn := .of_new rfl rfl rfl rfl rfl
  refine h.setup hi hs hni rfl rfl rfl le_rfl ht (fun u hu => by simp [hnd, hu])
    (by simpa [hnd] using hn.curRecv t) (fun j hp => ?_) (fun cm hc _ => by simp [hcm] at hc) ?_
    (fun hp => ?_) (fun cm hc => ?_) (fun _ _ => ?_)
  · obtain ⟨cm, hc, -⟩ := hp.cmId
    simp [hcm] at hc
  · rw [show s'.main i = .connect k t .resolveAddr by simp [hs']]
    have hl : nd.Located t k := by
      obtain ⟨h₁, h₂, h₃⟩ := hloc
      have hslot : nd.slot = (s.node i).slot := rfl
      exact ⟨by simpa [hnd] using h₁, by rw [hslot]; simpa [hnd] using h₂,
        by rw [hslot]; simpa [hnd] using h₃⟩
    refine ⟨hik, hkn, by rw [hni]; exact hpool, by rw [hni]; exact ht, hni ▸ hl,
      by rw [hni]; simpa [hnd] using ha, s.nconn, by rw [hni]; simp [hnd], by rw [hci]⟩
  · have hl : s'.loop i = s.loop i := rfl
    rw [hl]
    refine hn.loop.mono (fun u d hu => ⟨?_, hs.evolve (hn.ends u _ hu).1⟩)
      (fun _ => by rw [hni]; exact hpool) hp
    have hut : u ≠ t := by
      rintro rfl
      simp [hcm] at hu
    rw [hni]
    simpa [hnd, hut] using hu
  · obtain rfl : (⟨s.nconn, true⟩ : CmId) = cm := by simpa [hnd] using hc
    exact ⟨by simp [hnn], by simp [hci]⟩
  · refine ⟨by simp [hci, hi], by simp [hci], by simp [hci], by simp [hci], by simp [hci],
      by simp [hci]⟩

/-- While the main thread resolves the address, the connection leads nowhere. -/
theorem resolve_dst (h : PlaceInv cfg s) (hi : i < cfg.nodeCnt)
    (hm : s.main i = .connect k t .resolveAddr) :
    ∃ c, ((s.node i).trans t).cmId = some ⟨c, true⟩ ∧ c < s.nconn ∧ (s.conn c).src = i ∧
      (s.conn c).srcTrans = t ∧ (s.conn c).phase = .created ∧ (s.conn c).dst = none := by
  have hn := h.1 i hi
  obtain ⟨-, -, -, -, -, -, c, hcm, hph⟩ : MainOk cfg s i (.connect k t .resolveAddr) := hm ▸ hn.main
  obtain ⟨hc, he⟩ := hn.ends t _ hcm
  exact ⟨c, hcm, hc, he.1, he.2, hph, (h.2 c hc).created hph⟩

/-- Nothing is set up before the address is resolved. -/
theorem resolve_not_placed (h : PlaceInv cfg s) (hi : i < cfg.nodeCnt)
    (hm : s.main i = .connect k t .resolveAddr) : ¬ Placed cfg s i t j := by
  intro hp
  obtain ⟨c, hcm, -, -, -, -, hd⟩ := resolve_dst h hi hm
  obtain ⟨cm, hcm', ha, -⟩ := hp.cmId
  obtain rfl : ⟨c, true⟩ = cm := Option.some.inj (hcm.symm.trans hcm')
  simp [hd] at ha

theorem place_resolveFail (h : PlaceInv cfg s) (hi : i < cfg.nodeCnt)
    (hm : s.main i = .connect k t .resolveAddr) :
    Kept cfg s ((s.setNode i ((s.node i).setTrans t { (s.node i).trans t with
      cmId := none })).setMain i (.loop (k + 1))) i := by
  have hn := h.1 i hi
  obtain ⟨c, hcm, hc, -, -, -, hd⟩ := resolve_dst h hi hm
  obtain ⟨hik, hkn, hpool, ht, -⟩ : MainOk cfg s i (.connect k t .resolveAddr) := hm ▸ hn.main
  set nd := (s.node i).setTrans t { (s.node i).trans t with cmId := none } with hnd
  set s' := (s.setNode i nd).setMain i (.loop (k + 1)) with hs'
  have hni : s'.node i = nd := by simp [hs']
  have hs : Local s s' i s.nconn :=
    .of_node rfl rfl (l := s.loop i) (by simp [hs']) rfl rfl
  refine h.setup hi hs hni rfl rfl rfl le_rfl ht (fun u hu => by simp [hnd, hu])
    (by simpa [hnd] using hn.curRecv t) (fun j hp => absurd hp (resolve_not_placed h hi hm))
    (fun cm hcm' ha => ?_) ?_ (fun hp => ?_) (fun cm hc => by simp [hnd] at hc)
    (fun hc => absurd hc (lt_irrefl _))
  · obtain rfl : ⟨c, true⟩ = cm := Option.some.inj (hcm.symm.trans hcm')
    exact absurd hd (ha rfl)
  · rw [show s'.main i = .loop (k + 1) by simp [hs']]
    exact ⟨by omega, by rw [hni]; exact hpool⟩
  · have hl : s'.loop i = s.loop i := rfl
    rw [hl]
    refine hn.loop.mono (fun u d hu => ⟨?_, hs.evolve (hn.ends u _ hu).1⟩)
      (fun _ => by rw [hni]; exact hpool) hp
    have hut : u ≠ t := by
      rintro rfl
      simp [hcm] at hu
    rw [hni]
    simpa [hnd, hut] using hu

theorem place_resolve {cm : CmId} (h : PlaceInv cfg s) (hi : i < cfg.nodeCnt)
    (hm : s.main i = .connect k t .resolveAddr) (hcm : ((s.node i).trans t).cmId = some cm) :
    Kept cfg s (((s.setNode i (s.node i)).setMain i (.connect k t .setState)).setConn cm.conn
      { s.conn cm.conn with
        phase := .addr, dst := cfg.nodeAt ((s.node i).trans t).peerAddr.addr }) i := by
  have hn := h.1 i hi
  obtain ⟨c, hcm', hc, hsrc, hst, hph, hd⟩ := resolve_dst h hi hm
  obtain rfl : ⟨c, true⟩ = cm := Option.some.inj (hcm'.symm.trans hcm)
  obtain ⟨hik, hkn, hpool, ht, hloc, ha, -⟩ : MainOk cfg s i (.connect k t .resolveAddr) :=
    hm ▸ hn.main
  rw [ha, nodeAt_addr cfg hkn]
  set x : Conn := { s.conn c with phase := .addr, dst := some k } with hx
  set s' := ((s.setNode i (s.node i)).setMain i (.connect k t .setState)).setConn c x with hs'
  have hni : s'.node i = s.node i := by simp [hs']
  have hci : s'.conn c = x := by simp [hs']
  have hs : Local s s' i c := by
    refine .of_eq (n := s.node i) (by simp [hs']) rfl (l := s.loop i) (by simp [hs']) rfl rfl
      (fun _ => ⟨rfl, rfl, fun j hj => by simp [hd] at hj, fun u hu => hu,
        fun hdead => by simp [hph] at hdead⟩) (fun _ _ => .inr hsrc)
  refine h.setup hi hs hni rfl rfl rfl le_rfl ht (fun u _ => rfl) (hn.curRecv t)
    (fun j hp => absurd hp (resolve_not_placed h hi hm)) (fun cm hc _ => hc) ?_ (fun hp => ?_)
    (fun cm hc => hs.endOk (hn.ends t cm hc)) (fun _ hpa => ?_)
  · rw [show s'.main i = .connect k t .setState by simp [hs']]
    exact ⟨hik, hkn, by rw [hni]; exact hpool, by rw [hni]; exact ht, trivial⟩
  · have hl : s'.loop i = s.loop i := rfl
    rw [hl]
    exact hn.loop.mono (fun u d hu => ⟨by rw [hni, hu], hs.evolve (hn.ends u _ hu).1⟩)
      (fun _ => by rw [hni]; exact hpool) hp
  · have hdt : x.dstTrans = none := by
      by_contra hne
      have := (h.2 c hc).early hne
      simp [hph] at this
    refine ⟨by simp [hci, hx, hsrc, hi], by simp [hci, hx], by simp [hci, hx],
      by simp [hci, hdt], fun j hj => ?_, by simp [hci, hx]⟩
    obtain rfl : k = j := by simpa [hci, hx] using hj
    rw [hci, show x.src = i from hsrc, show x.srcTrans = t from hst, hni]
    have hcm' : ((s'.node i).trans t).cmId = some ⟨c, true⟩ := by rw [hni, hcm]
    exact ⟨hik, hcm, hni ▸ hloc, by rw [hni]; exact hpool, hkn, by omega,
      by simp [otherEnd, hcm', hci, hx]⟩

/-! ## The event thread -/

/-- The next transport is not the one that the main thread sets up. -/
theorem MainOk.next_building (h : MainOk cfg s i (s.main i)) :
    (s.main i).building ≠ some (s.node i).nextTrans :=
  fun hb => lt_irrefl _ (h.building hb).1

/-- A request finds no transport of its connection on the passive side. -/
theorem request_evolves (h : PlaceInv cfg s) (hc : c < s.nconn)
    (hph : (s.conn c).phase = .requested) (t : ℕ) :
    Evolves (s.conn c) { s.conn c with phase := .answering, dstTrans := some t } := by
  have hdt : (s.conn c).dstTrans = none := by
    by_contra hne
    have := (h.2 c hc).early hne
    simp [hph] at this
  exact ⟨rfl, rfl, fun j hj => hj, fun u hu => by simp [hdt] at hu,
    fun hdead => by simp [hph] at hdead⟩

theorem place_request {o : RequestOutcome} (h : PlaceInv cfg s) (hi : i < cfg.nodeCnt)
    (hc : c < s.nconn) (hph : (s.conn c).phase = .requested) (hd : (s.conn c).dst = some i)
    (hli : (s.node i).listenState = .listen) :
    Kept cfg s (((s.setNode i ((withRequest (s.node i) ⟨c, false⟩
      (hmpDeviceLookup (s.node i) o.verbs)).setQp (s.node i).nextTrans
        { live := true, registered := true })).setConn c
      { s.conn c with phase := .answering, dstTrans := some (s.node i).nextTrans }).setLoop i
        (.storing c (s.node i).nextTrans)) i := by
  have hn := h.1 i hi
  have ho := h.2 c hc
  have hpool := hn.listening hli
  have hf := hn.fresh _ le_rfl
  set nd := (withRequest (s.node i) ⟨c, false⟩ (hmpDeviceLookup (s.node i) o.verbs)).setQp
    (s.node i).nextTrans { live := true, registered := true } with hnd
  set x : Conn := { s.conn c with
    phase := .answering, dstTrans := some (s.node i).nextTrans } with hx
  set s' := ((s.setNode i nd).setConn c x).setLoop i (.storing c (s.node i).nextTrans) with hs'
  have hni : s'.node i = nd := by simp [hs']
  have hci : s'.conn c = x := by simp [hs']
  have hs : Local s s' i c :=
    .of_eq (n := nd) rfl (m := s.main i) (by simp [hs']) rfl rfl rfl
      (fun hc => request_evolves h hc hph _) (fun _ hcr => by simp [hph] at hcr)
  have hcmt : (nd.trans (s.node i).nextTrans).cmId = some ⟨c, false⟩ := by simp [hnd, withRequest]
  have hou : ∀ u ≠ (s.node i).nextTrans, nd.trans u = (s.node i).trans u := by
    intro u hu
    simp [hnd, withRequest, hu]
  refine h.setup hi hs hni rfl rfl rfl (Nat.le_succ _) (Nat.lt_succ_self _) hou
    (by simp [hnd, withRequest]) (fun j hp => ?_) (fun cm hc _ => by simp [hf] at hc) ?_
    (fun _ => ?_) (fun cm hcm => ?_) (fun _ hpa => ?_)
  · obtain ⟨cm, hc, -⟩ := hp.cmId
    simp [hf] at hc
  · have hmain : s'.main i = s.main i := rfl
    rw [hmain]
    refine hn.main.others (by rw [hni]; rfl) (by rw [hni]; exact Nat.le_succ _) (fun t hb => ?_)
      (fun d hd' => ?_)
    · refine .of_eq ?_
      rw [hni]
      exact hou t fun he => hn.main.next_building (he ▸ hb)
    · have hdc : d ≠ c := by
        rintro rfl
        simp [hph] at hd'
      rw [hs.conn d hdc, hd']
  · rw [show s'.loop i = .storing c (s.node i).nextTrans by simp [hs']]
    exact ⟨by rw [hni, hcmt], by rw [hni]; exact hpool⟩
  · obtain rfl : (⟨c, false⟩ : CmId) = cm := Option.some.inj (hcmt.symm.trans hcm)
    exact ⟨hc, by simp [hci, hx, hd]⟩
  · refine ⟨by simp [hci, hx, ho.src], by simp [hci, hx], by simp [hci, hx, hd],
      by simp [hci, hx], fun j hj => ?_, by simp [hci, hx]⟩
    obtain ⟨hlt, ha, hpl⟩ := ho.active j (by rw [hci] at hj; exact hj)
    have hsi : (s.conn c).src ≠ i := by
      obtain rfl : i = j := by simpa [hci, hx, hd] using hj
      omega
    rw [hci]
    exact ⟨hlt, by rw [hs.node _ hsi]; exact ha, hpa _ ho.src _ _ hpl⟩

/-- A request whose handler gives up leaves a transport that no connection knows. -/
theorem place_requestFail {o : RequestOutcome} {nd : Node} (h : PlaceInv cfg s)
    (hi : i < cfg.nodeCnt) (hc : c < s.nconn) (hph : (s.conn c).phase = .requested)
    (hd : (s.conn c).dst = some i)
    (hr : requestTransport (s.node i) ⟨c, false⟩ o = (nd, none)) :
    Kept cfg s ((s.setNode i nd).setConn c { s.conn c with phase := .dead }) i := by
  have hn := h.1 i hi
  have ho := h.2 c hc
  have hf := hn.fresh _ le_rfl
  set x : Conn := { s.conn c with phase := .dead } with hx
  have hpr : Progress (s.conn c) x := ⟨rfl, rfl, rfl, rfl, .inr (.inl ⟨by simp [hph], rfl⟩)⟩
  rcases requestTransport_cases (s.node i) ⟨c, false⟩ o with he | he | he <;> rw [he] at hr <;>
    simp only [Prod.mk.injEq, and_true, reduceCtorEq, and_false] at hr
  · subst hr
    exact h.quiet (u := 0) hi rfl (m := s.main i) (by simp) (l := s.loop i) (by simp) rfl rfl
      (.refl _ _) (.inl rfl) hpr (.inr ⟨rfl, fun t _ => .of_eq rfl⟩) (.inr rfl)
      (fun hp => by simp [hph] at hp)
  · subst hr
    set nd := withRequest (s.node i) ⟨c, false⟩ (hmpDeviceLookup (s.node i) o.verbs) with hnd
    set s' := (s.setNode i nd).setConn c x with hs'
    have hni : s'.node i = nd := by simp [hs']
    have hci : s'.conn c = x := by simp [hs']
    have hs : Local s s' i c :=
      .of_eq (n := nd) rfl (m := s.main i) (by simp [hs']) (l := s.loop i) (by simp [hs']) rfl
        rfl (fun _ => hpr.evolves) (fun _ hcr => .inl (hpr.created hcr))
    have hcmt : (nd.trans (s.node i).nextTrans).cmId = some ⟨c, false⟩ := by simp [hnd, withRequest]
    have hou : ∀ u ≠ (s.node i).nextTrans, nd.trans u = (s.node i).trans u := by
      intro u hu
      simp [hnd, withRequest, hu]
    refine h.setup hi hs hni rfl rfl rfl (Nat.le_succ _) (Nat.lt_succ_self _) hou
      (by simp [hnd, withRequest]) (fun j hp => ?_) (fun cm hc _ => by simp [hf] at hc) ?_
      (fun hp => ?_) (fun cm hcm => ?_) (fun _ hpa => ?_)
    · obtain ⟨cm, hc, -⟩ := hp.cmId
      simp [hf] at hc
    · have hmain : s'.main i = s.main i := rfl
      rw [hmain]
      refine hn.main.others (by rw [hni]; rfl) (by rw [hni]; exact Nat.le_succ _)
        (fun t hb => .of_eq ?_) (fun d hd' => ?_)
      · rw [hni]
        exact hou t fun he => hn.main.next_building (he ▸ hb)
      · have hdc : d ≠ c := by
          rintro rfl
          simp [hph] at hd'
        rw [hs.conn d hdc, hd']
    · have hl : s'.loop i = s.loop i := rfl
      rw [hl]
      refine hn.loop.mono (fun u d hu => ⟨?_, hs.evolve (hn.ends u _ hu).1⟩)
        (fun hne => by rw [hni]; exact hne) hp
      have hut : u ≠ (s.node i).nextTrans := by
        rintro rfl
        simp [hf] at hu
      rw [hni, hou u hut, hu]
    · obtain rfl : (⟨c, false⟩ : CmId) = cm := Option.some.inj (hcmt.symm.trans hcm)
      exact ⟨hc, by simp [hci, hx, hd]⟩
    · refine ho.progress (hci ▸ hpr) (fun k t cm hcm _ => ?_) hpa (by simp [hci, hx])
      by_cases hki : k = i
      · subst hki
        have hut : t ≠ (s.node k).nextTrans := by
          rintro rfl
          simp [hf] at hcm
        rw [hni, hou t hut, hcm]
      · rw [hs.node k hki, hcm]

/-- The search finds the node that the request comes from. -/
theorem requestRegister_src (h : PlaceInv cfg s) (hi : i < cfg.nodeCnt)
    (hl : s.loop i = .storing c t) :
    c < s.nconn ∧ (s.conn c).dst = some i ∧ (s.conn c).src < i ∧
      requestRegister (s.node i) t (cfg.nodeInfos (s.conn c).src).addr =
        { (s.node i).setTrans t { (s.node i).trans t with
            nodeId := (s.conn c).src, region := slotRegion (s.node i) (s.conn c).src } with
          connectTrans := Function.update (s.node i).connectTrans (s.conn c).src (some t) } := by
  have hn := h.1 i hi
  obtain ⟨hcm, -⟩ : LoopOk cfg s i (.storing c t) := hl ▸ hn.loop
  obtain ⟨hc, hd, -⟩ := hn.ends t _ hcm
  have ho := h.2 c hc
  have hlt := (ho.active i hd).1
  refine ⟨hc, hd, hlt, ?_⟩
  rw [← hn.addr]
  refine requestRegister_of_curnodeId t (by rw [hn.curnodeId]; exact hlt) ?_
  have ha := nodeAt_addr cfg ho.src
  rw [ClusterConfig.nodeAt] at ha
  simp only [hmpSetCurnodeId, hn.nodeCnt, hn.addr]
  exact ha

theorem place_register (h : PlaceInv cfg s) (hi : i < cfg.nodeCnt)
    (hl : s.loop i = .storing c t) :
    Kept cfg s ((s.setNode i (requestRegister (s.node i) t
      (cfg.nodeInfos (s.conn c).src).addr)).setLoop i (.accepting c t)) i := by
  have hn := h.1 i hi
  obtain ⟨hcm, hpool⟩ : LoopOk cfg s i (.storing c t) := hl ▸ hn.loop
  obtain ⟨hc, hd, hlt, he⟩ := requestRegister_src h hi hl
  have ho := h.2 c hc
  rw [he]
  set p := (s.conn c).src with hp
  set nd : Node := { (s.node i).setTrans t { (s.node i).trans t with
      nodeId := p, region := slotRegion (s.node i) p } with
    connectTrans := Function.update (s.node i).connectTrans p (some t) } with hnd
  set s' := (s.setNode i nd).setLoop i (.accepting c t) with hs'
  have hni : s'.node i = nd := by simp [hs']
  have hs : Local s s' i s.nconn := .of_node rfl (m := s.main i) (by simp [hs']) rfl rfl rfl
  have hcm' : (nd.trans t).cmId = some ⟨c, false⟩ := by simpa [hnd] using hcm
  have hout : ∀ u ≠ t, nd.trans u = (s.node i).trans u := by
    intro u hu
    simp [hnd, hu]
  have hpl : Placed cfg s' i t p := by
    have hloc : nd.Located t p :=
      ⟨by simp [hnd], by simp [hnd, slotRegion, Node.slot, Node.baseAddr],
        by simp [hnd, slotRegion, Node.slot, Node.baseAddr]⟩
    refine ⟨hni ▸ hloc, by rw [hni]; exact hpool, ho.src, by omega, ?_⟩
    simp only [otherEnd, hni, hcm', Option.bind_some]
    rfl
  refine h.setup hi hs hni rfl rfl rfl le_rfl ?_ hout (by simp [hnd, slotRegion])
    (fun j hpj => ?_) (fun cm hcm'' _ => ?_) ?_ (fun _ => ?_) (fun cm hcm'' => ?_)
    (fun hc => absurd hc (lt_irrefl _))
  · by_contra hge
    have := hn.fresh t (by simpa [hnd] using hge)
    simp [hcm] at this
  · obtain ⟨cm, hcm'', -, hsrc⟩ := hpj.cmId
    obtain rfl : ⟨c, false⟩ = cm := Option.some.inj (hcm.symm.trans hcm'')
    exact (hsrc rfl) ▸ hpl
  · rw [hcm', ← hcm, hcm'']
  · have hmain : s'.main i = s.main i := rfl
    rw [hmain]
    refine hn.main.others (by rw [hni]; rfl) (by rw [hni]; exact le_rfl) (fun u hb => .of_eq ?_)
      (fun d hd' => hd')
    rw [hni]
    refine hout u fun hut => ?_
    subst hut
    rcases (hn.main.building hb).2 with hno | ⟨d, hno, -⟩ <;> simp [hcm] at hno
  · rw [show s'.loop i = .accepting c t by simp [hs']]
    exact ⟨by rw [hni, hcm'], hpl⟩
  · obtain rfl : ⟨c, false⟩ = cm := Option.some.inj (hcm'.symm.trans hcm'')
    exact hs.endOk (hn.ends t _ hcm)

/-- A connection that has an accepted transport to come is past the request. -/
theorem accepting_conn (h : PlaceInv cfg s) (hi : i < cfg.nodeCnt)
    (hl : s.loop i = .accepting c t) :
    c < s.nconn ∧ (s.conn c).phase ≠ .created ∧ (s.conn c).dst = some i ∧
      ((s.conn c).phase = .dead ∨ (s.conn c).dstTrans = some t) ∧
      ((s.node i).trans t).cmId = some ⟨c, false⟩ ∧ Placed cfg s i t (s.conn c).src := by
  have hn := h.1 i hi
  obtain ⟨hcm, hpl⟩ : LoopOk cfg s i (.accepting c t) := hl ▸ hn.loop
  obtain ⟨hc, hd, hdt⟩ := hn.ends t _ hcm
  refine ⟨hc, fun hcr => ?_, hd, hdt, hcm, hpl⟩
  rw [(h.2 c hc).created hcr] at hd
  simp at hd

/-- A transport with a passive end is not one that the main thread sets up. -/
theorem MainOk.passive_building {d : ℕ} (h : MainOk cfg s i (s.main i))
    (hcm : ((s.node i).trans t).cmId = some ⟨d, false⟩) {u : ℕ}
    (hb : (s.main i).building = some u) : u ≠ t := by
  rintro rfl
  rcases (h.building hb).2 with hno | ⟨e, hno, -⟩ <;> simp [hcm] at hno

theorem place_accept {o : RequestOutcome} {x : Conn} {l : LoopPc} (h : PlaceInv cfg s)
    (hi : i < cfg.nodeCnt) (hl : s.loop i = .accepting c t) (hx : Progress (s.conn c) x)
    (hlp : LoopOk cfg (((s.setNode i (hmpPrePostRecv (s.node i) t o.recv₁ o.recv₂)).setConn c
      x).setLoop i l) i l) :
    Kept cfg s (((s.setNode i (hmpPrePostRecv (s.node i) t o.recv₁ o.recv₂)).setConn c
      x).setLoop i l) i := by
  have hn := h.1 i hi
  obtain ⟨hc, hcr, hd, hdt, hcm, hpl⟩ := accepting_conn h hi hl
  have hst := hmpPrePostRecv_steady (s.node i) t o.recv₁ o.recv₂
  refine h.quiet hi rfl (m := s.main i) (by simp) rfl rfl rfl hst
    (.inl (hmpPrePostRecv_sameTable _ t _ _).listenState) hx (.inr ⟨rfl, fun u hb => .of_eq ?_⟩)
    (.inl hlp) (fun hph _ => ⟨t, i, hd, ?_, hcm, hpl⟩)
  · exact hst.others u (hn.main.passive_building hcm hb)
  · exact hdt.resolve_left (by simp [hph])

/-- A CM event reaches a transport whose address is resolved. -/
theorem place_cm {e : CmEvent} {cm : CmId} {x : Conn} (h : PlaceInv cfg s) (hi : i < cfg.nodeCnt)
    (hcm : ((s.node i).trans t).cmId = some cm)
    (hx : (s.conn cm.conn).handled cm.active e (hmpHandleEcEvent (s.node i) t e).2 = some x) :
    Kept cfg s ((s.setNode i (hmpHandleEcEvent (s.node i) t e).1).setConn cm.conn x) i := by
  have hn := h.1 i hi
  obtain ⟨hpr, hcr, he, hacc⟩ := handled_progress hx
  have hst := hmpHandleEcEvent_steady (s.node i) t e he
  refine h.quiet hi rfl (m := s.main i) (by simp) (l := s.loop i) (by simp) rfl rfl hst
    (.inl (hmpHandleEcEvent_sameTable _ t e he).listenState) hpr
    (.inr ⟨rfl, fun u hb => .of_eq (hst.others u ?_)⟩) (.inr rfl)
    (fun hph hph' => absurd (hacc hph') (by simp [hph]))
  rintro rfl
  rcases (hn.main.building hb).2 with hno | ⟨d, hno, hcreated⟩
  · simp [hcm] at hno
  · obtain rfl : cm = ⟨d, true⟩ := Option.some.inj (hcm.symm.trans hno)
    exact hcr hcreated

/-- A step that changes neither a connection nor the setup of a transport. -/
theorem PlaceInv.same_setup {n : Node} {l : LoopPc} (h : PlaceInv cfg s) (hi : i < cfg.nodeCnt)
    (hnode : s'.node = Function.update s.node i n) (hmain : s'.main = s.main)
    (hloop : s'.loop = Function.update s.loop i l) (hconn : s'.conn = s.conn)
    (hnconn : s'.nconn = s.nconn) (hst : (s.node i).Steady n u)
    (hli : n.listenState = (s.node i).listenState)
    (hset : ∀ t, SameSetup ((s.node i).trans t) (n.trans t))
    (hl : LoopOk cfg s' i l ∨ l = s.loop i) : Kept cfg s s' i :=
  h.quiet (c := 0) hi hnode (m := s.main i) (by simp [hmain]) hloop (x := s.conn 0)
    (by simp [hconn]) hnconn hst (.inl hli) (.refl _) (.inr ⟨rfl, fun t _ => hset t⟩) hl
    (fun hp hp' => by simp [hp] at hp')

/-- A statement of the main thread that changes no connection and keeps the setup. -/
theorem PlaceInv.main_step {nd : Node} {m : MainPc} (h : PlaceInv cfg s) (hi : i < cfg.nodeCnt)
    (hst : (s.node i).Steady nd u)
    (hli : nd.listenState = (s.node i).listenState ∨ (s.node i).dramMempool ≠ none)
    (hm : MainOk cfg ((s.setNode i nd).setMain i m) i m) :
    Kept cfg s ((s.setNode i nd).setMain i m) i :=
  h.quiet (c := 0) hi rfl rfl (l := s.loop i) (by simp) (x := s.conn 0) (by simp) rfl hst hli
    (.refl _) (.inl hm) (.inr rfl) (fun hp hp' => by simp [hp] at hp')

theorem place_entry (h : PlaceInv cfg s) (hi : i < cfg.nodeCnt)
    (hm : s.main i = .connect k t .entry) :
    Kept cfg s ((s.setNode i (connectEntry (s.node i) t ((s.node i).config.nodeInfos k).addr
      ((s.node i).config.nodeInfos k).port 1).1).setMain i
        (if ((s.node i).config.nodeInfos k).port = 0 then .loop (k + 1)
          else .connect k t .createId)) i := by
  have hn := h.1 i hi
  obtain ⟨hik, hkn, hpool, ht, hloc, hcm⟩ : MainOk cfg s i (.connect k t .entry) := hm ▸ hn.main
  by_cases hp : ((s.node i).config.nodeInfos k).port = 0
  · have he : (connectEntry (s.node i) t ((s.node i).config.nodeInfos k).addr
        ((s.node i).config.nodeInfos k).port 1).1 = s.node i := by simp [connectEntry, hp]
    rw [if_pos hp, he]
    refine h.main_step hi (.refl _ 0) (.inl rfl) ?_
    exact ⟨by omega, by simpa using hpool⟩
  · have he : ∃ q, (connectEntry (s.node i) t ((s.node i).config.nodeInfos k).addr
        ((s.node i).config.nodeInfos k).port 1).1 = (s.node i).setTrans t
          { (s.node i).trans t with peerAddr := ⟨((s.node i).config.nodeInfos k).addr, q⟩ } :=
      ⟨(((s.node i).config.nodeInfos k).port % 2 ^ 16).toNat,
        by simp [connectEntry, hmpPortUriInit, hp]⟩
    obtain ⟨q, he⟩ := he
    rw [if_neg hp, he]
    have hst := Node.Steady.of_setTrans (s.node i) t (x := { (s.node i).trans t with
      peerAddr := ⟨((s.node i).config.nodeInfos k).addr, q⟩ }) rfl rfl rfl
    refine h.main_step hi hst (.inl rfl) ?_
    refine ⟨hik, hkn, by simpa using hpool, by simpa using ht, ?_, by simpa using hcm,
      by simp [hn.addr]⟩
    simpa using hst.located hloc

theorem setState_sameSetup (nd : Node) (u t : ℕ) (st : TransportState) :
    SameSetup (nd.trans t) ((nd.setState u st).trans t) := by
  by_cases htu : t = u
  · subst htu
    constructor <;> simp
  · exact .of_eq (by simp [htu])

theorem mrStmt_sameSetup (nd : Node) (u data t : ℕ) (stmt : MrStmt) :
    SameSetup (nd.trans t) ((stmt.exec nd u data).trans t) := by
  cases stmt with
  | state => exact setState_sameSetup nd u t .connected
  | _ => exact .of_eq rfl

/-- Every step keeps the placement. -/
theorem PlaceInv.move {e : NodeEvent} (h : PlaceInv cfg s) (hi : i < cfg.nodeCnt)
    (hm : Moves cfg s i e s') : Kept cfg s s' i := by
  have hn := h.1 i hi
  have hmain := hn.main
  cases hm with
  | memInit hm hp => exact place_memInit h hi hm _
  | memExit hm hp =>
    rw [show s.setMain i .exited = (s.setNode i (s.node i)).setMain i .exited by simp [setNode]]
    exact h.main_step hi (.refl _ 0) (.inl rfl) trivial
  | listen hm =>
    rename_i ret
    have hpool : (s.node i).dramMempool ≠ none := by rwa [hm] at hmain
    by_cases hr : ret = 0
    · refine h.main_step (u := 0) hi ?_ (.inr hpool) ?_
      · exact .same (by simp [hmpTransportListen, hr]) (by simp [hmpTransportListen, hr])
          (by simp [hmpTransportListen, hr]) (by simp [hmpTransportListen, hr])
      · simpa [MainOk, hmpTransportListen, hr] using hpool
    · have he : (hmpTransportListen (s.node i) ret).1 = s.node i := by simp [hmpTransportListen, hr]
      rw [he]
      exact h.main_step hi (.refl _ 0) (.inl rfl) (by simpa [MainOk] using hpool)
  | clear hm =>
    have hpool : (s.node i).dramMempool ≠ none := by rwa [hm] at hmain
    refine h.main_step (u := 0) hi (.same rfl rfl le_rfl rfl) (.inl rfl) ?_
    exact ⟨by rw [hn.curnodeId]; exact Nat.lt_succ_self i, by simpa [clearTable] using hpool⟩
  | create hm hk hr => exact place_create h hi hm hk
  | createExit hm hk hr =>
    exact h.main_step (u := 0) hi (.same rfl rfl le_rfl rfl) (.inl rfl) trivial
  | done hm hk =>
    obtain ⟨-, hpool⟩ : MainOk cfg s i (.loop _) := hm ▸ hmain
    rw [show s.setMain i .done = (s.setNode i (s.node i)).setMain i .done by simp [setNode]]
    exact h.main_step hi (.refl _ 0) (.inl rfl) (by simpa [MainOk] using hpool)
  | peer hm => exact place_peer h hi hm
  | entry hm => exact place_entry h hi hm
  | createIdFail hm hr =>
    obtain ⟨hik, hkn, hpool, ht, hloc, hcm, -⟩ : MainOk cfg s i (.connect _ _ .createId) :=
      hm ▸ hmain
    exact h.main_step hi (.of_setTrans _ _ (by simp [hcm]) rfl rfl) (.inl rfl)
      ⟨by omega, by simpa using hpool⟩
  | createId hm hr => exact place_createId h hi hm
  | resolveFail hm hr => exact place_resolveFail h hi hm
  | resolve hm hr hcm => exact place_resolve h hi hm hcm
  | setState hm =>
    obtain ⟨hik, -, hpool, -⟩ : MainOk cfg s i (.connect _ _ .setState) := hm ▸ hmain
    exact h.main_step hi (setState_steady _ _ _) (.inl rfl) ⟨by omega, by simpa using hpool⟩
  | cm hl hcm hx => exact place_cm h hi hcm hx
  | requestFail hc hph hd hli hl hr => exact place_requestFail h hi hc hph hd hr
  | request hc hph hd hli hl => exact place_request h hi hc hph hd hli
  | register hl => exact place_register h hi hl
  | acceptFail hl ha =>
    obtain ⟨-, hcr, -⟩ := accepting_conn h hi hl
    exact place_accept h hi hl ⟨rfl, rfl, rfl, rfl, .inr (.inl ⟨hcr, rfl⟩)⟩ trivial
  | accept hl ha =>
    refine place_accept h hi hl ⟨rfl, rfl, rfl, rfl, ?_⟩ trivial
    split_ifs with hp
    · exact .inr (.inr (.inr (.inr ⟨hp, rfl⟩)))
    · exact .inl rfl
  | requestDone hl =>
    exact h.same_setup hi rfl rfl rfl rfl rfl (setState_steady _ _ _) rfl
      (fun t => setState_sameSetup _ _ t _) (.inl trivial)
  | pollInit hl hq hnd hs hi' =>
    subst hnd
    exact h.same_setup (u := 0) hi rfl rfl rfl rfl rfl (.same rfl rfl le_rfl rfl) rfl
      (fun t => .of_eq rfl) (.inl trivial)
  | poll hl hq hnd hi' =>
    subst hnd
    refine h.same_setup (u := 0) hi rfl rfl (l := s.loop i) (by simp) rfl rfl ?_
      (dispatchWc_sameTable _ _).listenState (fun t => .of_eq ?_) (.inr rfl)
    all_goals rcases dispatchWc_quiet hi' with he | he <;> rw [he]
    all_goals first | rfl | exact .same rfl rfl le_rfl rfl
  | mr hl =>
    refine h.same_setup hi rfl rfl rfl rfl rfl (mrStmt_steady _ _ _ _)
      (mrStmt_sameTable _ _ _ _).listenState (fun t => mrStmt_sameSetup _ _ _ t _) (.inl ?_)
    rename_i stmt
    cases stmt <;> trivial
  | loopExit hl hs =>
    exact h.same_setup (u := 0) (n := s.node i) hi (by simp) rfl rfl rfl rfl (.refl _ _) rfl
      (fun t => .of_eq rfl) (.inl trivial)
  | complete hcm hq ho =>
    exact h.same_setup (u := 0) hi rfl rfl (l := s.loop i) (by simp) rfl rfl
      (.same rfl rfl le_rfl rfl) rfl (fun t => .of_eq rfl) (.inr rfl)
  | send hcm hq ho hs =>
    refine h.quiet (u := 0) hi rfl (m := s.main i) (by simp) (l := s.loop i) (by simp) rfl rfl
      (.same rfl rfl le_rfl rfl) (.inl rfl) (push_progress _ _ _).1
      (.inr ⟨rfl, fun t _ => .of_eq rfl⟩) (.inr rfl) ?_
    intro hp hp'
    rw [(push_progress _ _ _).2, hp] at hp'
    simp at hp'
  | deliver hcm hq hx hlive hlen =>
    refine h.quiet (u := 0) hi rfl (m := s.main i) (by simp) (l := s.loop i) (by simp) rfl rfl
      (.same rfl rfl le_rfl rfl) (.inl rfl) (pop_progress hx).1 (.inr ⟨rfl, fun t _ => .of_eq rfl⟩)
      (.inr rfl) ?_
    intro hp hp'
    rw [(pop_progress hx).2, hp] at hp'
    simp at hp'
  | recvError hq hs =>
    exact h.same_setup (u := 0) hi rfl rfl (l := s.loop i) (by simp) rfl rfl
      (.same rfl rfl le_rfl rfl) rfl (fun t => .of_eq rfl) (.inr rfl)
  | check hc =>
    exact h.same_setup (u := 0) (n := s.node i) hi (by simp) rfl (l := s.loop i) (by simp) rfl rfl
      (.refl _ _) rfl (fun t => .of_eq rfl) (.inr rfl)
  | post hc hnd =>
    obtain ⟨h₁, h₂, h₃, h₄, h₅, -⟩ := rdmaPostOf_frame _ _ _ _ _ _ _ hnd
    exact h.same_setup (u := 0) hi rfl rfl (l := s.loop i) (by simp) rfl rfl
      (.same h₁ h₂ h₃.ge h₄) h₅ (fun t => .of_eq (by rw [h₄])) (.inr rfl)
  | store =>
    exact h.same_setup (u := 0) hi rfl rfl (l := s.loop i) (by simp) rfl rfl
      (.same rfl rfl le_rfl rfl) rfl (fun t => .of_eq rfl) (.inr rfl)

theorem PlaceInv.start (h : Start cfg s) : PlaceInv cfg s := by
  obtain ⟨hnode, hpc, hnc, -⟩ := h
  refine ⟨fun i hi => ?_, fun c hc => by omega⟩
  obtain ⟨id, devs, mem, hid, hn⟩ := hnode i hi
  obtain ⟨hm, hl, -⟩ := hpc i hi
  obtain rfl : i = id := by
    have ha := nodeAt_addr cfg hi
    exact Option.some.inj (ha.symm.trans hid)
  constructor <;> simp [hn, hm, hl, MainOk, LoopOk, ClusterConfig.config]

/-- In every state that the cluster can reach, its transports are placed. -/
theorem PlaceInv.reach {ok : Cluster → ℕ × NodeEvent → Prop} (h : (sys cfg).Reach ok s) :
    PlaceInv cfg s := by
  refine h.inv (fun s₀ h₀ => .start h₀) ?_
  intro s e s' hinv _ hst
  obtain ⟨hi, hm⟩ := step_moves hst
  exact (hinv.move hi hm).inv

end Cluster

end HMP
