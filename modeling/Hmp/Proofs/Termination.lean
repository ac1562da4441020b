import Hmp.Proofs.Handshake
import Mathlib.Algebra.BigOperators.Group.Finset.Basic
import Mathlib.Algebra.Order.BigOperators.Group.Finset

/-! How much of the startup is left to do: every step of the threads and of the adapter makes it
less. -/

namespace HMP

/-- Each entry of the table is a connection, which takes up to 50 steps. -/
def MainPc.toGo (n : ℕ) : MainPc → ℕ
  | .memInit => 50 * n + 4
  | .listen => 50 * n + 3
  | .memset => 50 * n + 2
  | .loop k => 50 * (n - k) + 1
  | .peer k _ .nodeId => 50 * (n - k - 1) + 50
  | .peer k _ .curRecv => 50 * (n - k - 1) + 49
  | .peer k _ .sendAddr => 50 * (n - k - 1) + 48
  | .peer k _ .recvAddr => 50 * (n - k - 1) + 47
  | .connect k _ .entry => 50 * (n - k - 1) + 46
  | .connect k _ .createId => 50 * (n - k - 1) + 45
  | .connect k _ .resolveAddr => 50 * (n - k - 1) + 10
  | .connect k _ .setState => 50 * (n - k - 1) + 9
  | .connect _ _ (.returned _) | .done | .exited => 0

def LoopPc.toGo : LoopPc → ℕ
  | .storing .. => 3
  | .accepting .. => 2
  | .connecting _ => 1
  | .mr _ _ .addr => 4
  | .mr _ _ .length => 3
  | .mr _ _ .rkey => 2
  | .mr _ _ .state => 1
  | .idle | .ended => 0

def ConnPhase.toGo : ConnPhase → ℕ
  | .created => 8
  | .addr => 7
  | .route => 6
  | .requested => 5
  | .answering => 1
  | .accepted | .dead => 0

/-- A send is executed, its completion and that of the receive are polled, and four statements
handle the message. -/
def VerbsQp.toGo (q : VerbsQp) : ℕ := 12 * q.sq.length + 5 * q.cq.length

def Conn.toGo (x : Conn) : ℕ :=
  x.phase.toGo + 13 * (!x.srcEst).toNat + 13 * (!x.dstEst).toNat +
    6 * (x.toDst.length + x.toSrc.length)

namespace Cluster

variable {cfg : ClusterConfig} {s s' : Cluster} {i j k t u c d : ℕ}

def nodeToGo (cfg : ClusterConfig) (s : Cluster) (i : ℕ) : ℕ :=
  (s.main i).toGo cfg.nodeCnt + (s.loop i).toGo

def qpToGo (s : Cluster) (i t : ℕ) : ℕ := ((s.node i).qp t).toGo

def connToGo (s : Cluster) (c : ℕ) : ℕ :=
  (s.conn c).toGo + s.qpToGo (s.conn c).src (s.conn c).srcTrans + (s.conn c).atDst s.qpToGo

def toGo (cfg : ClusterConfig) (s : Cluster) : ℕ :=
  ∑ i ∈ Finset.range cfg.nodeCnt, s.nodeToGo cfg i + ∑ c ∈ Finset.range s.nconn, s.connToGo c

/-! ## The rules -/

/-- Only one summand becomes more. -/
theorem sum_le_step {f g : ℕ → ℕ} {n : ℕ} (hi : i < n) (h : ∀ k < n, k ≠ i → g k ≤ f k) :
    ∑ k ∈ Finset.range n, g k + f i ≤ ∑ k ∈ Finset.range n, f k + g i := by
  have hmem : i ∈ Finset.range n := Finset.mem_range.mpr hi
  have hle : ∑ k ∈ (Finset.range n).erase i, g k ≤ ∑ k ∈ (Finset.range n).erase i, f k := by
    refine Finset.sum_le_sum fun k hk => ?_
    obtain ⟨hki, hkn⟩ := Finset.mem_erase.mp hk
    exact h k (Finset.mem_range.mp hkn) hki
  have hf := Finset.add_sum_erase _ f hmem
  have hg := Finset.add_sum_erase _ g hmem
  omega

theorem nodes_le (hs : Local s s' i c) (hi : i < cfg.nodeCnt) :
    ∑ k ∈ Finset.range cfg.nodeCnt, s'.nodeToGo cfg k + s.nodeToGo cfg i ≤
      ∑ k ∈ Finset.range cfg.nodeCnt, s.nodeToGo cfg k + s'.nodeToGo cfg i := by
  refine sum_le_step hi fun k _ hki => ?_
  rw [nodeToGo, nodeToGo, hs.main k hki, hs.loop k hki]

/-- A connection that the step leaves has no more at its ends than before. -/
theorem connToGo_le (h : Counted s d) (hs : Local s s' i c) (hdc : d ≠ c)
    (hq : ∀ u cm, ((s.node i).trans u).cmId = some cm → cm.conn ≠ c →
      s'.qpToGo i u ≤ s.qpToGo i u) : s'.connToGo d ≤ s.connToGo d := by
  have hend : ∀ k u cm, ((s.node k).trans u).cmId = some cm → cm.conn = d →
      s'.qpToGo k u ≤ s.qpToGo k u := by
    intro k u cm hcm hcd
    by_cases hki : k = i
    · subst hki
      exact hq u cm hcm (hcd ▸ hdc)
    · rw [qpToGo, qpToGo, hs.node k hki]
  have hsrc := hend _ _ _ h.srcId rfl
  have hdst : (s.conn d).atDst s'.qpToGo ≤ (s.conn d).atDst s.qpToGo := by
    unfold Conn.atDst
    split
    · rename_i j u hj hu
      exact hend j u _ (h.dstId j u hj hu) rfl
    · exact le_rfl
  rw [connToGo, connToGo, hs.conn d hdc]
  omega

/-- A step at one connection. -/
theorem toGo_conn (h : Ledger cfg s) (hs : Local s s' i c) (hi : i < cfg.nodeCnt)
    (hc : c < s.nconn) (hn : s'.nconn = s.nconn)
    (hq : ∀ u cm, ((s.node i).trans u).cmId = some cm → cm.conn ≠ c →
      s'.qpToGo i u ≤ s.qpToGo i u)
    (hlt : s'.nodeToGo cfg i + s'.connToGo c < s.nodeToGo cfg i + s.connToGo c) :
    s'.toGo cfg < s.toGo cfg := by
  have h₁ := nodes_le hs hi
  have h₂ : ∑ d ∈ Finset.range s.nconn, s'.connToGo d + s.connToGo c ≤
      ∑ d ∈ Finset.range s.nconn, s.connToGo d + s'.connToGo c :=
    sum_le_step hc fun d hd hdc => connToGo_le (h.2 d hd) hs hdc hq
  rw [toGo, toGo, hn]
  omega

/-- A step that leaves the connections. -/
theorem toGo_quiet {nd : Node} {m : MainPc} {l : LoopPc} (h : Ledger cfg s) (hi : i < cfg.nodeCnt)
    (hnode : s'.node = Function.update s.node i nd)
    (hmain : s'.main = Function.update s.main i m) (hloop : s'.loop = Function.update s.loop i l)
    (hconn : s'.conn = s.conn) (hnconn : s'.nconn = s.nconn) (hqp : nd.qp = (s.node i).qp)
    (hlt : m.toGo cfg.nodeCnt + l.toGo < (s.main i).toGo cfg.nodeCnt + (s.loop i).toGo) :
    s'.toGo cfg < s.toGo cfg := by
  have hs : Local s s' i s.nconn := .of_node hnode hmain hloop hconn hnconn
  have h₁ := nodes_le hs hi
  have h₂ : ∑ d ∈ Finset.range s.nconn, s'.connToGo d ≤ ∑ d ∈ Finset.range s.nconn, s.connToGo d := by
    refine Finset.sum_le_sum fun d hd => ?_
    have hd := Finset.mem_range.mp hd
    refine connToGo_le (h.2 d hd) hs hd.ne fun u _ _ _ => ?_
    rw [qpToGo, qpToGo, hnode, Function.update_self, hqp]
  have h₃ : s'.nodeToGo cfg i = m.toGo cfg.nodeCnt + l.toGo := by
    rw [nodeToGo, hmain, hloop, Function.update_self, Function.update_self]
  have h₄ : s.nodeToGo cfg i = (s.main i).toGo cfg.nodeCnt + (s.loop i).toGo := rfl
  rw [toGo, toGo, hnconn]
  omega

/-- A step at one end of a connection. -/
theorem toGo_end {active : Bool} {nd : Node} {l : LoopPc} {x : Conn} (h : Ledger cfg s)
    (hinv : ClusterInv cfg s) (ht : TableInv cfg s) (hi : i < cfg.nodeCnt)
    (hcm : ((s.node i).trans t).cmId = some ⟨c, active⟩)
    (hnode : s'.node = Function.update s.node i nd) (hmain : s'.main = s.main)
    (hloop : s'.loop = Function.update s.loop i l)
    (hconn : s'.conn = Function.update s.conn c x) (hnconn : s'.nconn = s.nconn)
    (hpr : Progress (s.conn c) x) (hother : ∀ u ≠ t, nd.qp u = (s.node i).qp u)
    (hlt : l.toGo + (nd.qp t).toGo + x.toGo <
      (s.loop i).toGo + ((s.node i).qp t).toGo + (s.conn c).toGo) : s'.toGo cfg < s.toGo cfg := by
  have hc : c < s.nconn := ((hinv.place.1 i hi).ends t _ hcm).1
  have hs : Local s s' i c :=
    .of_eq hnode (m := s.main i) (by rw [hmain, Function.update_eq_self]) hloop hconn hnconn
      (fun _ => hpr.evolves) (fun _ hcr => .inl (hpr.created hcr))
  have hqt : s'.qpToGo i t = (nd.qp t).toGo := by rw [qpToGo, hnode, Function.update_self]
  have hend : ∀ k u, k ≠ i ∨ u ≠ t → s'.qpToGo k u = s.qpToGo k u := by
    intro k u hku
    by_cases hki : k = i
    · subst hki
      rw [qpToGo, hnode, Function.update_self, hother u (hku.resolve_left (by simp))]
      rfl
    · rw [qpToGo, hs.node k hki]
      rfl
  refine toGo_conn h hs hi hc hnconn (fun u cm hu hne => (hend i u (.inr ?_)).le) ?_
  · rintro rfl
    exact hne (by rw [Option.some.inj (hu.symm.trans hcm)])
  have hci : s'.conn c = x := by rw [hconn, Function.update_self]
  have hni : s'.nodeToGo cfg i = (s.main i).toGo cfg.nodeCnt + l.toGo := by
    rw [nodeToGo, hmain, hloop, Function.update_self]
  have hno : s.nodeToGo cfg i = (s.main i).toGo cfg.nodeCnt + (s.loop i).toGo := rfl
  -- the end is the only one where the queues differ
  have hsum : s'.connToGo c + s.qpToGo i t + (s.conn c).toGo =
      s.connToGo c + s'.qpToGo i t + x.toGo := by
    have hat : ∀ f, x.atDst f = (s.conn c).atDst f := by
      intro f
      rw [Conn.atDst, hpr.dst, hpr.dstTrans]
      rfl
    rw [connToGo, connToGo, hci, hpr.src, hpr.srcTrans, hat]
    cases active with
    | true =>
      obtain ⟨-, hsrc, hst⟩ := end_active hinv.place hi hcm
      have hfar : (s.conn c).atDst s'.qpToGo = (s.conn c).atDst s.qpToGo :=
        Conn.atDst_congr fun j u hj _ =>
          hend j u (.inl fun hji => src_ne_dst hinv.place hc hj (hsrc.trans hji.symm))
      rw [hfar, hsrc, hst]
      omega
    | false =>
      obtain ⟨-, hj, hu⟩ := end_passive hinv.place ht hi hcm
      rw [Conn.atDst_some hj hu, Conn.atDst_some hj hu,
        hend _ _ (.inl (src_ne_dst hinv.place hc hj))]
      omega
  have hold : s.qpToGo i t = ((s.node i).qp t).toGo := rfl
  omega

/-! ## The steps -/

theorem toGo_createId (h : Ledger cfg s) (hinv : ClusterInv cfg s) (hi : i < cfg.nodeCnt)
    (hm : s.main i = .connect k t .createId)
    (hs' : s' = ((s.setNode i ((s.node i).setTrans t { (s.node i).trans t with
      cmId := some ⟨s.nconn, true⟩ })).setMain i (.connect k t .resolveAddr)).addConn
        { src := i, srcTrans := t }) : s'.toGo cfg < s.toGo cfg := by
  have hs : Local s s' i s.nconn := by
    rw [hs']
    exact .of_new rfl rfl rfl rfl rfl
  have hqp : ∀ k, (s'.node k).qp = (s.node k).qp := by
    intro k
    by_cases hki : k = i
    · subst hki
      simp [hs']
    · rw [hs.node k hki]
  have h₁ := nodes_le hs hi
  have h₂ : ∑ d ∈ Finset.range s.nconn, s'.connToGo d ≤ ∑ d ∈ Finset.range s.nconn, s.connToGo d := by
    refine Finset.sum_le_sum fun d hd => ?_
    have hd := Finset.mem_range.mp hd
    refine connToGo_le (h.2 d hd) hs hd.ne fun u _ _ _ => ?_
    rw [qpToGo, qpToGo, hqp]
  have h₃ : s'.nodeToGo cfg i = 50 * (cfg.nodeCnt - k - 1) + 10 + (s.loop i).toGo := by
    simp [nodeToGo, hs', MainPc.toGo]
  have h₄ : s.nodeToGo cfg i = 50 * (cfg.nodeCnt - k - 1) + 45 + (s.loop i).toGo := by
    simp [nodeToGo, hm, MainPc.toGo]
  -- the new connection takes 34 steps
  have h₅ : s'.connToGo s.nconn = 34 := by
    obtain ⟨-, -, -, -, -, hcm, -⟩ : MainOk cfg s i (.connect k t .createId) :=
      hm ▸ (hinv.place.1 i hi).main
    have hx : s'.conn s.nconn = { src := i, srcTrans := t } := by simp [hs']
    rw [connToGo, hx, Conn.atDst_none rfl, qpToGo, hqp, (h.1 i hi).unused t hcm]
    rfl
  have hn : s'.nconn = s.nconn + 1 := by rw [hs']; rfl
  rw [toGo, toGo, hn, Finset.sum_range_succ]
  omega

theorem toGo_resolve {cm : CmId} (h : Ledger cfg s) (hinv : ClusterInv cfg s)
    (hi : i < cfg.nodeCnt) (hm : s.main i = .connect k t .resolveAddr)
    (hcm : ((s.node i).trans t).cmId = some cm)
    (hs' : s' = ((s.setNode i (s.node i)).setMain i (.connect k t .setState)).setConn cm.conn
      { s.conn cm.conn with
        phase := .addr, dst := cfg.nodeAt ((s.node i).trans t).peerAddr.addr }) :
    s'.toGo cfg < s.toGo cfg := by
  obtain ⟨c, hcm', hc, hsrc, -, hph, hd⟩ := resolve_dst hinv.place hi hm
  obtain rfl : ⟨c, true⟩ = cm := Option.some.inj (hcm'.symm.trans hcm)
  have hdt := dstTrans_none hinv.place hc (by simp [hph]) (by simp [hph]) (by simp [hph])
  set x : Conn := { s.conn c with
    phase := .addr, dst := cfg.nodeAt ((s.node i).trans t).peerAddr.addr } with hx
  have hnode : s'.node = s.node := by simp [hs', setNode]
  have hci : s'.conn c = x := by simp [hs']
  have hs : Local s s' i c :=
    .of_eq (n := s.node i) (by simp [hnode]) (m := .connect k t .setState) (by rw [hs']; rfl)
      (l := s.loop i) (by simp [hs']) (x := x) (by rw [hs']; rfl) (by rw [hs']; rfl)
      (fun _ => ⟨rfl, rfl, fun j hj => by simp [hd] at hj, fun u hu => hu,
        fun hdead => by simp [hph] at hdead⟩) (fun _ _ => .inr hsrc)
  have hqp : s'.qpToGo = s.qpToGo := by
    funext k u
    rw [qpToGo, qpToGo, hnode]
  refine toGo_conn h hs hi hc (by rw [hs']; rfl) (fun u _ _ _ => by rw [hqp]) ?_
  have h₁ : s'.nodeToGo cfg i = 50 * (cfg.nodeCnt - k - 1) + 9 + (s.loop i).toGo := by
    simp [nodeToGo, hs', MainPc.toGo]
  have h₂ : s.nodeToGo cfg i = 50 * (cfg.nodeCnt - k - 1) + 10 + (s.loop i).toGo := by
    simp [nodeToGo, hm, MainPc.toGo]
  have h₃ : s'.connToGo c + 1 = s.connToGo c := by
    have hxt : x.dstTrans = none := hdt
    rw [connToGo, connToGo, hci, Conn.atDst_none hxt, Conn.atDst_none hdt, hqp]
    simp only [Conn.toGo, hx, hph, ConnPhase.toGo]
    omega
  omega

theorem toGo_request {o : RequestOutcome} (h : Ledger cfg s) (hinv : ClusterInv cfg s)
    (hi : i < cfg.nodeCnt) (hc : c < s.nconn) (hph : (s.conn c).phase = .requested)
    (hd : (s.conn c).dst = some i) (hl : s.loop i = .idle)
    (hs' : s' = ((s.setNode i ((withRequest (s.node i) ⟨c, false⟩
      (hmpDeviceLookup (s.node i) o.verbs)).setQp (s.node i).nextTrans
        { live := true, registered := true })).setConn c
      { s.conn c with phase := .answering, dstTrans := some (s.node i).nextTrans }).setLoop i
        (.storing c (s.node i).nextTrans)) : s'.toGo cfg < s.toGo cfg := by
  have hf := (hinv.place.1 i hi).fresh _ le_rfl
  have hdt := dstTrans_none hinv.place hc (by simp [hph]) (by simp [hph]) (by simp [hph])
  have hne := src_ne_dst hinv.place hc hd
  set T := (s.node i).nextTrans with hT
  set nd := (withRequest (s.node i) ⟨c, false⟩ (hmpDeviceLookup (s.node i) o.verbs)).setQp T
    { live := true, registered := true } with hnd
  set x : Conn := { s.conn c with phase := .answering, dstTrans := some T } with hx
  have hci : s'.conn c = x := by simp [hs']
  have hs : Local s s' i c :=
    .of_eq (n := nd) (by rw [hs']; rfl) (m := s.main i) (by simp [hs'])
      (l := .storing c T) (by rw [hs']; rfl) (by rw [hs']; rfl) (by rw [hs']; rfl)
      (fun hc => request_evolves hinv.place hc hph _) (fun _ hcr => by simp [hph] at hcr)
  have hni : s'.node i = nd := by simp [hs']
  refine toGo_conn h hs hi hc (by rw [hs']; rfl) (fun u cm hu _ => ?_) ?_
  · have hut : u ≠ T := by
      rintro rfl
      simp [hf] at hu
    rw [qpToGo, qpToGo, hni]
    simp [hnd, withRequest, hut]
  have h₁ : s'.nodeToGo cfg i = s.nodeToGo cfg i + 3 := by
    simp [nodeToGo, hs', hl, LoopPc.toGo]
  have h₂ : s'.connToGo c + 4 = s.connToGo c := by
    have hnew : s'.qpToGo i T = 0 := by
      rw [qpToGo, hni, show nd.qp T = { live := true, registered := true } by simp [hnd]]
      rfl
    have hsrc : s'.qpToGo (s.conn c).src (s.conn c).srcTrans =
        s.qpToGo (s.conn c).src (s.conn c).srcTrans := by
      rw [qpToGo, qpToGo, hs.node _ hne]
    have hxs : x.src = (s.conn c).src ∧ x.srcTrans = (s.conn c).srcTrans := ⟨rfl, rfl⟩
    rw [connToGo, connToGo, hci, hxs.1, hxs.2, hsrc, Conn.atDst_some (x := x) hd rfl,
      Conn.atDst_none hdt, hnew]
    simp only [Conn.toGo, hx, hph, ConnPhase.toGo]
    omega
  omega

theorem toGo_cm {e : CmEvent} {cm : CmId} {x : Conn} (h : StartupInv cfg s) (hi : i < cfg.nodeCnt)
    (hcm : ((s.node i).trans t).cmId = some cm) (hok : s.noFailure (i, .cm t e) = true)
    (hx : (s.conn cm.conn).handled cm.active e (hmpHandleEcEvent (s.node i) t e).2 = some x) :
    ((s.setNode i (hmpHandleEcEvent (s.node i) t e).1).setConn cm.conn x).toGo cfg < s.toGo cfg := by
  obtain ⟨c, active⟩ := cm
  have hend : ∀ nd : Node, nd = (hmpHandleEcEvent (s.node i) t e).1 →
      (∀ u ≠ t, nd.qp u = (s.node i).qp u) →
      (nd.qp t).toGo + x.toGo < ((s.node i).qp t).toGo + (s.conn c).toGo →
      ((s.setNode i (hmpHandleEcEvent (s.node i) t e).1).setConn c x).toGo cfg < s.toGo cfg := by
    intro nd hnd hother hlt
    rw [← hnd]
    exact toGo_end h.ledger h.cluster h.table hi hcm rfl rfl (l := s.loop i) (by simp) rfl rfl
      (handled_progress hx).1 hother (by omega)
  cases e with
  | addrResolved verbs route =>
    refine hend _ rfl (fun u _ => by rw [hmpHandleEcEvent, onCmAddrResolved_eq]; rfl) ?_
    rw [hmpHandleEcEvent, onCmAddrResolved_eq]
    simp only [Conn.handled, Option.ite_none_right_eq_some, Option.some.injEq] at hx
    obtain ⟨⟨-, hph⟩, rfl⟩ := hx
    split_ifs <;> simp only [Conn.toGo, hph, ConnPhase.toGo, Node.setTrans_qp] <;> omega
  | routeResolved o =>
    obtain ⟨hq, hp₁, hp₂, hcon⟩ :
        o.qp = 0 ∧ o.recv₁.posted ∧ o.recv₂.posted ∧ o.connect = 0 := by
      simpa [noFailure, and_assoc] using hok
    set nd₀ := (s.node i).setQp t { live := true, registered := true } with hnd₀
    have he : hmpHandleEcEvent (s.node i) t (.routeResolved o) =
        (hmpPrePostRecv nd₀ t o.recv₁ o.recv₂, 0) := by
      rcases onCmRouteResolved_cases (s.node i) t o with ⟨hne, -⟩ | ⟨-, hne, -⟩ | ⟨-, -, he⟩
      · exact absurd hq hne
      · exact absurd hcon hne
      · exact he
    refine hend _ rfl (fun u hu => ?_) ?_
    · rw [he, hmpPrePostRecv_other _ _ _ hu]
      simp [hnd₀, hu]
    · obtain ⟨-, -, hsq, hcq⟩ := hmpPrePostRecv_counts nd₀ t hp₁ hp₂
      have hq₀ : nd₀.qp t = { live := true, registered := true } := by simp [hnd₀]
      have hz : ((hmpPrePostRecv nd₀ t o.recv₁ o.recv₂).qp t).toGo = 0 := by
        rw [VerbsQp.toGo, hsq, hcq, hq₀]
        rfl
      simp only [Conn.handled, Option.ite_none_right_eq_some, Option.some.injEq] at hx
      obtain ⟨⟨-, hph⟩, rfl⟩ := hx
      rw [he, hz]
      simp only [if_true, Conn.toGo, hph, ConnPhase.toGo]
      omega
  | established peer o =>
    set nd₀ := (s.node i).setTrans t { (s.node i).trans t with peerAddr := peer } with hnd₀
    obtain ⟨-, -, hsq, -, hcq⟩ := hmpPostSend_counts nd₀ t (hmpBuildInitMsg nd₀) (o := o) hok
    refine hend (hmpPostSend nd₀ t (hmpBuildInitMsg nd₀) o) rfl
      (fun u hu => hmpPostSend_other nd₀ _ o hu) ?_
    have hqp : nd₀.qp t = (s.node i).qp t := rfl
    rw [VerbsQp.toGo, hsq, hcq, hqp, VerbsQp.toGo]
    simp only [Conn.handled] at hx
    split_ifs at hx with hp ha hse hde
    all_goals
      simp only [Option.some.injEq] at hx
      subst hx
    · simp only [Conn.toGo, Bool.eq_false_iff.mpr hse, Bool.not_false, Bool.not_true,
        Bool.toNat_true, Bool.toNat_false]
      omega
    · simp only [Conn.toGo, Bool.eq_false_iff.mpr hde, Bool.not_false, Bool.not_true,
        Bool.toNat_true, Bool.toNat_false]
      omega
  | connectRequest | disconnected | other => simp [noFailure] at hok

/-- Every step that is not up to the application leaves less to do. -/
theorem toGo_move {e : NodeEvent} (h : StartupInv cfg s) (hi : i < cfg.nodeCnt)
    (hok : OrderlyOwn cfg s (i, e)) (hm : Moves cfg s i e s') : s'.toGo cfg < s.toGo cfg := by
  obtain ⟨⟨⟨hnf, -⟩, -, -⟩, hown⟩ := hok
  have hL := h.ledger
  have hg := hL.1 i hi
  have hnc := (h.cluster.place.1 i hi).nodeCnt
  cases hm with
  | memInit hm hp =>
    exact toGo_quiet hL hi rfl rfl (l := s.loop i) (by simp) rfl rfl rfl
      (by simp only [hm, MainPc.toGo]; omega)
  | memExit hm hp => simp [noFailure, hp] at hnf
  | listen hm =>
    refine toGo_quiet hL hi rfl rfl (l := s.loop i) (by simp) rfl rfl ?_
      (by simp only [hm, MainPc.toGo]; omega)
    unfold hmpTransportListen
    split_ifs <;> rfl
  | clear hm =>
    exact toGo_quiet hL hi rfl rfl (l := s.loop i) (by simp) rfl rfl rfl
      (by simp only [hm, MainPc.toGo]; omega)
  | create hm hk hr =>
    exact toGo_quiet hL hi rfl rfl (l := s.loop i) (by simp) rfl rfl (by rw [peerCreate_eq])
      (by simp only [hm, MainPc.toGo]; omega)
  | createExit hm hk hr => simp [noFailure, hm, hr] at hnf
  | done hm hk =>
    exact toGo_quiet hL hi (show _ = Function.update s.node i (s.node i) by simp) rfl
      (l := s.loop i) (by simp) rfl rfl rfl
      (by simp only [hm, MainPc.toGo]; omega)
  | peer hm =>
    rename_i ret k t stmt
    refine toGo_quiet hL hi rfl rfl (l := s.loop i) (by simp) rfl rfl (by cases stmt <;> rfl) ?_
    cases stmt <;> simp only [hm, PeerStmt.next, MainPc.toGo] <;> omega
  | entry hm =>
    rename_i ret k t
    have hport : ((s.node i).config.nodeInfos k).port ≠ 0 := by simpa [noFailure, hm] using hnf
    rw [if_neg hport]
    refine toGo_quiet hL hi rfl rfl (l := s.loop i) (by simp) rfl rfl ?_
      (by simp only [hm, MainPc.toGo]; omega)
    simp [connectEntry, hmpPortUriInit, hport]
  | createIdFail hm hr => simp [noFailure, hm, hr] at hnf
  | createId hm hr => exact toGo_createId hL h.cluster hi hm rfl
  | resolveFail hm hr => simp [noFailure, hm, hr] at hnf
  | resolve hm hr hcm => exact toGo_resolve hL h.cluster hi hm hcm rfl
  | setState hm =>
    rename_i ret k t
    refine toGo_quiet hL hi rfl rfl (l := s.loop i) (by simp) rfl rfl rfl ?_
    simp only [hm, MainPc.toGo]
    omega
  | cm hl hcm hx => exact toGo_cm h hi hcm hnf hx
  | requestFail hc hph hd hli hl hr => exact absurd hr (noFailure_request hnf)
  | request hc hph hd hli hl => exact toGo_request hL h.cluster hi hc hph hd hl rfl
  | register hl =>
    obtain ⟨-, -, -, -, -, hqp, -⟩ := requestRegister_frame ..
    exact toGo_quiet hL hi rfl (m := s.main i) (by simp) rfl rfl rfl hqp
      (by simp only [hl, LoopPc.toGo]; omega)
  | acceptFail hl ha => simp [noFailure, ha] at hnf
  | accept hl ha =>
    rename_i c t o
    simp only [noFailure, decide_eq_true_eq] at hnf
    obtain ⟨-, -, -, -, hcm, -⟩ := accepting_conn h.cluster.place hi hl
    obtain ⟨hc, hd, hdt⟩ := end_passive h.cluster.place h.table hi hcm
    have hph : (s.conn c).phase = .answering := by
      rw [(hL.2 c hc).answering i t hd hdt, hl]
      exact ⟨rfl, rfl⟩
    obtain ⟨-, -, hsq, hcq⟩ := hmpPrePostRecv_counts (s.node i) t hnf.1 hnf.2.1
    rw [if_pos hph]
    refine toGo_end hL h.cluster h.table hi hcm rfl rfl rfl rfl rfl
      ⟨rfl, rfl, rfl, rfl, .inr (.inr (.inr (.inr ⟨hph, rfl⟩)))⟩
      (fun u hu => hmpPrePostRecv_other _ _ _ hu) ?_
    simp only [VerbsQp.toGo, hsq, hcq, hl, LoopPc.toGo, Conn.toGo, hph, ConnPhase.toGo]
    omega
  | requestDone hl =>
    exact toGo_quiet hL hi rfl (m := s.main i) (by simp) rfl rfl rfl rfl
      (by simp only [hl, LoopPc.toGo]; omega)
  | pollInit hl hq hnd hs hinit =>
    rename_i t wc rest nd
    obtain ⟨cm, hcm⟩ := hL.cmId_of_cq hi hq
    refine toGo_end hL h.cluster h.table hi hcm rfl rfl rfl (Function.update_eq_self _ _).symm rfl
      (.refl _) (fun u hu => by simp [hnd, hu]) ?_
    simp [VerbsQp.toGo, hnd, hq, hl, LoopPc.toGo]
    omega
  | poll hl hq hnd hinit =>
    rename_i t wc rest nd
    obtain ⟨cm, hcm⟩ := hL.cmId_of_cq hi hq
    have hqp : (dispatchWc nd wc).qp =
        Function.update (s.node i).qp t { (s.node i).qp t with cq := rest } := by
      rw [(dispatchWc_frame nd wc).1, hnd]
      rfl
    refine toGo_end hL h.cluster h.table hi hcm rfl rfl (l := s.loop i) (by simp)
      (Function.update_eq_self _ _).symm rfl (.refl _) (fun u hu => by simp [hqp, hu]) ?_
    simp [VerbsQp.toGo, hqp, hq]
  | mr hl =>
    rename_i t data stmt
    refine toGo_quiet hL hi rfl (m := s.main i) (by simp) rfl rfl rfl (by cases stmt <;> rfl) ?_
    cases stmt <;> simp only [hl, MrStmt.next, LoopPc.toGo] <;> omega
  | loopExit hl hs => simp [hg.running] at hs
  | complete hcm hq ho =>
    refine toGo_end hL h.cluster h.table hi hcm rfl rfl (l := s.loop i) (by simp)
      (Function.update_eq_self _ _).symm rfl (.refl _) (fun u hu => by simp [hu]) ?_
    simp [VerbsQp.toGo, hq]
    omega
  | send hcm hq ho hs =>
    rename_i t status sent cm wr rest
    obtain ⟨hpr, hpx⟩ := push_progress (s.conn cm.conn) cm.active
      ((s.node i).mem.read wr.sge.addr wr.sge.length)
    refine toGo_end hL h.cluster h.table hi hcm rfl rfl (l := s.loop i) (by simp) rfl rfl hpr
      (fun u hu => by simp [hu]) ?_
    have hx : ∀ bytes, ((s.conn cm.conn).push cm.active bytes).toGo = (s.conn cm.conn).toGo + 6 := by
      intro bytes
      simp only [Conn.toGo, Conn.push]
      split_ifs <;> simp only [List.length_append, List.length_singleton] <;> omega
    rw [hx]
    simp [VerbsQp.toGo, hq]
    omega
  | deliver hcm hq hx hlive hlen =>
    rename_i t cm wr rest bytes x
    obtain ⟨hpr, hpx⟩ := pop_progress hx
    refine toGo_end hL h.cluster h.table hi hcm rfl rfl (l := s.loop i) (by simp) rfl rfl hpr
      (fun u hu => by simp [hu]) ?_
    have hx' : x.toGo + 6 = (s.conn cm.conn).toGo := by
      obtain ⟨hse, hde⟩ := pop_est hx
      rcases pop_some hx with ⟨-, h₁, h₂⟩ | ⟨-, h₁, h₂⟩ <;>
        · simp only [Conn.toGo, hpx, hse, hde, h₁, h₂, List.length_cons]
          omega
    simp [VerbsQp.toGo]
    omega
  | recvError hq hs => simp [noFailure] at hnf
  | check | post | store => simp [ownStep] at hown

/-- At the start, 50 steps for each two nodes, and four for each node. -/
theorem toGo_start (h : Start cfg s) : s.toGo cfg = cfg.nodeCnt * (50 * cfg.nodeCnt + 4) := by
  obtain ⟨-, hpc, hnc, -⟩ := h
  have hnode : ∀ i ∈ Finset.range cfg.nodeCnt, s.nodeToGo cfg i = 50 * cfg.nodeCnt + 4 := by
    intro i hi
    obtain ⟨hm, hl, -⟩ := hpc i (Finset.mem_range.mp hi)
    rw [nodeToGo, hm, hl]
    rfl
  rw [toGo, hnc, Finset.sum_const_nat hnode, Finset.card_range]
  rfl

end Cluster

end HMP
