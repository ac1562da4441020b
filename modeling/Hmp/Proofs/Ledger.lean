import Hmp.Proofs.MrAgreement
import Hmp.Proofs.Table
import Hmp.Sanity.Counts
import Hmp.Spec.FullMesh

/-! Where the INIT message of each end of a connection is: as long as nothing fails it is counted
exactly once, from the handling of ESTABLISHED on to the other end being CONNECTED. -/

namespace HMP

/-- The value of `f` at the passive end, 0 where there is none yet. -/
def Conn.atDst (x : Conn) (f : ℕ → ℕ → ℕ) : ℕ :=
  match x.dst, x.dstTrans with
  | some j, some u => f j u
  | _, _ => 0

theorem Conn.atDst_some {x : Conn} {f : ℕ → ℕ → ℕ} {j u : ℕ} (hj : x.dst = some j)
    (hu : x.dstTrans = some u) : x.atDst f = f j u := by
  rw [Conn.atDst, hj, hu]

theorem Conn.atDst_none {x : Conn} {f : ℕ → ℕ → ℕ} (hu : x.dstTrans = none) : x.atDst f = 0 := by
  rw [Conn.atDst, hu]
  split
  · rename_i h
    cases h
  · rfl

theorem Conn.atDst_congr {x : Conn} {f g : ℕ → ℕ → ℕ}
    (h : ∀ j u, x.dst = some j → x.dstTrans = some u → f j u = g j u) : x.atDst f = x.atDst g := by
  unfold Conn.atDst
  split
  · rename_i j u hj hu
    exact h j u hj hu
  · rfl

/-- The messages that have left an end, and whether it has handled ESTABLISHED. -/
def Conn.out (x : Conn) (active : Bool) : List (List UInt8) := if active then x.toDst else x.toSrc

def Conn.est (x : Conn) (active : Bool) : Bool := if active then x.srcEst else x.dstEst

namespace Cluster

variable {cfg : ClusterConfig} {s s' : Cluster} {i j k t u c d : ℕ}

/-- What holds of a node while nothing fails. -/
structure Going (cfg : ClusterConfig) (nd : Node) (m : MainPc) (l : LoopPc) : Prop where
  running : nd.stop = false
  devices : nd.devList ≠ []
  port : ∀ k, (nd.config.nodeInfos k).port = (cfg.nodeInfos k).port
  main : m.goesOn
  loop : l ≠ .ended
  listening : m ≠ .memInit → m ≠ .listen → nd.listenState = .listen
  unused : ∀ t, (nd.trans t).cmId = none → nd.qp t = {}
  entry : ∀ k t, m.entry = some (k, t) → (nd.trans t).transState ≠ .connected
  answering : ∀ t, l.answers t → (nd.trans t).transState ≠ .connected
  room : ∀ t, ∀ wr ∈ (nd.qp t).rq, wr.sge.length = HMP_TASK_SIZE

def sendsOf (s : Cluster) (i t : ℕ) : ℕ := ((s.node i).qp t).sends

def gotOf (s : Cluster) (i t : ℕ) : ℕ := (s.node i).got (s.loop i) t

/-- What is under way on connection `c`. -/
structure Counted (s : Cluster) (c : ℕ) : Prop where
  srcId : ((s.node (s.conn c).src).trans (s.conn c).srcTrans).cmId = some ⟨c, true⟩
  dstId : ∀ j u, (s.conn c).dst = some j → (s.conn c).dstTrans = some u →
    ((s.node j).trans u).cmId = some ⟨c, false⟩
  est : (s.conn c).phase ≠ .accepted → (s.conn c).srcEst = false ∧ (s.conn c).dstEst = false
  toDst : (s.conn c).toDst.length + s.sendsOf (s.conn c).src (s.conn c).srcTrans +
    (s.conn c).atDst s.gotOf = (s.conn c).srcEst.toNat
  toSrc : (s.conn c).toSrc.length + (s.conn c).atDst s.sendsOf +
    s.gotOf (s.conn c).src (s.conn c).srcTrans = (s.conn c).dstEst.toNat
  srcRq : (s.conn c).phase = .requested ∨ (s.conn c).phase = .answering ∨
      (s.conn c).phase = .accepted →
    ((s.node (s.conn c).src).qp (s.conn c).srcTrans).live = true ∧
      ((s.node (s.conn c).src).qp (s.conn c).srcTrans).rq.length +
        s.gotOf (s.conn c).src (s.conn c).srcTrans = 2
  dstRq : ∀ j u, (s.conn c).dst = some j → (s.conn c).dstTrans = some u →
    ((s.node j).qp u).live = true ∧
      ((s.conn c).phase = .answering → ((s.node j).qp u).rq.length = 0) ∧
      ((s.conn c).phase = .accepted → ((s.node j).qp u).rq.length + s.gotOf j u = 2)
  created : (s.conn c).phase = .created →
    ∃ k, s.main (s.conn c).src = .connect k (s.conn c).srcTrans .resolveAddr
  asked : (s.conn c).phase = .answering → (s.conn c).dstTrans ≠ none
  answering : ∀ j u, (s.conn c).dst = some j → (s.conn c).dstTrans = some u →
    ((s.conn c).phase = .answering ↔ (s.loop j).replies c u)

def Ledger (cfg : ClusterConfig) (s : Cluster) : Prop :=
  (∀ i < cfg.nodeCnt, Going cfg (s.node i) (s.main i) (s.loop i)) ∧ ∀ c < s.nconn, Counted s c

/-! ## The rules -/

/-- Without a passive end nothing is under way but at the active end. -/
theorem Counted.toDst_active (h : Counted s c) (hdt : (s.conn c).dstTrans = none) :
    (s.conn c).toDst.length + s.sendsOf (s.conn c).src (s.conn c).srcTrans =
      (s.conn c).srcEst.toNat := by
  have h₁ := h.toDst
  rwa [Conn.atDst_none hdt] at h₁

theorem Counted.toSrc_active (h : Counted s c) (hdt : (s.conn c).dstTrans = none) :
    (s.conn c).toSrc.length + s.gotOf (s.conn c).src (s.conn c).srcTrans =
      (s.conn c).dstEst.toNat := by
  have h₂ := h.toSrc
  rwa [Conn.atDst_none hdt] at h₂

theorem Counted.of_active {x : Conn} (hc : s.conn c = x) (hdt : x.dstTrans = none)
    (hid : ((s.node x.src).trans x.srcTrans).cmId = some ⟨c, true⟩)
    (hest : x.srcEst = false ∧ x.dstEst = false)
    (h₁ : x.toDst.length + s.sendsOf x.src x.srcTrans = x.srcEst.toNat)
    (h₂ : x.toSrc.length + s.gotOf x.src x.srcTrans = x.dstEst.toNat)
    (hrq : x.phase = .requested ∨ x.phase = .answering ∨ x.phase = .accepted →
      ((s.node x.src).qp x.srcTrans).live = true ∧
        ((s.node x.src).qp x.srcTrans).rq.length + s.gotOf x.src x.srcTrans = 2)
    (hcr : x.phase = .created → ∃ k, s.main x.src = .connect k x.srcTrans .resolveAddr)
    (hph : x.phase ≠ .answering) : Counted s c := by
  subst hc
  have hno : ∀ u, (s.conn c).dstTrans ≠ some u := fun u hu => by simp [hdt] at hu
  refine ⟨hid, fun _ u _ hu => absurd hu (hno u), fun _ => hest, ?_, ?_, hrq,
    fun _ u _ hu => absurd hu (hno u), hcr, fun h => absurd h hph, fun _ u _ hu => absurd hu (hno u)⟩
  · rw [Conn.atDst_none hdt]
    exact h₁
  · rw [Conn.atDst_none hdt]
    exact h₂

/-- Nothing happens at the ends of connection `d`. -/
theorem Counted.carry (h : Counted s d) (hc : s'.conn d = s.conn d)
    (hends : ∀ k u cm, ((s.node k).trans u).cmId = some cm → cm.conn = d →
      (s.node k).SameEnd (s.loop k) (s'.node k) (s'.loop k) u)
    (hmain : ∀ k p u, s.main k = .connect p u .resolveAddr →
      ((s.node k).trans u).cmId = some ⟨d, true⟩ → s'.main k = s.main k)
    (hloop : ∀ k u, (s'.loop k).replies d u ↔ (s.loop k).replies d u) : Counted s' d := by
  have hsrc := hends _ _ _ h.srcId rfl
  have hdst := fun j u hj hu => hends j u _ (h.dstId j u hj hu) rfl
  have hgot : (s.conn d).atDst s'.gotOf = (s.conn d).atDst s.gotOf :=
    Conn.atDst_congr fun j u hj hu => (hdst j u hj hu).got
  have hsends : (s.conn d).atDst s'.sendsOf = (s.conn d).atDst s.sendsOf :=
    Conn.atDst_congr fun j u hj hu => (hdst j u hj hu).sends
  refine ⟨?_, ?_, ?_, ?_, ?_, ?_, ?_, ?_, ?_, ?_⟩ <;> rw [hc]
  · rw [hsrc.cmId, h.srcId]
  · intro j u hj hu
    rw [(hdst j u hj hu).cmId, h.dstId j u hj hu]
  · exact h.est
  · rw [hgot, sendsOf, hsrc.sends]
    exact h.toDst
  · rw [hsends, gotOf, hsrc.got]
    exact h.toSrc
  · rw [hsrc.live, hsrc.rq, gotOf, hsrc.got]
    exact h.srcRq
  · intro j u hj hu
    have hs := hdst j u hj hu
    rw [hs.live, hs.rq, gotOf, hs.got]
    exact h.dstRq j u hj hu
  · intro hph
    obtain ⟨p, hp⟩ := h.created hph
    exact ⟨p, (hmain _ p _ hp h.srcId).trans hp⟩
  · exact h.asked
  · intro j u hj hu
    rw [h.answering j u hj hu, hloop j u]

/-- The rule for a step of node `i`: what is left to show is about node `i` and connection `c`. -/
theorem Ledger.step (h : Ledger cfg s) (hs : Local s s' i c)
    (hends : ∀ u cm, ((s.node i).trans u).cmId = some cm → cm.conn ≠ c →
      (s.node i).SameEnd (s.loop i) (s'.node i) (s'.loop i) u)
    (hmain : ∀ p u, s.main i = .connect p u .resolveAddr → s'.main i = s.main i ∨
      ∃ cm, ((s.node i).trans u).cmId = some cm ∧ cm.conn = c)
    (hloop : ∀ d u, d ≠ c → ((s'.loop i).replies d u ↔ (s.loop i).replies d u))
    (hn : Going cfg (s'.node i) (s'.main i) (s'.loop i)) (hc : c < s'.nconn → Counted s' c) :
    Ledger cfg s' := by
  refine ⟨fun k hk => ?_, fun d hd => ?_⟩
  · by_cases hki : k = i
    · exact hki ▸ hn
    · rw [hs.node k hki, hs.main k hki, hs.loop k hki]
      exact h.1 k hk
  · by_cases hdc : d = c
    · exact hdc ▸ hc (hdc ▸ hd)
    · refine (h.2 d ((hs.new d hd).resolve_right hdc)).carry (hs.conn d hdc) ?_ ?_ ?_
      · intro k u cm hcm hcd
        by_cases hki : k = i
        · subst hki
          exact hends u cm hcm (hcd ▸ hdc)
        · rw [hs.node k hki, hs.loop k hki]
          exact .refl ..
      · intro k p u hm hcm
        by_cases hki : k = i
        · subst hki
          refine (hmain p u hm).resolve_right ?_
          rintro ⟨cm, hcm', hcc⟩
          obtain rfl := Option.some.inj (hcm.symm.trans hcm')
          exact hdc hcc
        · exact hs.main k hki
      · intro k u
        by_cases hki : k = i
        · subst hki
          exact hloop d u hdc
        · rw [hs.loop k hki]

/-- A step that leaves the connections, and as much under way as before at every end of its node. -/
theorem Ledger.quiet {nd : Node} {m : MainPc} {l : LoopPc} (h : Ledger cfg s)
    (hnode : s'.node = Function.update s.node i nd)
    (hmain : s'.main = Function.update s.main i m) (hloop : s'.loop = Function.update s.loop i l)
    (hconn : s'.conn = s.conn) (hnconn : s'.nconn = s.nconn)
    (hends : ∀ u, (s.node i).SameEnd (s.loop i) nd l u)
    (hm : ∀ p u, s.main i = .connect p u .resolveAddr → m = s.main i)
    (hl : ∀ d u, l.replies d u ↔ (s.loop i).replies d u) (hg : Going cfg nd m l) :
    Ledger cfg s' := by
  have hs : Local s s' i s.nconn := .of_node hnode hmain hloop hconn hnconn
  have hni : s'.node i = nd := by rw [hnode, Function.update_self]
  have hmi : s'.main i = m := by rw [hmain, Function.update_self]
  have hli : s'.loop i = l := by rw [hloop, Function.update_self]
  refine h.step hs (fun u _ _ _ => ?_) (fun p u hp => .inl ?_) (fun d u _ => ?_) ?_ (fun hc => ?_)
  · rw [hni, hli]
    exact hends u
  · rw [hmi]
    exact hm p u hp
  · rw [hli]
    exact hl d u
  · rw [hni, hmi, hli]
    exact hg
  · exact absurd (hnconn ▸ hc) (lt_irrefl _)

/-- A node whose site stays as it is, and whose threads go on. -/
theorem Going.on {nd nd' : Node} {m m' : MainPc} {l l' : LoopPc} (h : Going cfg nd m l)
    (hsite : nd.SameSite nd')
    (hqp : ∀ t, (nd'.trans t).cmId = none → (nd.trans t).cmId = none ∧ nd'.qp t = nd.qp t)
    (hst : ∀ t, (nd'.trans t).transState = .connected → (nd.trans t).transState = .connected)
    (hroom : ∀ t, ∀ wr ∈ (nd'.qp t).rq, wr ∈ (nd.qp t).rq ∨ wr.sge.length = HMP_TASK_SIZE)
    (hm : m'.goesOn) (hml : m' ≠ .memInit → m' ≠ .listen → m ≠ .memInit ∧ m ≠ .listen)
    (hme : ∀ e, m'.entry = some e → m.entry = some e) (hl : l' ≠ .ended)
    (hla : ∀ t, l'.answers t → l.answers t) : Going cfg nd' m' l' where
  running := hsite.stop.trans h.running
  devices := hsite.devList ▸ h.devices
  port := fun k => (hsite.port k).trans (h.port k)
  main := hm
  loop := hl
  listening := fun h₁ h₂ => hsite.listenState.trans
    (h.listening (hml h₁ h₂).1 (hml h₁ h₂).2)
  unused := fun t ht => (hqp t ht).2.trans (h.unused t (hqp t ht).1)
  entry := fun k t he hc => h.entry k t (hme _ he) (hst t hc)
  answering := fun t ha hc => h.answering t (hla t ha) (hst t hc)
  room := fun t wr hw => (hroom t wr hw).elim (h.room t wr) id

/-! ## The main thread -/

/-- A transport that nobody has connected is not CONNECTED, and no message of it is handled. -/
theorem not_connected_of_cmId (h : ClusterInv cfg s) (hi : i < cfg.nodeCnt)
    (hcm : ((s.node i).trans t).cmId = none) :
    ((s.node i).trans t).transState ≠ .connected ∧ (s.loop i).handles t = 0 := by
  have hno : ∀ j, ¬ Placed cfg s i t j := by
    intro j hp
    obtain ⟨cm, hcm', -⟩ := hp.cmId
    simp [hcm] at hcm'
  refine ⟨fun hc => ?_, ?_⟩
  · obtain ⟨j, hp, -⟩ := h.mr.connected i hi t hc
    exact hno j hp
  · cases hl : s.loop i with
    | mr u data stmt =>
      refine if_neg ?_
      rintro rfl
      obtain ⟨j, hp, -⟩ := h.mr.handling i hi u data stmt hl
      exact hno j hp
    | _ => rfl

/-- A statement of the main thread that leaves the queue pairs. -/
theorem Ledger.main_step {nd : Node} {m : MainPc} (h : Ledger cfg s) (hi : i < cfg.nodeCnt)
    (hs' : s' = (s.setNode i nd).setMain i m) (hsite : (s.node i).SameSite nd)
    (hqp : nd.qp = (s.node i).qp)
    (hcm : ∀ u, (nd.trans u).cmId = ((s.node i).trans u).cmId)
    (hst : ∀ u, (nd.trans u).transState = .connected ↔
      ((s.node i).trans u).transState = .connected)
    (hr : ∀ p u, s.main i ≠ .connect p u .resolveAddr) (hm : m.goesOn)
    (hml : m ≠ .memInit → m ≠ .listen → s.main i ≠ .memInit ∧ s.main i ≠ .listen)
    (hme : ∀ e, m.entry = some e → (s.main i).entry = some e) : Ledger cfg s' := by
  subst hs'
  have hg := h.1 i hi
  refine h.quiet rfl rfl (l := s.loop i) (by simp) rfl rfl
    (fun u => .of_qp (hcm u) (by rw [hqp]) (hst u) rfl) (fun p u hp => absurd hp (hr p u))
    (fun _ _ => .rfl) ?_
  exact hg.on hsite (fun u hu => ⟨hcm u ▸ hu, by rw [hqp]⟩) (fun u => (hst u).mp)
    (fun u wr hw => .inl (by rwa [hqp] at hw)) hm hml hme hg.loop (fun _ => id)

theorem ledger_listen {ret : ℤ} (h : Ledger cfg s) (hi : i < cfg.nodeCnt) (hm : s.main i = .listen)
    (hr : ret = 0) :
    Ledger cfg ((s.setNode i (hmpTransportListen (s.node i) ret).1).setMain i .memset) := by
  have hg := h.1 i hi
  have hnd : (hmpTransportListen (s.node i) ret).1 = { s.node i with listenState := .listen } := by
    rw [hmpTransportListen, if_neg (not_not.mpr hr)]
  rw [hnd]
  refine h.quiet rfl rfl (l := s.loop i) (by simp) rfl rfl (fun u => .of_qp rfl rfl .rfl rfl)
    (fun p u hp => by simp [hm] at hp) (fun _ _ => .rfl) ?_
  exact ⟨hg.running, hg.devices, hg.port, trivial, hg.loop, fun _ _ => rfl, hg.unused, (fun _ _ he => by cases he),
    hg.answering, hg.room⟩

theorem ledger_create (h : Ledger cfg s) (hinv : ClusterInv cfg s) (hi : i < cfg.nodeCnt)
    (hm : s.main i = .loop k) :
    Ledger cfg ((s.setNode i (peerCreate (s.node i) k true).1).setMain i
      (.peer k (s.node i).nextTrans .nodeId)) := by
  have hg := h.1 i hi
  have hf := (hinv.place.1 i hi).fresh _ le_rfl
  have hlis := hg.listening (by simp [hm]) (by simp [hm])
  obtain ⟨hno, -⟩ := not_connected_of_cmId hinv hi hf
  rw [peerCreate_eq]
  have hcm : ∀ u, ((Function.update (s.node i).trans (s.node i).nextTrans {} u).cmId =
      ((s.node i).trans u).cmId) := by
    intro u
    by_cases hu : u = (s.node i).nextTrans
    · subst hu
      rw [Function.update_self, hf]
    · rw [Function.update_of_ne hu]
  have hst : ∀ u, (Function.update (s.node i).trans (s.node i).nextTrans {} u).transState =
      .connected ↔ ((s.node i).trans u).transState = .connected := by
    intro u
    by_cases hu : u = (s.node i).nextTrans
    · subst hu
      rw [Function.update_self]
      exact ⟨(fun hc => by cases hc), fun hc => absurd hc hno⟩
    · rw [Function.update_of_ne hu]
  refine h.quiet rfl rfl (l := s.loop i) (by simp) rfl rfl
    (fun u => .of_qp (hcm u) rfl (hst u) rfl) (fun p u hp => by simp [hm] at hp) (fun _ _ => .rfl) ?_
  refine ⟨hg.running, hg.devices, hg.port, trivial, hg.loop, fun _ _ => hlis,
    fun u hu => hg.unused u ((hcm u).symm.trans hu), fun j u he => ?_,
    fun u ha hc => hg.answering u ha ((hst u).mp hc), hg.room⟩
  obtain ⟨-, rfl⟩ : k = j ∧ (s.node i).nextTrans = u := by simpa [MainPc.entry] using he
  exact fun hc => hno ((hst _).mp hc)

theorem ledger_createId (h : Ledger cfg s) (hinv : ClusterInv cfg s) (hi : i < cfg.nodeCnt)
    (hm : s.main i = .connect k t .createId) :
    Ledger cfg (((s.setNode i ((s.node i).setTrans t { (s.node i).trans t with
      cmId := some ⟨s.nconn, true⟩ })).setMain i (.connect k t .resolveAddr)).addConn
        { src := i, srcTrans := t }) := by
  have hg := h.1 i hi
  obtain ⟨-, -, -, -, -, hcm, -⟩ : MainOk cfg s i (.connect k t .createId) :=
    hm ▸ (hinv.place.1 i hi).main
  obtain ⟨hno, hhand⟩ := not_connected_of_cmId hinv hi hcm
  have hqt := hg.unused t hcm
  set nd := (s.node i).setTrans t { (s.node i).trans t with cmId := some ⟨s.nconn, true⟩ } with hnd
  set s' := ((s.setNode i nd).setMain i (.connect k t .resolveAddr)).addConn
    { src := i, srcTrans := t } with hs'
  have hni : s'.node i = nd := by simp [hs']
  have hmi : s'.main i = .connect k t .resolveAddr := by simp [hs']
  have hli : s'.loop i = s.loop i := rfl
  have hci : s'.conn s.nconn = { src := i, srcTrans := t } := by simp [hs']
  have hst : ∀ u, (nd.trans u).transState = ((s.node i).trans u).transState := by
    intro u
    by_cases hu : u = t
    · subst hu
      simp [hnd]
    · simp [hnd, hu]
  refine h.step (.of_new rfl rfl rfl rfl rfl) (fun u cm hu _ => ?_) (fun p u hp => by simp [hm] at hp)
    (fun _ _ _ => .rfl) ?_ (fun _ => ?_)
  · have hut : u ≠ t := by
      rintro rfl
      simp [hcm] at hu
    rw [hni, hli]
    exact .of_qp (by simp [hnd, hut]) rfl (by rw [hst]) rfl
  · rw [hni, hmi, hli]
    refine hg.on (.of_eq rfl rfl rfl rfl) (fun u hu => ?_) (fun u hu => hst u ▸ hu)
      (fun u wr hw => .inl hw) trivial (fun _ _ => by simp [hm]) (fun e he => by rw [hm]; exact he)
      hg.loop (fun _ => id)
    have hut : u ≠ t := by
      rintro rfl
      simp [hnd] at hu
    exact ⟨by simpa [hnd, hut] using hu, rfl⟩
  · -- a new connection has nothing under way
    have hsends : s'.sendsOf i t = 0 := by
      rw [sendsOf, hni, show nd.qp t = {} from hqt]
      rfl
    have hgot : s'.gotOf i t = 0 := by
      rw [gotOf, hni, hli, Node.got, show nd.qp t = {} from hqt, hhand, hst, if_neg hno]
      rfl
    refine .of_active hci rfl ?_ ⟨rfl, rfl⟩ (by rw [hsends]; rfl) (by rw [hgot]; rfl) (by simp)
      (fun _ => ⟨k, hmi⟩) (by simp)
    rw [hni]
    simp [hnd]

/-- A connection whose request has not come in has no passive end yet. -/
theorem dstTrans_none (h : PlaceInv cfg s) (hc : c < s.nconn) (ha : (s.conn c).phase ≠ .answering)
    (hacc : (s.conn c).phase ≠ .accepted) (hd : (s.conn c).phase ≠ .dead) :
    (s.conn c).dstTrans = none := by
  by_contra hne
  rcases (h.2 c hc).early hne with hp | hp | hp
  · exact ha hp
  · exact hacc hp
  · exact hd hp

theorem ledger_resolve {cm : CmId} (h : Ledger cfg s) (hinv : ClusterInv cfg s)
    (hi : i < cfg.nodeCnt) (hm : s.main i = .connect k t .resolveAddr)
    (hcm : ((s.node i).trans t).cmId = some cm) :
    Ledger cfg (((s.setNode i (s.node i)).setMain i (.connect k t .setState)).setConn cm.conn
      { s.conn cm.conn with
        phase := .addr, dst := cfg.nodeAt ((s.node i).trans t).peerAddr.addr }) := by
  have hg := h.1 i hi
  obtain ⟨c, hcm', hc, hsrc, -, hph, hd⟩ := resolve_dst hinv.place hi hm
  obtain rfl : ⟨c, true⟩ = cm := Option.some.inj (hcm'.symm.trans hcm)
  have hdt := dstTrans_none hinv.place hc (by simp [hph]) (by simp [hph]) (by simp [hph])
  have hcount := h.2 c hc
  set x : Conn := { s.conn c with
    phase := .addr, dst := cfg.nodeAt ((s.node i).trans t).peerAddr.addr } with hx
  set s' := ((s.setNode i (s.node i)).setMain i (.connect k t .setState)).setConn c x with hs'
  have hnode : s'.node = s.node := by simp [hs', setNode]
  have hloop : s'.loop = s.loop := rfl
  have hmi : s'.main i = .connect k t .setState := by simp [hs']
  have hci : s'.conn c = x := by simp [hs']
  have hxt : x.dstTrans = none := hdt
  have hs : Local s s' i c := by
    refine .of_eq (n := s.node i) (by simp [hs']) rfl (l := s.loop i) (by simp [hs']) rfl rfl
      (fun _ => ⟨rfl, rfl, fun j hj => by simp [hd] at hj, fun u hu => hu,
        fun hdead => by simp [hph] at hdead⟩) (fun _ _ => .inr hsrc)
  refine h.step hs (fun u cm' _ _ => ?_) (fun p u hp => .inr ?_) (fun _ _ _ => .rfl) ?_ (fun _ => ?_)
  · rw [hnode, hloop]
    exact .refl ..
  · obtain ⟨-, rfl⟩ : k = p ∧ t = u := by simpa [hm] using hp
    exact ⟨_, hcm, rfl⟩
  · rw [hnode, hmi, hloop]
    exact hg.on (.of_eq rfl rfl rfl rfl) (fun u hu => ⟨hu, rfl⟩) (fun _ => id)
      (fun u wr hw => .inl hw) trivial (fun _ _ => by simp [hm]) (fun e he => by rw [hm]; exact he)
      hg.loop (fun _ => id)
  · refine .of_active hci hdt (by rw [hnode]; exact hcount.srcId) (hcount.est (by simp [hph])) ?_ ?_
      (by simp [hx]) (by simp [hx]) (by simp [hx])
    · rw [sendsOf, hnode]
      exact hcount.toDst_active hdt
    · rw [gotOf, hnode, hloop]
      exact hcount.toSrc_active hdt

end Cluster

end HMP
