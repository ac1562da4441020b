import Hmp.Proofs.Ledger

/-! The steps of the event thread and of the adapter keep the count, and so does every orderly run. -/

namespace HMP

namespace Cluster

variable {cfg : ClusterConfig} {s s' : Cluster} {i j k t u c d : ℕ}

/-! ## The event thread -/

theorem end_active (h : PlaceInv cfg s) (hi : i < cfg.nodeCnt)
    (hcm : ((s.node i).trans t).cmId = some ⟨c, true⟩) :
    c < s.nconn ∧ (s.conn c).src = i ∧ (s.conn c).srcTrans = t := by
  obtain ⟨hc, he⟩ := (h.1 i hi).ends t _ hcm
  exact ⟨hc, he.1, he.2⟩

theorem end_passive (h : PlaceInv cfg s) (ht : TableInv cfg s) (hi : i < cfg.nodeCnt)
    (hcm : ((s.node i).trans t).cmId = some ⟨c, false⟩) :
    c < s.nconn ∧ (s.conn c).dst = some i ∧ (s.conn c).dstTrans = some t := by
  obtain ⟨hc, he⟩ := (h.1 i hi).ends t _ hcm
  exact ⟨hc, he.1, he.2.resolve_left (ht.2 c hc).alive⟩

/-- The ends of a connection are at different nodes. -/
theorem src_ne_dst (h : PlaceInv cfg s) (hc : c < s.nconn) (hj : (s.conn c).dst = some j) :
    (s.conn c).src ≠ j :=
  ((h.2 c hc).active j hj).1.ne

theorem ledger_addrResolved {verbs : ℕ} {route : ℤ} {cm : CmId} {x : Conn} (h : Ledger cfg s)
    (hinv : ClusterInv cfg s) (hi : i < cfg.nodeCnt)
    (hcm : ((s.node i).trans t).cmId = some cm)
    (hok : s.noFailure (i, .cm t (.addrResolved verbs route)) = true)
    (hx : (s.conn cm.conn).handled cm.active (.addrResolved verbs route)
      (hmpHandleEcEvent (s.node i) t (.addrResolved verbs route)).2 = some x)
    (hs' : s' = (s.setNode i
      (hmpHandleEcEvent (s.node i) t (.addrResolved verbs route)).1).setConn cm.conn x) :
    Ledger cfg s' := by
  have hg := h.1 i hi
  obtain ⟨hc, -⟩ := (hinv.place.1 i hi).ends t cm hcm
  have hcount := h.2 _ hc
  have hok : (hmpDeviceLookup (s.node i) verbs).isSome ∧ route = 0 := by
    simpa [noFailure] using hok
  have hr : (hmpHandleEcEvent (s.node i) t (.addrResolved verbs route)).2 = 0 := by
    rw [hmpHandleEcEvent, onCmAddrResolved_eq]
    simp [Option.isNone_eq_false_iff.mpr hok.1, hok.2]
  simp only [Conn.handled, hr, if_true, Option.ite_none_right_eq_some, Option.some.injEq] at hx
  obtain ⟨⟨-, hph⟩, hx⟩ := hx
  have hdt := dstTrans_none hinv.place hc (by simp [hph]) (by simp [hph]) (by simp [hph])
  set nd := (hmpHandleEcEvent (s.node i) t (.addrResolved verbs route)).1 with hnd
  have hni : s'.node i = nd := by simp [hs']
  have hci : s'.conn cm.conn = x := by simp [hs']
  have hli : s'.loop = s.loop := by rw [hs']; rfl
  have hmi : s'.main = s.main := by rw [hs']; rfl
  have hs : Local s s' i cm.conn :=
    .of_eq (n := nd) (by rw [hs']; rfl) (m := s.main i) (by simp [hs']) (l := s.loop i)
      (by simp [hs']) (by rw [hs']; rfl) (by rw [hs']; rfl)
      (fun _ => by rw [← hx]; exact ⟨rfl, rfl, fun _ h => h, fun _ h => h, by simp [hph]⟩)
      (fun _ hcr => by simp [hph] at hcr)
  have hnd' : nd = (s.node i).setTrans t { (s.node i).trans t with
      device := hmpDeviceLookup (s.node i) verbs } := by
    rw [hnd, hmpHandleEcEvent, onCmAddrResolved_eq]
  have hsame : ∀ u, (nd.trans u).cmId = ((s.node i).trans u).cmId ∧
      (nd.trans u).transState = ((s.node i).trans u).transState := by
    intro u
    by_cases hu : u = t
    · subst hu
      simp [hnd']
    · simp [hnd', hu]
  have hqp : nd.qp = (s.node i).qp := by rw [hnd']; rfl
  have hend : ∀ u, (s.node i).SameEnd (s.loop i) (s'.node i) (s'.loop i) u := by
    intro u
    rw [hni, hli]
    exact .of_qp (hsame u).1 (by rw [hqp]) (by rw [(hsame u).2]) rfl
  refine h.step hs (fun u _ _ _ => hend u) (fun _ _ _ => .inl (by rw [hmi]))
    (fun _ _ _ => by rw [hli]) ?_ (fun _ => ?_)
  · rw [hni, hmi, hli]
    exact hg.on (by rw [hnd']; exact .of_eq rfl rfl rfl rfl)
      (fun u hu => ⟨(hsame u).1 ▸ hu, by rw [hqp]⟩) (fun u hu => (hsame u).2 ▸ hu)
      (fun u wr hw => .inl (by rwa [hqp] at hw)) hg.main (fun h₁ h₂ => ⟨h₁, h₂⟩) (fun _ => id)
      hg.loop (fun _ => id)
  · -- the state of the connection has changed, and nothing at its ends
    have hall : ∀ k u, (s.node k).SameEnd (s.loop k) (s'.node k) (s'.loop k) u := by
      intro k u
      by_cases hki : k = i
      · exact hki ▸ hend u
      · rw [hs.node k hki, hs.loop k hki]
        exact .refl ..
    have hxt : x.dstTrans = none := by rw [← hx]; exact hdt
    refine .of_active hci hxt ?_ ?_ ?_ ?_ (by simp [← hx]) (by simp [← hx]) (by simp [← hx])
    · rw [← hx, (hall _ _).cmId]
      exact hcount.srcId
    · rw [← hx]
      exact hcount.est (by simp [hph])
    · rw [← hx, sendsOf, (hall _ _).sends]
      exact hcount.toDst_active hdt
    · rw [← hx, gotOf, (hall _ _).got]
      exact hcount.toSrc_active hdt

theorem ledger_routeResolved {o : RouteOutcome} {cm : CmId} {x : Conn} (h : Ledger cfg s)
    (hinv : ClusterInv cfg s) (hi : i < cfg.nodeCnt)
    (hcm : ((s.node i).trans t).cmId = some cm)
    (hok : s.noFailure (i, .cm t (.routeResolved o)) = true)
    (hx : (s.conn cm.conn).handled cm.active (.routeResolved o)
      (hmpHandleEcEvent (s.node i) t (.routeResolved o)).2 = some x)
    (hs' : s' = (s.setNode i
      (hmpHandleEcEvent (s.node i) t (.routeResolved o)).1).setConn cm.conn x) :
    Ledger cfg s' := by
  have hg := h.1 i hi
  obtain ⟨hq, hp₁, hp₂, hcon⟩ :
      o.qp = 0 ∧ o.recv₁.posted ∧ o.recv₂.posted ∧ o.connect = 0 := by
    simpa [noFailure, and_assoc] using hok
  have he : hmpHandleEcEvent (s.node i) t (.routeResolved o) = (hmpPrePostRecv
      ((s.node i).setQp t { live := true, registered := true }) t o.recv₁ o.recv₂, 0) := by
    rcases onCmRouteResolved_cases (s.node i) t o with ⟨hne, -⟩ | ⟨-, hne, -⟩ | ⟨-, -, he⟩
    · exact absurd hq hne
    · exact absurd hcon hne
    · exact he
  rw [he] at hx hs'
  simp only [Conn.handled, if_true, Option.ite_none_right_eq_some, Option.some.injEq] at hx
  obtain ⟨⟨ha, hph⟩, hx⟩ := hx
  obtain ⟨c, active⟩ := cm
  obtain rfl : active = true := ha
  obtain ⟨hc, hsrc, hst⟩ := end_active hinv.place hi hcm
  have hcount := h.2 c hc
  have hdt := dstTrans_none hinv.place hc (by simp [hph]) (by simp [hph]) (by simp [hph])
  set nd₀ := (s.node i).setQp t { live := true, registered := true } with hnd₀
  set nd := hmpPrePostRecv nd₀ t o.recv₁ o.recv₂ with hnd
  have hni : s'.node i = nd := by simp [hs']
  have hci : s'.conn c = x := by simp [hs']
  have hli : s'.loop = s.loop := by rw [hs']; rfl
  have hmi : s'.main = s.main := by rw [hs']; rfl
  have hs : Local s s' i c :=
    .of_eq (n := nd) (by rw [hs']; rfl) (m := s.main i) (by simp [hs']) (l := s.loop i)
      (by simp [hs']) (by rw [hs']; rfl) (by rw [hs']; rfl)
      (fun _ => by rw [← hx]; exact ⟨rfl, rfl, fun _ h => h, fun _ h => h, by simp [hph]⟩)
      (fun _ hcr => by simp [hph] at hcr)
  have hcmId : ∀ u, (nd.trans u).cmId = ((s.node i).trans u).cmId :=
    (hmpPrePostRecv_steady nd₀ t o.recv₁ o.recv₂).cmId_eq
  have hstate : ∀ u, (nd.trans u).transState = ((s.node i).trans u).transState := by
    intro u
    simp [hnd, hmpPrePostRecv, hnd₀]
  have hother : ∀ u ≠ t, nd.qp u = (s.node i).qp u := by
    intro u hu
    rw [hnd, hmpPrePostRecv_other _ _ _ hu]
    simp [hnd₀, hu]
  obtain ⟨hlive, hrq, hsq, hcq⟩ := hmpPrePostRecv_counts nd₀ t hp₁ hp₂
  have hq₀ : nd₀.qp t = { live := true, registered := true } := by simp [hnd₀]
  rw [hq₀] at hlive hrq hsq hcq
  refine h.step hs (fun u cm hu hne => ?_) (fun _ _ _ => .inl (by rw [hmi]))
    (fun _ _ _ => by rw [hli]) ?_ (fun _ => ?_)
  · have hut : u ≠ t := by
      rintro rfl
      exact hne (by rw [Option.some.inj (hu.symm.trans hcm)])
    rw [hni, hli]
    exact .of_qp (hcmId u) (hother u hut) (by rw [hstate]) rfl
  · rw [hni, hmi, hli]
    have hsite : (s.node i).SameSite nd₀ := .of_eq rfl rfl rfl rfl
    refine hg.on (hsite.trans (hmpPrePostRecv_site nd₀ t _ _)) (fun u hu => ?_)
      (fun u hu => hstate u ▸ hu) (fun u wr hw => ?_) hg.main (fun h₁ h₂ => ⟨h₁, h₂⟩) (fun _ => id)
      hg.loop (fun _ => id)
    · rw [hcmId] at hu
      refine ⟨hu, hother u ?_⟩
      rintro rfl
      simp [hcm] at hu
    · refine (hmpPrePostRecv_room nd₀ t _ _ hw).imp_left fun hw => ?_
      by_cases hut : u = t
      · subst hut
        simp [hq₀] at hw
      · simpa [hnd₀, hut] using hw
  · -- the queue pair is new: nothing is under way yet, and two receives are posted
    obtain ⟨hse, hde⟩ := hcount.est (by simp [hph])
    have h₁ := hcount.toDst_active hdt
    have h₂ := hcount.toSrc_active hdt
    rw [hse, Bool.toNat_false] at h₁
    rw [hde, hsrc, hst, gotOf, Node.got, Bool.toNat_false] at h₂
    have hxt : x.dstTrans = none := by rw [← hx]; exact hdt
    have hgot : s'.gotOf i t = 0 := by
      rw [gotOf, hni, hli, Node.got, VerbsQp.arrived, hcq, hstate, List.countP_nil]
      omega
    have hsends : s'.sendsOf i t = 0 := by
      rw [sendsOf, hni, VerbsQp.sends, hsq]
      rfl
    refine .of_active hci hxt ?_ ?_ ?_ ?_ (fun _ => ?_) (by simp [← hx]) (by simp [← hx])
    · rw [← hx, hsrc, hst, hni, hcmId, hcm]
    · rw [← hx]
      exact ⟨hse, hde⟩
    · rw [← hx, hsrc, hst, hsends, hse]
      simp only [Bool.toNat_false]
      omega
    · rw [← hx, hsrc, hst, hgot, hde]
      simp only [Bool.toNat_false]
      omega
    · rw [← hx, hsrc, hst, hgot, hni, hrq]
      exact ⟨hlive, rfl⟩

/-- A step at one end of an accepted connection, which hands over no message that it does not take
from somewhere. -/
theorem Ledger.flow {active : Bool} {nd : Node} {x : Conn} (h : Ledger cfg s)
    (hinv : ClusterInv cfg s) (ht : TableInv cfg s) (hi : i < cfg.nodeCnt)
    (hcm : ((s.node i).trans t).cmId = some ⟨c, active⟩)
    (hs' : s' = (s.setNode i nd).setConn c x) (hpr : Progress (s.conn c) x)
    (hp : (s.conn c).phase = .accepted) (hpx : x.phase = (s.conn c).phase)
    (hsite : (s.node i).SameSite nd) (hcmId : ∀ u, (nd.trans u).cmId = ((s.node i).trans u).cmId)
    (hstate : ∀ u, (nd.trans u).transState = ((s.node i).trans u).transState)
    (hother : ∀ u ≠ t, nd.qp u = (s.node i).qp u)
    (hlive : (nd.qp t).live = ((s.node i).qp t).live)
    (hroom : ∀ wr ∈ (nd.qp t).rq, wr ∈ ((s.node i).qp t).rq)
    (hrq : (nd.qp t).rq.length + (nd.qp t).arrived =
      ((s.node i).qp t).rq.length + ((s.node i).qp t).arrived)
    (hout : (x.out active).length + (nd.qp t).sends + ((s.conn c).est active).toNat =
      ((s.conn c).out active).length + ((s.node i).qp t).sends + (x.est active).toNat)
    (hin : (x.out !active).length + (nd.qp t).arrived =
      ((s.conn c).out !active).length + ((s.node i).qp t).arrived)
    (hest : x.est (!active) = (s.conn c).est (!active)) : Ledger cfg s' := by
  have hg := h.1 i hi
  obtain ⟨hc, -⟩ := (hinv.place.1 i hi).ends t _ hcm
  have hcount := h.2 c hc
  have hni : s'.node i = nd := by simp [hs']
  have hci : s'.conn c = x := by simp [hs']
  have hli : s'.loop = s.loop := by rw [hs']; rfl
  have hmi : s'.main = s.main := by rw [hs']; rfl
  have hs : Local s s' i c :=
    .of_eq (n := nd) (by rw [hs']; rfl) (m := s.main i) (by simp [hs']) (l := s.loop i)
      (by simp [hs']) (by rw [hs']; rfl) (by rw [hs']; rfl) (fun _ => hpr.evolves)
      (fun _ hcr => .inl (hpr.created hcr))
  have hend : ∀ k u, k ≠ i ∨ u ≠ t →
      (s.node k).SameEnd (s.loop k) (s'.node k) (s'.loop k) u := by
    intro k u hku
    by_cases hki : k = i
    · subst hki
      rw [hni, hli]
      exact .of_qp (hcmId u) (hother u (hku.resolve_left (by simp))) (by rw [hstate]) rfl
    · rw [hs.node k hki, hli]
      exact .refl ..
  have hgot : s'.gotOf i t + ((s.node i).qp t).arrived = s.gotOf i t + (nd.qp t).arrived := by
    rw [gotOf, gotOf, hni, hli, Node.got, Node.got, hstate]
    omega
  have hsends : s'.sendsOf i t = (nd.qp t).sends := by rw [sendsOf, hni]
  refine h.step hs (fun u cm hu hne => hend i u (.inr ?_)) (fun _ _ _ => .inl (by rw [hmi]))
    (fun _ _ _ => by rw [hli]) ?_ (fun _ => ?_)
  · rintro rfl
    exact hne (by rw [Option.some.inj (hu.symm.trans hcm)])
  · rw [hni, hmi, hli]
    refine hg.on hsite (fun u hu => ?_) (fun u hu => hstate u ▸ hu) (fun u wr hw => .inl ?_) hg.main
      (fun h₁ h₂ => ⟨h₁, h₂⟩) (fun _ => id) hg.loop (fun _ => id)
    · rw [hcmId] at hu
      refine ⟨hu, hother u ?_⟩
      rintro rfl
      simp [hcm] at hu
    · by_cases hut : u = t
      · subst hut
        exact hroom wr hw
      · rwa [hother u hut] at hw
  · have hne : ∀ j, (s.conn c).dst = some j → (s.conn c).src ≠ j :=
      fun j hj => src_ne_dst hinv.place hc hj
    have hat : ∀ f, x.atDst f = (s.conn c).atDst f := by
      intro f
      rw [Conn.atDst, hpr.dst, hpr.dstTrans]
      rfl
    have hcnt : x.toDst.length + s'.sendsOf x.src x.srcTrans + x.atDst s'.gotOf = x.srcEst.toNat ∧
        x.toSrc.length + x.atDst s'.sendsOf + s'.gotOf x.src x.srcTrans = x.dstEst.toNat := by
      have h₁ := hcount.toDst
      have h₂ := hcount.toSrc
      rw [hat, hat, hpr.src, hpr.srcTrans]
      cases active with
      | true =>
        obtain ⟨-, hsrc, hst⟩ := end_active hinv.place hi hcm
        have hfar : ∀ j u, (s.conn c).dst = some j →
            (s.node j).SameEnd (s.loop j) (s'.node j) (s'.loop j) u :=
          fun j u hj => hend j u (.inl fun hji => hne j hj (hsrc.trans hji.symm))
        have hf₁ : (s.conn c).atDst s'.sendsOf = (s.conn c).atDst s.sendsOf :=
          Conn.atDst_congr fun j u hj _ => (hfar j u hj).sends
        have hf₂ : (s.conn c).atDst s'.gotOf = (s.conn c).atDst s.gotOf :=
          Conn.atDst_congr fun j u hj _ => (hfar j u hj).got
        rw [hsrc, hst] at h₁ h₂ ⊢
        rw [hf₁, hf₂, hsends]
        simp only [Conn.out, Conn.est, Bool.not_true, Bool.false_eq_true, if_true, if_false,
          sendsOf] at hout hin hest h₁ ⊢
        rw [hest]
        omega
      | false =>
        obtain ⟨-, hj, hu⟩ := end_passive hinv.place ht hi hcm
        have hnear := hend (s.conn c).src (s.conn c).srcTrans (.inl (hne i hj))
        have hf₁ : s'.sendsOf (s.conn c).src (s.conn c).srcTrans =
          s.sendsOf (s.conn c).src (s.conn c).srcTrans := hnear.sends
        have hf₂ : s'.gotOf (s.conn c).src (s.conn c).srcTrans =
          s.gotOf (s.conn c).src (s.conn c).srcTrans := hnear.got
        rw [Conn.atDst_some hj hu] at h₁ h₂ ⊢
        rw [Conn.atDst_some hj hu, hf₁, hf₂, hsends]
        simp only [Conn.out, Conn.est, Bool.not_false, Bool.false_eq_true, if_true, if_false]
          at hout hin hest ⊢
        rw [sendsOf] at h₂
        rw [hest]
        omega
    -- two receives are posted at an end, or have come in
    have hroom : ∀ k u, ((s'.node k).qp u).live = ((s.node k).qp u).live ∧
        ((s'.node k).qp u).rq.length + s'.gotOf k u = ((s.node k).qp u).rq.length + s.gotOf k u := by
      intro k u
      by_cases hku : k = i ∧ u = t
      · obtain ⟨rfl, rfl⟩ := hku
        rw [hni]
        exact ⟨hlive, by omega⟩
      · have hsame := hend k u (not_and_or.mp hku)
        exact ⟨hsame.live, by rw [hsame.rq, gotOf, hsame.got]; rfl⟩
    have hid : ∀ k u, ((s'.node k).trans u).cmId = ((s.node k).trans u).cmId := by
      intro k u
      by_cases hki : k = i
      · rw [hki, hni, hcmId]
      · rw [hs.node k hki]
    refine ⟨?_, ?_, ?_, ?_, ?_, ?_, ?_, ?_, ?_, ?_⟩ <;> rw [hci]
    · rw [hpr.src, hpr.srcTrans, hid]
      exact hcount.srcId
    · intro j u hj hu
      rw [hid]
      exact hcount.dstId j u (hpr.dst ▸ hj) (hpr.dstTrans ▸ hu)
    · rw [hpx, hp]
      simp
    · exact hcnt.1
    · exact hcnt.2
    · intro _
      rw [hpr.src, hpr.srcTrans, (hroom _ _).1, (hroom _ _).2]
      exact hcount.srcRq (.inr (.inr hp))
    · intro j u hj hu
      rw [(hroom j u).1, (hroom j u).2, hpx, hp]
      have hdst := hcount.dstRq j u (hpr.dst ▸ hj) (hpr.dstTrans ▸ hu)
      exact ⟨hdst.1, (fun hc => by cases hc), fun _ => hdst.2.2 hp⟩
    · rw [hpx, hp]
      simp
    · rw [hpx, hp]
      simp
    · intro j u hj hu
      rw [hpx, hli]
      exact hcount.answering j u (hpr.dst ▸ hj) (hpr.dstTrans ▸ hu)

/-- ESTABLISHED puts the INIT message of this end under way. -/
theorem ledger_established {peer : SockAddr} {o : PostOutcome} {cm : CmId} {x : Conn}
    (h : Ledger cfg s) (hinv : ClusterInv cfg s) (ht : TableInv cfg s) (hi : i < cfg.nodeCnt)
    (hcm : ((s.node i).trans t).cmId = some cm)
    (hok : s.noFailure (i, .cm t (.established peer o)) = true)
    (hx : (s.conn cm.conn).handled cm.active (.established peer o)
      (hmpHandleEcEvent (s.node i) t (.established peer o)).2 = some x)
    (hs' : s' = (s.setNode i
      (hmpHandleEcEvent (s.node i) t (.established peer o)).1).setConn cm.conn x) :
    Ledger cfg s' := by
  obtain ⟨c, active⟩ := cm
  set nd₀ := (s.node i).setTrans t { (s.node i).trans t with peerAddr := peer } with hnd₀
  have he : (hmpHandleEcEvent (s.node i) t (.established peer o)).1 =
    hmpPostSend nd₀ t (hmpBuildInitMsg nd₀) o := rfl
  set nd := hmpPostSend nd₀ t (hmpBuildInitMsg nd₀) o with hnd
  rw [he] at hs'
  obtain ⟨hpr, -, -, -⟩ := handled_progress hx
  have hsame : ∀ u, (nd.trans u).cmId = ((s.node i).trans u).cmId ∧
      (nd.trans u).transState = ((s.node i).trans u).transState := by
    intro u
    by_cases hu : u = t
    · subst hu
      simp [hnd, hnd₀]
    · simp [hnd, hnd₀, hu]
  obtain ⟨hlive, hrq, -, hsends, hcq⟩ :=
    hmpPostSend_counts nd₀ t (hmpBuildInitMsg nd₀) (o := o) hok
  have hqp : nd₀.qp t = (s.node i).qp t := rfl
  have harr : (nd.qp t).arrived = ((s.node i).qp t).arrived := by
    rw [VerbsQp.arrived, hcq, hqp, VerbsQp.arrived]
  have hph : (s.conn c).phase = .accepted ∧ x.phase = (s.conn c).phase ∧
      (s.conn c).est active = false ∧ x.est active = true ∧
      x.est (!active) = (s.conn c).est (!active) ∧ ∀ b, x.out b = (s.conn c).out b := by
    simp only [Conn.handled] at hx
    split_ifs at hx with hp ha hse hde
    all_goals
      simp only [Option.some.injEq] at hx
      subst hx
      simp_all [Conn.est, Conn.out]
  obtain ⟨hp, hpx, hold, hnew, hest, hwire⟩ := hph
  have hsite : (s.node i).SameSite nd₀ := .of_eq rfl rfl rfl rfl
  refine h.flow hinv ht hi hcm hs' hpr hp hpx (hsite.trans (hmpPostSend_site nd₀ t _ _))
    (fun u => (hsame u).1) (fun u => (hsame u).2) (fun u hu => hmpPostSend_other nd₀ _ o hu) hlive
    (fun wr hw => ?_) ?_ ?_ ?_ hest
  · rwa [hrq] at hw
  · rw [hrq, harr, hqp]
  · rw [hsends, hold, hnew, hwire, hqp]
    simp only [Bool.toNat_false, Bool.toNat_true]
    omega
  · rw [harr, hwire]

theorem ledger_request {o : RequestOutcome} (h : Ledger cfg s) (hinv : ClusterInv cfg s)
    (hi : i < cfg.nodeCnt) (hc : c < s.nconn) (hph : (s.conn c).phase = .requested)
    (hd : (s.conn c).dst = some i) (hl : s.loop i = .idle)
    (hs' : s' = ((s.setNode i ((withRequest (s.node i) ⟨c, false⟩
      (hmpDeviceLookup (s.node i) o.verbs)).setQp (s.node i).nextTrans
        { live := true, registered := true })).setConn c
      { s.conn c with phase := .answering, dstTrans := some (s.node i).nextTrans }).setLoop i
        (.storing c (s.node i).nextTrans)) : Ledger cfg s' := by
  have hg := h.1 i hi
  have hcount := h.2 c hc
  have hf := (hinv.place.1 i hi).fresh _ le_rfl
  have hdt := dstTrans_none hinv.place hc (by simp [hph]) (by simp [hph]) (by simp [hph])
  have hne := src_ne_dst hinv.place hc hd
  set T := (s.node i).nextTrans with hT
  set nd := (withRequest (s.node i) ⟨c, false⟩ (hmpDeviceLookup (s.node i) o.verbs)).setQp T
    { live := true, registered := true } with hnd
  set x : Conn := { s.conn c with phase := .answering, dstTrans := some T } with hx
  have hni : s'.node i = nd := by simp [hs']
  have hci : s'.conn c = x := by simp [hs']
  have hmi : s'.main = s.main := by rw [hs']; rfl
  have hli : s'.loop i = .storing c T := by simp [hs']
  have hs : Local s s' i c :=
    .of_eq (n := nd) (by rw [hs']; rfl) (m := s.main i) (by simp [hs'])
      (l := .storing c T) (by rw [hs']; rfl) (by rw [hs']; rfl) (by rw [hs']; rfl)
      (fun hc => request_evolves hinv.place hc hph _) (fun _ hcr => by simp [hph] at hcr)
  have hold : ∀ u ≠ T, nd.trans u = (s.node i).trans u ∧ nd.qp u = (s.node i).qp u := by
    intro u hu
    simp [hnd, withRequest, hu, ← hT]
  have hnew : (nd.trans T).cmId = some ⟨c, false⟩ ∧ (nd.trans T).transState = .init ∧
      nd.qp T = { live := true, registered := true } := by
    simp [hnd, withRequest, hT]
  have hfar : ∀ k ≠ i, s'.node k = s.node k ∧ s'.gotOf k = s.gotOf k ∧
      s'.sendsOf k = s.sendsOf k := by
    intro k hk
    refine ⟨hs.node k hk, ?_, ?_⟩
    · funext u
      rw [gotOf, gotOf, hs.node k hk, hs.loop k hk]
    · funext u
      rw [sendsOf, sendsOf, hs.node k hk]
  refine h.step hs (fun u cm hu _ => ?_) (fun _ _ _ => .inl (by rw [hmi])) (fun d u hdc => ?_) ?_
    (fun _ => ?_)
  · have hut : u ≠ T := by
      rintro rfl
      simp [hf] at hu
    obtain ⟨h₁, h₂⟩ := hold u hut
    rw [hni, hli, hl]
    exact .of_qp (by rw [h₁]) h₂ (by rw [h₁]) rfl
  · rw [hli, hl]
    exact ⟨fun hr => hdc hr.1.symm, False.elim⟩
  · rw [hni, hmi, hli]
    have hnone : ∀ u, (nd.trans u).cmId = none → u ≠ T := by
      rintro u hu rfl
      simp [hnew.1] at hu
    refine ⟨hg.running, hg.devices, hg.port, hg.main, by simp, hg.listening, fun u hu => ?_,
      fun p u he => ?_, ?_, fun u wr hw => ?_⟩
    · obtain ⟨h₁, h₂⟩ := hold u (hnone u hu)
      rw [h₂]
      exact hg.unused u (h₁ ▸ hu)
    · by_cases hut : u = T
      · rw [hut, hnew.2.1]
        simp
      · rw [(hold u hut).1]
        exact hg.entry p u he
    · rintro u rfl
      rw [hnew.2.1]
      simp
    · by_cases hut : u = T
      · rw [hut, hnew.2.2] at hw
        cases hw
      · exact hg.room u wr ((hold u hut).2 ▸ hw)
  · -- the passive end is new, and nothing is under way there
    have hest := hcount.est (by simp [hph])
    have h₁ := hcount.toDst
    have h₂ := hcount.toSrc
    rw [Conn.atDst_none hdt] at h₁ h₂
    have hxd : ∀ f, x.atDst f = f i T := fun f => Conn.atDst_some hd rfl
    have hgot : s'.gotOf i T = 0 := by
      rw [gotOf, hni, hli, Node.got, hnew.2.2, hnew.2.1]
      rfl
    have hsends : s'.sendsOf i T = 0 := by
      rw [sendsOf, hni, hnew.2.2]
      rfl
    obtain ⟨hn, hgs, hss⟩ := hfar _ hne
    have hjT : ∀ {j u}, x.dst = some j → x.dstTrans = some u → i = j ∧ T = u := by
      intro j u hj hu
      exact ⟨Option.some.inj (hd.symm.trans hj), Option.some.inj hu⟩
    refine ⟨?_, ?_, ?_, ?_, ?_, ?_, ?_, ?_, ?_, ?_⟩ <;> rw [hci]
    · rw [hn]
      exact hcount.srcId
    · intro j u hj hu
      obtain ⟨rfl, rfl⟩ := hjT hj hu
      rw [hni, hnew.1]
    · exact fun _ => hest
    · rw [hxd, hgot, hss]
      exact h₁
    · rw [hxd, hsends, hgs]
      exact h₂
    · rw [hn, hgs]
      exact fun _ => hcount.srcRq (.inl hph)
    · intro j u hj hu
      obtain ⟨rfl, rfl⟩ := hjT hj hu
      rw [hni, hnew.2.2]
      exact ⟨rfl, fun _ => rfl, (fun hc => by cases hc)⟩
    · intro hc
      cases hc
    · intro _ hc
      cases hc
    · intro j u hj hu
      obtain ⟨rfl, rfl⟩ := hjT hj hu
      rw [hli]
      exact ⟨fun _ => ⟨rfl, rfl⟩, fun _ => rfl⟩

theorem ledger_register (h : Ledger cfg s) (hinv : ClusterInv cfg s) (hi : i < cfg.nodeCnt)
    (hl : s.loop i = .storing c t) :
    Ledger cfg ((s.setNode i (requestRegister (s.node i) t
      (cfg.nodeInfos (s.conn c).src).addr)).setLoop i (.accepting c t)) := by
  have hg := h.1 i hi
  obtain ⟨-, -, -, he⟩ := requestRegister_src hinv.place hi hl
  have hsite := requestRegister_site (s.node i) t (cfg.nodeInfos (s.conn c).src).addr
  have hsame : ∀ u, ((requestRegister (s.node i) t (cfg.nodeInfos (s.conn c).src).addr).trans
        u).cmId = ((s.node i).trans u).cmId ∧
      ((requestRegister (s.node i) t (cfg.nodeInfos (s.conn c).src).addr).trans u).transState =
        ((s.node i).trans u).transState := by
    intro u
    rw [he]
    by_cases hut : u = t
    · subst hut
      simp
    · simp [hut]
  obtain ⟨-, -, -, -, -, hqp, -⟩ :=
    requestRegister_frame (s.node i) t (cfg.nodeInfos (s.conn c).src).addr
  refine h.quiet rfl (m := s.main i) (by simp) rfl rfl rfl
    (fun u => .of_qp (hsame u).1 (by rw [hqp]) (by rw [(hsame u).2]) (by rw [hl]; rfl))
    (fun _ _ _ => rfl) (fun d u => by rw [hl]; exact .rfl) ?_
  exact hg.on hsite (fun u hu => ⟨(hsame u).1 ▸ hu, by rw [hqp]⟩) (fun u hu => (hsame u).2 ▸ hu)
    (fun u wr hw => .inl (by rwa [hqp] at hw)) hg.main (fun h₁ h₂ => ⟨h₁, h₂⟩) (fun _ => id)
    (by simp) (fun u hu => by rw [hl]; exact hu)

theorem ledger_requestDone (h : Ledger cfg s) (hi : i < cfg.nodeCnt) (hl : s.loop i = .connecting t) :
    Ledger cfg ((s.setNode i ((s.node i).setState t .connecting)).setLoop i .idle) := by
  have hg := h.1 i hi
  have hno := hg.answering t (by rw [hl]; rfl)
  have hst : ∀ u, (((s.node i).setState t .connecting).trans u).transState = .connected ↔
      ((s.node i).trans u).transState = .connected := by
    intro u
    by_cases hut : u = t
    · subst hut
      simp [hno]
    · simp [hut]
  have hcm := (setState_steady (s.node i) t .connecting).cmId_eq
  refine h.quiet rfl (m := s.main i) (by simp) rfl rfl rfl
    (fun u => .of_qp (hcm u) rfl (hst u) (by rw [hl]; rfl)) (fun _ _ _ => rfl)
    (fun d u => by rw [hl]; exact .rfl) ?_
  exact hg.on (.of_eq rfl rfl rfl rfl) (fun u hu => ⟨hcm u ▸ hu, rfl⟩) (fun u => (hst u).mp)
    (fun u wr hw => .inl hw) hg.main (fun h₁ h₂ => ⟨h₁, h₂⟩) (fun _ => id) (by simp) (fun _ => False.elim)

theorem ledger_accept {o : RequestOutcome} (h : Ledger cfg s) (hinv : ClusterInv cfg s)
    (ht : TableInv cfg s) (hi : i < cfg.nodeCnt) (hl : s.loop i = .accepting c t)
    (h₁ : o.recv₁.posted = true) (h₂ : o.recv₂.posted = true)
    (hs' : s' = ((s.setNode i (hmpPrePostRecv (s.node i) t o.recv₁ o.recv₂)).setConn c
      { s.conn c with
        phase := if (s.conn c).phase = .answering then .accepted else (s.conn c).phase }).setLoop
      i (.connecting t)) : Ledger cfg s' := by
  have hg := h.1 i hi
  obtain ⟨hc, -, -, -, hcm, -⟩ := accepting_conn hinv.place hi hl
  obtain ⟨-, hd, hdt⟩ := end_passive hinv.place ht hi hcm
  have hcount := h.2 c hc
  have hph : (s.conn c).phase = .answering := by
    rw [hcount.answering i t hd hdt, hl]
    exact ⟨rfl, rfl⟩
  rw [if_pos hph] at hs'
  have hne := src_ne_dst hinv.place hc hd
  set nd := hmpPrePostRecv (s.node i) t o.recv₁ o.recv₂ with hnd
  set x : Conn := { s.conn c with phase := .accepted } with hx
  have hni : s'.node i = nd := by simp [hs']
  have hci : s'.conn c = x := by simp [hs']
  have hmi : s'.main = s.main := by rw [hs']; rfl
  have hli : s'.loop i = .connecting t := by simp [hs']
  have hs : Local s s' i c :=
    .of_eq (n := nd) (by rw [hs']; rfl) (m := s.main i) (by simp [hs'])
      (l := .connecting t) (by rw [hs']; rfl) (x := x) (by rw [hs']; rfl) (by rw [hs']; rfl)
      (fun _ => ⟨rfl, rfl, fun _ h => h, fun _ h => h, by simp [hph]⟩)
      (fun _ hcr => by simp [hph] at hcr)
  have hcmId : ∀ u, (nd.trans u).cmId = ((s.node i).trans u).cmId :=
    (hmpPrePostRecv_steady (s.node i) t o.recv₁ o.recv₂).cmId_eq
  have hstate : ∀ u, (nd.trans u).transState = ((s.node i).trans u).transState := by
    intro u
    simp [hnd, hmpPrePostRecv]
  have hother : ∀ u ≠ t, nd.qp u = (s.node i).qp u :=
    fun u hu => hmpPrePostRecv_other _ _ _ hu
  obtain ⟨hlive, hrq, hsq, hcq⟩ := hmpPrePostRecv_counts (s.node i) t h₁ h₂
  -- nothing is under way at either end
  have hgot : s'.gotOf = s.gotOf := by
    funext k u
    rw [gotOf, gotOf]
    by_cases hki : k = i
    · subst hki
      have hq : (nd.qp u).cq = ((s.node k).qp u).cq := by
        by_cases hut : u = t
        · rw [hut, hcq]
        · rw [hother u hut]
      rw [hni, hli, hl, Node.got, Node.got, VerbsQp.arrived, VerbsQp.arrived, hq, hstate]
      rfl
    · rw [hs.node k hki, hs.loop k hki]
  have hsends : s'.sendsOf = s.sendsOf := by
    funext k u
    rw [sendsOf, sendsOf]
    by_cases hki : k = i
    · subst hki
      rw [hni]
      by_cases hut : u = t
      · rw [hut, VerbsQp.sends, hsq]
        rfl
      · rw [hother u hut]
    · rw [hs.node k hki]
  refine h.step hs (fun u cm hu hcm' => ?_) (fun _ _ _ => .inl (by rw [hmi])) (fun d u hdc => ?_) ?_
    (fun _ => ?_)
  · have hut : u ≠ t := by
      rintro rfl
      exact hcm' (by rw [Option.some.inj (hu.symm.trans hcm)])
    rw [hni, hli, hl]
    exact .of_qp (hcmId u) (hother u hut) (by rw [hstate]) rfl
  · rw [hli, hl]
    exact ⟨False.elim, fun hr => hdc hr.1.symm⟩
  · rw [hni, hmi, hli]
    refine hg.on (hmpPrePostRecv_site _ t _ _) (fun u hu => ?_) (fun u hu => hstate u ▸ hu)
      (fun u wr hw => hmpPrePostRecv_room _ t _ _ hw) hg.main (fun h₁ h₂ => ⟨h₁, h₂⟩)
      (fun _ => id) (by simp) (fun u hu => by rw [hl]; exact hu)
    rw [hcmId] at hu
    refine ⟨hu, hother u ?_⟩
    rintro rfl
    simp [hcm] at hu
  · have hest := hcount.est (by simp [hph])
    have hxd : ∀ f, x.atDst f = (s.conn c).atDst f := fun _ => rfl
    have hjt : ∀ {j u}, x.dst = some j → x.dstTrans = some u → i = j ∧ t = u := by
      intro j u hj hu
      exact ⟨Option.some.inj (hd.symm.trans hj), Option.some.inj (hdt.symm.trans hu)⟩
    obtain ⟨hdl, hdr, -⟩ := hcount.dstRq i t hd hdt
    have hsrc := hcount.srcRq (.inr (.inl hph))
    have hzero : s.gotOf i t = 0 := by
      have hto := hcount.toDst
      rw [Conn.atDst_some hd hdt, hest.1] at hto
      simp only [Bool.toNat_false] at hto
      omega
    refine ⟨?_, ?_, ?_, ?_, ?_, ?_, ?_, ?_, ?_, ?_⟩ <;> rw [hci]
    · rw [hs.node _ hne]
      exact hcount.srcId
    · intro j u hj hu
      obtain ⟨rfl, rfl⟩ := hjt hj hu
      rw [hni, hcmId, hcm]
    · exact fun hne => absurd rfl hne
    · rw [hxd, hgot, hsends]
      exact hcount.toDst
    · rw [hxd, hgot, hsends]
      exact hcount.toSrc
    · rw [hs.node _ hne, hgot]
      exact fun _ => hsrc
    · intro j u hj hu
      obtain ⟨rfl, rfl⟩ := hjt hj hu
      rw [hni, hlive, hrq, hgot, hzero, hdr hph]
      exact ⟨hdl, (fun hc => by cases hc), fun _ => rfl⟩
    · intro hc
      cases hc
    · intro hc
      cases hc
    · intro j u hj hu
      obtain ⟨rfl, rfl⟩ := hjt hj hu
      rw [hli]
      exact ⟨(fun hc => by cases hc), False.elim⟩

/-! ## Messages -/

/-- A receive completion that has succeeded brings an INIT message of the transport. -/
theorem recv_isInit {wc : IbvWc} (h : MsgInv cfg s) (hi : i < cfg.nodeCnt)
    (hw : wc ∈ ((s.node i).qp t).cq) (ho : wc.opcode = .recv) (hs : wc.status = .success) :
    isInitMsg (s.node i) wc = true ∧ ((s.node i).task wc.wrId).rdmaTrans = t := by
  obtain ⟨-, htr, j, -, r, -, ha, -, pool, -, hread⟩ := h.cq i hi t wc hw hs ho
  refine ⟨?_, htr⟩
  simp only [isInitMsg, decide_eq_true_eq]
  exact ⟨ho, by rw [ha, (initFrame_words hread).1]⟩

/-- A transport with completions has a connection. -/
theorem Ledger.cmId_of_cq {wc : IbvWc} {rest : List IbvWc} (h : Ledger cfg s)
    (hi : i < cfg.nodeCnt) (hq : ((s.node i).qp t).cq = wc :: rest) :
    ∃ cm, ((s.node i).trans t).cmId = some cm := by
  rw [← Option.ne_none_iff_exists']
  intro hn
  rw [(h.1 i hi).unused t hn] at hq
  cases hq

theorem ledger_pollInit {wc : IbvWc} {rest : List IbvWc} {nd : Node} (h : Ledger cfg s)
    (hinv : ClusterInv cfg s) (hi : i < cfg.nodeCnt) (hl : s.loop i = .idle)
    (hq : ((s.node i).qp t).cq = wc :: rest)
    (hnd : nd = (s.node i).setQp t { (s.node i).qp t with cq := rest })
    (hsu : wc.status = .success) (hin : isInitMsg nd wc = true) :
    Ledger cfg ((s.setNode i nd).setLoop i
      (.mr (nd.task wc.wrId).rdmaTrans ((nd.task wc.wrId).sge.addr + HEADER_SIZE) .addr)) := by
  have hg := h.1 i hi
  have ho : wc.opcode = .recv := by
    simp only [isInitMsg, decide_eq_true_eq] at hin
    exact hin.1
  have hmem : wc ∈ ((s.node i).qp t).cq := by simp [hq]
  obtain ⟨-, htr⟩ := recv_isInit hinv.msg hi hmem ho hsu
  have htask : nd.task = (s.node i).task := by rw [hnd]; rfl
  have htrans : nd.trans = (s.node i).trans := by rw [hnd]; rfl
  rw [htask, htr]
  -- the message goes from the completion queue into the hands of the event thread
  refine h.quiet rfl (m := s.main i) (by simp) rfl rfl rfl (fun u => ?_) (fun _ _ _ => rfl)
    (fun d u => by rw [hl]; exact .rfl) ?_
  · by_cases hut : u = t
    · subst hut
      refine ⟨by rw [htrans], by simp [hnd], by simp [hnd], by simp [hnd, VerbsQp.sends], ?_⟩
      simp [Node.got, VerbsQp.arrived, hnd, hq, hl, LoopPc.handles, ho, hsu]
    · exact .of_qp (by rw [htrans]) (by simp [hnd, hut]) (by rw [htrans])
        (by simp [LoopPc.handles, hl, Ne.symm hut])
  · have hsite : (s.node i).SameSite nd := by
      rw [hnd]
      exact .of_eq rfl rfl rfl rfl
    refine hg.on hsite (fun u hu => ⟨htrans ▸ hu, ?_⟩) (fun u hu => htrans ▸ hu)
      (fun u wr hw => .inl ?_) hg.main (fun h₁ h₂ => ⟨h₁, h₂⟩) (fun _ => id) (by simp)
      (fun _ => False.elim)
    · have hut : u ≠ t := by
        rintro rfl
        rw [hg.unused u (htrans ▸ hu)] at hq
        cases hq
      simp [hnd, hut]
    · rw [hnd] at hw
      by_cases hut : u = t
      · subst hut
        simpa using hw
      · simpa [hut] using hw

theorem ledger_poll {wc : IbvWc} {rest : List IbvWc} {nd : Node} (h : Ledger cfg s)
    (hinv : ClusterInv cfg s) (hi : i < cfg.nodeCnt)
    (hq : ((s.node i).qp t).cq = wc :: rest)
    (hnd : nd = (s.node i).setQp t { (s.node i).qp t with cq := rest })
    (hin : ¬ (wc.status = .success ∧ isInitMsg nd wc = true)) :
    Ledger cfg (s.setNode i (dispatchWc nd wc)) := by
  have hg := h.1 i hi
  have hmem : wc ∈ ((s.node i).qp t).cq := by simp [hq]
  have hno : ¬ (wc.opcode = .recv ∧ wc.status = .success) := by
    rintro ⟨ho, hsu⟩
    obtain ⟨hinit, -⟩ := recv_isInit hinv.msg hi hmem ho hsu
    exact hin ⟨hsu, by rw [hnd]; exact hinit⟩
  have hqp : (dispatchWc nd wc).qp =
      Function.update (s.node i).qp t { (s.node i).qp t with cq := rest } := by
    rw [(dispatchWc_frame nd wc).1, hnd]
    rfl
  have htr : (dispatchWc nd wc).trans = (s.node i).trans ∧ nd.SameSite (dispatchWc nd wc) := by
    subst hnd
    rcases dispatchWc_quiet hin with he | he <;> rw [he] <;>
      exact ⟨rfl, .of_eq rfl rfl rfl rfl⟩
  obtain ⟨htr, hsite⟩ := htr
  have hsite₀ : (s.node i).SameSite nd := by
    rw [hnd]
    exact .of_eq rfl rfl rfl rfl
  refine h.quiet rfl (m := s.main i) (by simp) (l := s.loop i) (by simp) rfl rfl (fun u => ?_)
    (fun _ _ _ => rfl) (fun d u => .rfl) ?_
  · by_cases hut : u = t
    · subst hut
      refine ⟨by rw [htr], by simp [hqp], by simp [hqp], by simp [hqp, VerbsQp.sends], ?_⟩
      simp [Node.got, VerbsQp.arrived, hqp, hq, htr, hno]
    · exact .of_qp (by rw [htr]) (by simp [hqp, hut]) (by rw [htr]) rfl
  · refine hg.on (hsite₀.trans hsite) (fun u hu => ?_) (fun u hu => by rwa [htr] at hu)
      (fun u wr hw => .inl ?_) hg.main (fun h₁ h₂ => ⟨h₁, h₂⟩) (fun _ => id) hg.loop (fun _ => id)
    · rw [htr] at hu
      have hut : u ≠ t := by
        rintro rfl
        rw [hg.unused u hu] at hq
        cases hq
      exact ⟨hu, by simp [hqp, hut]⟩
    · rw [hqp] at hw
      by_cases hut : u = t
      · subst hut
        simpa using hw
      · simpa [hut] using hw

/-- No more than one message comes in on a transport. -/
theorem got_le_one (h : Ledger cfg s) (hinv : ClusterInv cfg s) (ht : TableInv cfg s)
    (hi : i < cfg.nodeCnt) {cm : CmId} (hcm : ((s.node i).trans t).cmId = some cm) :
    s.gotOf i t ≤ 1 := by
  have hle : ∀ b : Bool, b.toNat ≤ 1 := by decide
  obtain ⟨c, active⟩ := cm
  cases active with
  | true =>
    obtain ⟨hc, hsrc, hst⟩ := end_active hinv.place hi hcm
    have hcount := (h.2 c hc).toSrc
    rw [hsrc, hst] at hcount
    have := hle (s.conn c).dstEst
    omega
  | false =>
    obtain ⟨hc, hd, hdt⟩ := end_passive hinv.place ht hi hcm
    have hcount := (h.2 c hc).toDst
    rw [Conn.atDst_some hd hdt] at hcount
    have := hle (s.conn c).srcEst
    omega

/-- A transport whose message is handled is not the one that the main thread sets up, unless
CONNECTING is all that is left to set. -/
theorem entry_of_handling {data : ℕ} {stmt : MrStmt} (hinv : ClusterInv cfg s)
    (hi : i < cfg.nodeCnt) (hgo : (s.main i).goesOn) (hl : s.loop i = .mr t data stmt)
    (he : (s.main i).entry = some (k, t)) : s.main i = .connect k t .setState := by
  obtain ⟨j, hp, -⟩ := hinv.mr.handling i hi t data stmt hl
  obtain ⟨cm, hcm, -⟩ := hp.cmId
  have hmain := (hinv.place.1 i hi).main
  cases hm : s.main i with
  | peer p u st =>
    obtain ⟨rfl, rfl⟩ : p = k ∧ u = t := by simpa [hm, MainPc.entry] using he
    rw [hm] at hmain
    obtain ⟨-, -, -, -, hno, -⟩ := hmain
    simp [hcm] at hno
  | connect p u pc =>
    obtain ⟨rfl, rfl⟩ : p = k ∧ u = t := by simpa [hm, MainPc.entry] using he
    rw [hm] at hmain hgo
    obtain ⟨-, -, -, -, hok⟩ := hmain
    cases pc with
    | entry => simp [hok.2] at hcm
    | createId => simp [hok.2.1] at hcm
    | resolveAddr => exact absurd hp (resolve_not_placed hinv.place hi hm)
    | setState => rfl
    | returned ret => exact hgo.elim
  | _ => simp [hm, MainPc.entry] at he

theorem ledger_mr {data : ℕ} {stmt : MrStmt} (h : Ledger cfg s) (hinv : ClusterInv cfg s)
    (ht : TableInv cfg s) (hi : i < cfg.nodeCnt) (hok : s.connectsEarly (i, .mr) = false)
    (hl : s.loop i = .mr t data stmt) :
    Ledger cfg ((s.setNode i (stmt.exec (s.node i) t data)).setLoop i (stmt.next t data)) := by
  have hg := h.1 i hi
  have hsteady := mrStmt_steady (s.node i) t data stmt
  have hqp : (stmt.exec (s.node i) t data).qp = (s.node i).qp := by cases stmt <;> rfl
  have hstate : ∀ u, ((stmt.exec (s.node i) t data).trans u).transState =
      if stmt = .state ∧ u = t then .connected else ((s.node i).trans u).transState := by
    intro u
    cases stmt with
    | state =>
      by_cases hut : u = t
      · subst hut
        simp [MrStmt.exec, mrMsgState]
      · simp [MrStmt.exec, mrMsgState, hut]
    | _ => rfl
  have hno : stmt = .state → ((s.node i).trans t).transState ≠ .connected := by
    obtain ⟨j, hp, -⟩ := hinv.mr.handling i hi t data stmt hl
    obtain ⟨cm, hcm, -⟩ := hp.cmId
    have hle := got_le_one h hinv ht hi hcm
    rintro - hc
    simp only [gotOf, Node.got, hl, LoopPc.handles, if_true, if_pos hc] at hle
    omega
  have hend : ∀ u, (s.node i).SameEnd (s.loop i) (stmt.exec (s.node i) t data)
      (stmt.next t data) u := by
    intro u
    refine ⟨hsteady.cmId_eq u, by rw [hqp], by rw [hqp], by rw [hqp], ?_⟩
    rw [Node.got, Node.got, hqp, hstate, hl]
    by_cases hs : stmt = .state
    · subst hs
      by_cases hut : u = t
      · subst hut
        simp [MrStmt.next, LoopPc.handles, hno rfl]
      · simp [MrStmt.next, LoopPc.handles, hut, Ne.symm hut]
    · cases stmt with
      | state => exact absurd rfl hs
      | _ => simp [MrStmt.next, LoopPc.handles]
  refine h.quiet rfl (m := s.main i) (by simp) rfl rfl rfl hend (fun _ _ _ => rfl)
    (fun d u => by rw [hl]; cases stmt <;> exact .rfl) ?_
  have hsite := mrStmt_site (s.node i) t data stmt
  refine ⟨hsite.stop.trans hg.running, hsite.devList ▸ hg.devices,
    fun k => (hsite.port k).trans (hg.port k), hg.main, by cases stmt <;> simp [MrStmt.next],
    fun h₁ h₂ => hsite.listenState.trans (hg.listening h₁ h₂), fun u hu => ?_, fun k u he => ?_,
    fun u ha => ?_, fun u wr hw => ?_⟩
  · rw [hqp]
    exact hg.unused u ((hsteady.cmId_eq u).symm.trans hu)
  · rw [hstate]
    split_ifs with hs
    · -- the main thread would still have CONNECTING to set
      obtain ⟨rfl, rfl⟩ := hs
      have hm := entry_of_handling hinv hi hg.main hl he
      simp [connectsEarly, hl, hm] at hok
    · exact hg.entry k u he
  · cases stmt <;> exact ha.elim
  · exact hg.room u wr (hqp ▸ hw)

theorem ledger_complete {status : IbvWcStatus} {wr : IbvSendWr} {rest : List IbvSendWr} {cm : CmId}
    (h : Ledger cfg s) (hi : i < cfg.nodeCnt) (hcm : ((s.node i).trans t).cmId = some cm)
    (hq : ((s.node i).qp t).sq = wr :: rest) (ho : wr.opcode ≠ .send) :
    Ledger cfg (s.setNode i ((s.node i).setQp t { (s.node i).qp t with
      sq := rest
      cq := ((s.node i).qp t).cq ++
        [{ wrId := wr.wrId, status := status, opcode := wr.opcode.wc }] })) := by
  have hg := h.1 i hi
  refine h.quiet rfl (m := s.main i) (by simp) (l := s.loop i) (by simp) rfl rfl (fun u => ?_)
    (fun _ _ _ => rfl) (fun d u => .rfl) ?_
  · by_cases hut : u = t
    · subst hut
      refine ⟨rfl, by simp, by simp, by simp [VerbsQp.sends, hq, ho], ?_⟩
      simp [Node.got, VerbsQp.arrived, wc_ne_recv]
    · exact .of_qp rfl (by simp [hut]) .rfl rfl
  · refine hg.on (.of_eq rfl rfl rfl rfl) (fun u hu => ⟨hu, ?_⟩) (fun _ => id)
      (fun u wr hw => .inl ?_) hg.main (fun h₁ h₂ => ⟨h₁, h₂⟩) (fun _ => id) hg.loop (fun _ => id)
    · have hut : u ≠ t := by
        rintro rfl
        simp [hcm] at hu
      simp [hut]
    · by_cases hut : u = t
      · subst hut
        simpa using hw
      · simpa [hut] using hw

/-- The bytes of a send leave the send queue. -/
theorem ledger_send {status : IbvWcStatus} {wr : IbvSendWr} {rest : List IbvSendWr} {cm : CmId}
    {bytes : List UInt8} (h : Ledger cfg s) (hinv : ClusterInv cfg s) (ht : TableInv cfg s)
    (hi : i < cfg.nodeCnt) (hcm : ((s.node i).trans t).cmId = some cm)
    (hq : ((s.node i).qp t).sq = wr :: rest) (ho : wr.opcode = .send) :
    Ledger cfg ((s.setNode i ((s.node i).setQp t { (s.node i).qp t with
      sq := rest
      cq := ((s.node i).qp t).cq ++
        [{ wrId := wr.wrId, status := status, opcode := wr.opcode.wc }] })).setConn cm.conn
          ((s.conn cm.conn).push cm.active bytes)) := by
  obtain ⟨c, active⟩ := cm
  obtain ⟨hc, -⟩ := (hinv.place.1 i hi).ends t _ hcm
  have hcount := h.2 c hc
  have hpos : 0 < s.sendsOf i t := by simp [sendsOf, VerbsQp.sends, hq, ho]
  have hp : (s.conn c).phase = .accepted := by
    by_contra hne
    obtain ⟨hse, hde⟩ := hcount.est hne
    cases active with
    | true =>
      obtain ⟨-, hsrc, hst⟩ := end_active hinv.place hi hcm
      have h₁ := hcount.toDst
      rw [hsrc, hst, hse, Bool.toNat_false] at h₁
      omega
    | false =>
      obtain ⟨-, hj, hu⟩ := end_passive hinv.place ht hi hcm
      have h₂ := hcount.toSrc
      rw [Conn.atDst_some hj hu, hde, Bool.toNat_false] at h₂
      omega
  obtain ⟨hpr, hpx⟩ := push_progress (s.conn c) active bytes
  have hwire : ((s.conn c).push active bytes).out active = (s.conn c).out active ++ [bytes] ∧
      ((s.conn c).push active bytes).out (!active) = (s.conn c).out (!active) ∧
      ∀ b, ((s.conn c).push active bytes).est b = (s.conn c).est b := by
    cases active <;> exact ⟨rfl, rfl, fun _ => rfl⟩
  obtain ⟨hout, hin, hest⟩ := hwire
  refine h.flow hinv ht hi hcm rfl hpr hp hpx (.of_eq rfl rfl rfl rfl) (fun _ => rfl)
    (fun _ => rfl) (fun u hu => by simp [hu]) (by simp) (by simp) ?_ ?_ ?_ (hest _)
  · simp [VerbsQp.arrived, wc_ne_recv]
  · rw [hout, hest, List.length_append]
    simp [VerbsQp.sends, hq, ho]
    omega
  · rw [hin]
    simp [VerbsQp.arrived, wc_ne_recv]

theorem pop_est {x y : Conn} {active : Bool} {bytes : List UInt8}
    (h : x.pop active = some (bytes, y)) : y.srcEst = x.srcEst ∧ y.dstEst = x.dstEst := by
  unfold Conn.pop at h
  split at h
  all_goals simp only [Option.some.injEq, Prod.mk.injEq, reduceCtorEq] at h
  all_goals exact h.2 ▸ ⟨rfl, rfl⟩

/-- A message leaves the wire, and is among the completions. -/
theorem ledger_deliver {wr : IbvRecvWr} {rest : List IbvRecvWr} {cm : CmId} {x : Conn}
    {bytes : List UInt8} {nd : Node} (h : Ledger cfg s) (hinv : ClusterInv cfg s)
    (ht : TableInv cfg s) (hi : i < cfg.nodeCnt) (hcm : ((s.node i).trans t).cmId = some cm)
    (hq : ((s.node i).qp t).rq = wr :: rest)
    (hx : (s.conn cm.conn).pop cm.active = some (bytes, x))
    (hnd : nd = { (s.node i).setQp t { (s.node i).qp t with
      rq := rest
      cq := ((s.node i).qp t).cq ++ [{ wrId := wr.wrId, status := .success, opcode := .recv
                                       byteLen := bytes.length }] } with
      mem := (s.node i).mem.write wr.sge.addr bytes }) :
    Ledger cfg ((s.setNode i nd).setConn cm.conn x) := by
  obtain ⟨c, active⟩ := cm
  obtain ⟨hc, -⟩ := (hinv.place.1 i hi).ends t _ hcm
  have hcount := h.2 c hc
  obtain ⟨hpr, hpx⟩ := pop_progress hx
  have hwire : (s.conn c).out (!active) = bytes :: x.out (!active) ∧
      x.out active = (s.conn c).out active ∧ ∀ b, x.est b = (s.conn c).est b := by
    have hest : x.srcEst = (s.conn c).srcEst ∧ x.dstEst = (s.conn c).dstEst := pop_est hx
    rcases pop_some hx with ⟨ha, hto, hst⟩ | ⟨ha, hto, hst⟩
    all_goals
      obtain rfl : active = _ := ha
      exact ⟨hto, hst, fun b => by rw [Conn.est, Conn.est, hest.1, hest.2]⟩
  obtain ⟨hin, hout, hest⟩ := hwire
  have hp : (s.conn c).phase = .accepted := by
    by_contra hne
    obtain ⟨hse, hde⟩ := hcount.est hne
    have h₁ := hcount.toDst
    have h₂ := hcount.toSrc
    rw [hse, Bool.toNat_false] at h₁
    rw [hde, Bool.toNat_false] at h₂
    have hlen := congrArg List.length hin
    cases active <;> simp only [Conn.out, Bool.not_true, Bool.not_false, Bool.false_eq_true, if_true,
      if_false, List.length_cons] at hlen <;> omega
  have hqt : nd.qp t = { (s.node i).qp t with
      rq := rest
      cq := ((s.node i).qp t).cq ++ [{ wrId := wr.wrId, status := .success, opcode := .recv
                                       byteLen := bytes.length }] } := by simp [hnd]
  have htr : nd.trans = (s.node i).trans := by rw [hnd]; rfl
  have harr : (nd.qp t).arrived = ((s.node i).qp t).arrived + 1 := by simp [VerbsQp.arrived, hqt]
  refine h.flow hinv ht hi hcm rfl hpr hp hpx (by rw [hnd]; exact .of_eq rfl rfl rfl rfl)
    (fun u => by rw [htr]) (fun u => by rw [htr]) (fun u hu => by simp [hnd, hu]) (by rw [hqt])
    (fun w hw => ?_) ?_ ?_ ?_ (hest _)
  · rw [hqt] at hw
    rw [hq]
    exact List.mem_cons_of_mem _ hw
  · have hlen : (nd.qp t).rq.length = rest.length := by rw [hqt]
    rw [harr, hlen, hq, List.length_cons]
    omega
  · rw [hout, hest, hqt]
    rfl
  · rw [hin, harr, List.length_cons]
    omega

/-! ## Posted transfers -/

theorem ledger_post {op : TransferOp} {localAddr remoteAddr : ℕ} {length : ℤ} {o : PostOutcome}
    {nd : Node} (h : Ledger cfg s) (hinv : ClusterInv cfg s) (hi : i < cfg.nodeCnt)
    (hc : t ∈ s.checked i)
    (hnd : nd = (rdmaPostOf op (s.node i) t localAddr remoteAddr length o).1)
    (hnode : s'.node = Function.update s.node i nd) (hmain : s'.main = s.main)
    (hloop : s'.loop = s.loop) (hconn : s'.conn = s.conn) (hnconn : s'.nconn = s.nconn) :
    Ledger cfg s' := by
  have hg := h.1 i hi
  obtain ⟨-, -, -, htr, -⟩ := rdmaPostOf_frame _ _ _ _ _ _ _ hnd
  obtain ⟨-, hq, wrs, hsq, hsqo, hwrs⟩ := rdmaPostOf_queues hnd
  have hlive : ∀ u, (nd.qp u).live = ((s.node i).qp u).live := by
    intro u
    rw [hnd]
    by_cases hut : u = t
    · exact hut ▸ rdmaPostOf_live _ _ _ _ _ _ _
    · rw [rdmaPostOf_other _ _ _ _ _ _ hut]
  obtain ⟨cm, hcm, -⟩ : ∃ cm, ((s.node i).trans t).cmId = some cm ∧ True := by
    obtain ⟨j, hp, -⟩ := hinv.mr.checked i hi t hc
    obtain ⟨cm, hcm, -⟩ := hp.cmId
    exact ⟨cm, hcm, trivial⟩
  have hsends : ∀ u, (nd.qp u).sends = ((s.node i).qp u).sends := by
    intro u
    by_cases hut : u = t
    · subst hut
      rw [VerbsQp.sends, VerbsQp.sends, hsq, List.countP_append, Nat.add_eq_left]
      exact List.countP_eq_zero.mpr fun wr hw => by simpa using (hwrs wr hw).1
    · rw [VerbsQp.sends, VerbsQp.sends, hsqo u hut]
  have hsite : (s.node i).SameSite nd := by
    rw [hnd]
    exact rdmaPostOf_site _ _ _ _ _ _ _
  refine h.quiet hnode (m := s.main i) (by rw [hmain, Function.update_eq_self]) (l := s.loop i)
    (by rw [hloop, Function.update_eq_self]) hconn hnconn (fun u => ?_) (fun _ _ _ => rfl)
    (fun _ _ => .rfl) ?_
  · exact ⟨by rw [htr], hlive u, by rw [(hq u).1], hsends u, by
      rw [Node.got, Node.got, VerbsQp.arrived, (hq u).2, htr]
      rfl⟩
  · refine ⟨hsite.stop.trans hg.running, hsite.devList ▸ hg.devices,
      fun k => (hsite.port k).trans (hg.port k), hg.main, hg.loop,
      fun h₁ h₂ => hsite.listenState.trans (hg.listening h₁ h₂), fun u hu => ?_,
      fun k u he => htr ▸ hg.entry k u he, fun u ha => htr ▸ hg.answering u ha,
      fun u wr hw => hg.room u wr ((hq u).1 ▸ hw)⟩
    rw [htr] at hu
    have hut : u ≠ t := by
      rintro rfl
      simp [hcm] at hu
    have hold := hg.unused u hu
    have hnew : nd.qp u = (s.node i).qp u := by
      rw [hnd]
      exact rdmaPostOf_other _ _ _ _ _ _ hut
    rw [hnew, hold]

/-! ## Runs -/

theorem Going.setState {nd : Node} {m : MainPc} {l : LoopPc} {st : TransportState}
    (h : Going cfg nd m l) (he : m.entry = some (k, t)) (hs : st ≠ .connected) :
    ∀ u, ((nd.setState t st).trans u).transState = .connected ↔
      (nd.trans u).transState = .connected := by
  intro u
  by_cases hut : u = t
  · subst hut
    simp [hs, h.entry k u he]
  · simp [hut]

/-- A step of an orderly run keeps the count. -/
theorem Ledger.move {e : NodeEvent} (h : Ledger cfg s) (hinv : ClusterInv cfg s)
    (ht : TableInv cfg s) (hi : i < cfg.nodeCnt) (hok : Orderly cfg s (i, e))
    (hm : Moves cfg s i e s') : Ledger cfg s' := by
  obtain ⟨⟨hnf, -⟩, hearly, -⟩ := hok
  have hg := h.1 i hi
  have hmain := hg.main
  cases hm with
  | memInit hm hp =>
    exact h.main_step hi rfl (hmpMemInit_site _ _) rfl (fun _ => rfl) (fun _ => .rfl) (by simp [hm])
      trivial (fun _ h => absurd rfl h) (fun _ he => by cases he)
  | memExit hm hp => simp [noFailure, hp] at hnf
  | listen hm => exact ledger_listen h hi hm (by simpa [noFailure, hm] using hnf)
  | clear hm =>
    exact h.main_step hi rfl (.of_eq rfl rfl rfl rfl) rfl (fun _ => rfl) (fun _ => .rfl)
      (by simp [hm]) trivial (by simp [hm]) (fun _ he => by cases he)
  | create hm hk hr => exact ledger_create h hinv hi hm
  | createExit hm hk hr => simp [noFailure, hm, hr] at hnf
  | done hm hk =>
    rw [show s.setMain i .done = (s.setNode i (s.node i)).setMain i .done by simp [setNode]]
    exact h.main_step hi rfl (.of_eq rfl rfl rfl rfl) rfl (fun _ => rfl) (fun _ => .rfl)
      (by simp [hm]) trivial (by simp [hm]) (fun _ he => by cases he)
  | peer hm =>
    rename_i ret k t stmt
    have hsame : ∀ u, ((stmt.exec (s.node i) k t).trans u).cmId = ((s.node i).trans u).cmId ∧
        ((stmt.exec (s.node i) k t).trans u).transState = ((s.node i).trans u).transState := by
      intro u
      by_cases hut : u = t
      · subst hut
        cases stmt <;>
          simp [PeerStmt.exec, peerNodeId, peerCurRecv, peerSendAddr, peerRecvAddr]
      · cases stmt <;>
          simp [PeerStmt.exec, peerNodeId, peerCurRecv, peerSendAddr, peerRecvAddr, hut]
    refine h.main_step hi rfl (peerStmt_site _ _ _ _) (by cases stmt <;> rfl)
      (fun u => (hsame u).1) (fun u => by rw [(hsame u).2]) (by simp [hm]) ?_ (by simp [hm]) ?_
    · cases stmt <;> trivial
    · cases stmt <;> simp [hm, PeerStmt.next, MainPc.entry]
  | entry hm =>
    rename_i ret k t
    have hport : ((s.node i).config.nodeInfos k).port ≠ 0 := by simpa [noFailure, hm] using hnf
    rw [if_neg hport]
    have hnd : (connectEntry (s.node i) t ((s.node i).config.nodeInfos k).addr
        ((s.node i).config.nodeInfos k).port 1).1 = (s.node i).setTrans t
          { (s.node i).trans t with peerAddr :=
            { addr := ((s.node i).config.nodeInfos k).addr
              port := (((s.node i).config.nodeInfos k).port % 2 ^ 16).toNat } } := by
      simp [connectEntry, hmpPortUriInit, hport]
    rw [hnd]
    refine h.main_step hi rfl (.of_eq rfl rfl rfl rfl) rfl (fun u => ?_) (fun u => ?_) (by simp [hm])
      trivial (by simp [hm]) (by simp [hm, MainPc.entry])
    all_goals
      by_cases hut : u = t
      · subst hut
        simp
      · simp [hut]
  | createIdFail hm hr => simp [noFailure, hm, hr] at hnf
  | createId hm hr => exact ledger_createId h hinv hi hm
  | resolveFail hm hr => simp [noFailure, hm, hr] at hnf
  | resolve hm hr hcm => exact ledger_resolve h hinv hi hm hcm
  | setState hm =>
    exact h.main_step hi rfl (.of_eq rfl rfl rfl rfl) rfl
      (setState_steady (s.node i) _ .connecting).cmId_eq (hg.setState (by rw [hm]; rfl) (by simp))
      (by simp [hm]) trivial (by simp [hm]) (fun _ he => by cases he)
  | cm hl hcm hx =>
    rename_i t e cm x
    cases e with
    | addrResolved verbs route => exact ledger_addrResolved h hinv hi hcm hnf hx rfl
    | routeResolved o => exact ledger_routeResolved h hinv hi hcm hnf hx rfl
    | established peer o => exact ledger_established h hinv ht hi hcm hnf hx rfl
    | connectRequest | disconnected | other => simp [noFailure] at hnf
  | requestFail hc hph hd hli hl hr => exact absurd hr (noFailure_request hnf)
  | request hc hph hd hli hl => exact ledger_request h hinv hi hc hph hd hl rfl
  | register hl => exact ledger_register h hinv hi hl
  | acceptFail hl ha => simp [noFailure, ha] at hnf
  | accept hl ha =>
    simp only [noFailure, decide_eq_true_eq] at hnf
    exact ledger_accept h hinv ht hi hl hnf.1 hnf.2.1 rfl
  | requestDone hl => exact ledger_requestDone h hi hl
  | pollInit hl hq hnd hs hinit => exact ledger_pollInit h hinv hi hl hq hnd hs hinit
  | poll hl hq hnd hinit => exact ledger_poll h hinv hi hq hnd hinit
  | mr hl => exact ledger_mr h hinv ht hi hearly hl
  | loopExit hl hs => simp [hg.running] at hs
  | complete hcm hq ho =>
    rename_i t status sent cm wr rest
    have hst : status = .success := by simpa [noFailure] using hnf
    exact ledger_complete h hi hcm hq fun hsend => ho ⟨hsend, .inl hst⟩
  | send hcm hq ho hs => exact ledger_send h hinv ht hi hcm hq ho
  | deliver hcm hq hx hlive hlen => exact ledger_deliver h hinv ht hi hcm hq hx rfl
  | recvError hq hs => simp [noFailure] at hnf
  | check hct =>
    exact h.quiet (show _ = Function.update s.node i (s.node i) by simp) (m := s.main i) (by simp)
      (l := s.loop i) (by simp) rfl rfl (fun u => .refl ..) (fun _ _ _ => rfl) (fun _ _ => .rfl) hg
  | post hct hnd => exact ledger_post h hinv hi hct hnd rfl rfl rfl rfl rfl
  | store =>
    exact h.quiet rfl (m := s.main i) (by simp) (l := s.loop i) (by simp) rfl rfl
      (fun u => .of_qp rfl rfl .rfl rfl) (fun _ _ _ => rfl) (fun _ _ => .rfl)
      ⟨hg.running, hg.devices, hg.port, hg.main, hg.loop, hg.listening, hg.unused, hg.entry,
        hg.answering, hg.room⟩

theorem Ledger.start (h : Start cfg s) (he : Equipped cfg s) : Ledger cfg s := by
  obtain ⟨hnode, hpc, hnc, -⟩ := h
  refine ⟨fun i hi => ?_, fun c hc => by omega⟩
  obtain ⟨id, devs, mem, -, hn⟩ := hnode i hi
  obtain ⟨hm, hl, -⟩ := hpc i hi
  have hd := he.devices i hi
  rw [hn] at hd
  rw [hn, hm, hl]
  exact ⟨rfl, hd, fun _ => rfl, trivial, by simp, fun h => absurd rfl h, fun _ _ => rfl, (fun _ _ he => by cases he),
    fun _ ha => ha.elim, (fun _ _ hw => by cases hw)⟩

/-- What holds of a cluster in every state of an orderly run. -/
structure StartupInv (cfg : ClusterConfig) (s : Cluster) : Prop where
  cluster : ClusterInv cfg s
  table : TableInv cfg s
  ledger : Ledger cfg s

theorem StartupInv.step {e : ℕ × NodeEvent} (h : StartupInv cfg s) (hok : Orderly cfg s e)
    (hst : (sys cfg).step s e = some s') : StartupInv cfg s' := by
  obtain ⟨hi, hm⟩ := step_moves hst
  have hc := h.cluster
  exact ⟨⟨(hc.place.move hi hm).inv, (hc.msg.move hc.place hi hm hok.2.2).1,
    hc.mr.move hc.msg hc.place hi hm hok.2.2⟩, (h.table.move hc.place hi hok.1 hm).1,
    h.ledger.move hc h.table hi hok hm⟩

theorem StartupInv.start (h : Start cfg s) (he : Equipped cfg s) : StartupInv cfg s :=
  ⟨⟨.start h, .start h, .start h⟩, .start h, .start h he⟩

end Cluster

end HMP
