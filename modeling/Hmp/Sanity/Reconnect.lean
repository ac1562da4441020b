import Hmp.Sanity.Refs
import Hmp.Spec.Reconnect

/-! What the steps of a node leave of the regions, the receives and the completions of its
transports, and what a request adds. -/

namespace HMP

open Node

/-- The receive is posted on a slot of the ring of its transport. -/
def InRing (nd : Node) (t : ℕ) (wr : IbvRecvWr) : Prop :=
  wr.sge.length = HMP_TASK_SIZE ∧
    ∃ r < 3, wr.sge.addr = (nd.trans t).region.recvAddr + r * HMP_TASK_SIZE

theorem Node.Steady.recvAddr_eq {nd nd' : Node} {u : ℕ} (h : nd.Steady nd' u) (t : ℕ) :
    (nd'.trans t).region.recvAddr = (nd.trans t).region.recvAddr := by
  by_cases ht : t = u
  · exact ht ▸ h.recvAddr
  · rw [h.others t ht]

theorem InRing.congr {nd nd' : Node} {t : ℕ} {wr : IbvRecvWr} (h : InRing nd t wr)
    (hr : (nd'.trans t).region.recvAddr = (nd.trans t).region.recvAddr) : InRing nd' t wr := by
  obtain ⟨hlen, r, hlt, haddr⟩ := h
  exact ⟨hlen, r, hlt, by rw [hr]; exact haddr⟩

/-- A step after which transports keep their setup, and there is no new receive, no new queue pair
and no new message. -/
structure Calm (nd nd' : Node) : Prop where
  steady : ∃ u, nd.Steady nd' u
  nextTrans : nd'.nextTrans = nd.nextTrans
  rq : ∀ t, ∀ wr ∈ (nd'.qp t).rq, wr ∈ (nd.qp t).rq
  live : ∀ t, (nd'.qp t).live = true → (nd.qp t).live = true
  cq : ∀ t, ∀ wc ∈ (nd'.qp t).cq, wc ∈ (nd.qp t).cq ∨ ¬ Reconnect.Message wc

theorem Calm.of_qp {nd nd' : Node} {u : ℕ} (hst : nd.Steady nd' u)
    (hn : nd'.nextTrans = nd.nextTrans) (hq : nd'.qp = nd.qp) : Calm nd nd' :=
  ⟨⟨u, hst⟩, hn, fun _ _ hw => hq ▸ hw, fun _ hl => hq ▸ hl, fun _ _ hw => .inl (hq ▸ hw)⟩

/-- One queue pair is replaced by one with no new receives and no new messages. -/
theorem Calm.of_setQp {nd nd' : Node} {t : ℕ} {q : VerbsQp} {u : ℕ} (hst : nd.Steady nd' u)
    (hn : nd'.nextTrans = nd.nextTrans) (hq : nd'.qp = Function.update nd.qp t q)
    (hr : ∀ wr ∈ q.rq, wr ∈ (nd.qp t).rq) (hl : q.live = true → (nd.qp t).live = true)
    (hc : ∀ wc ∈ q.cq, wc ∈ (nd.qp t).cq ∨ ¬ Reconnect.Message wc) : Calm nd nd' := by
  refine ⟨⟨u, hst⟩, hn, fun v wr hw => ?_, fun v hv => ?_, fun v wc hw => ?_⟩ <;>
    by_cases hvt : v = t
  · subst hvt
    rw [hq, Function.update_self] at hw
    exact hr wr hw
  · rwa [hq, Function.update_of_ne hvt] at hw
  · subst hvt
    rw [hq, Function.update_self] at hv
    exact hl hv
  · rwa [hq, Function.update_of_ne hvt] at hv
  · subst hvt
    rw [hq, Function.update_self] at hw
    exact hc wc hw
  · rw [hq, Function.update_of_ne hvt] at hw
    exact .inl hw

/-! ## Receives -/

theorem hmpPostRecv_ring {nd : Node} {t : ℕ} (o : PostOutcome)
    (hcur : (nd.trans t).region.curRecv < 3) (u : ℕ) :
    ∀ wr ∈ ((hmpPostRecv nd t o).qp u).rq, wr ∈ (nd.qp u).rq ∨ u = t ∧ InRing nd t wr := by
  intro wr hw
  by_cases hu : u = t
  · subst hu
    rw [hmpPostRecv_rq, List.mem_append] at hw
    refine hw.imp_right fun hw => ⟨rfl, ?_⟩
    split_ifs at hw
    · obtain rfl := List.mem_singleton.mp hw
      exact ⟨rfl, _, hcur, rfl⟩
    · exact absurd hw (List.not_mem_nil)
  · rw [(hmpPostRecv_onlyAt nd t o).qp u hu] at hw
    exact .inl hw

theorem hmpPrePostRecv_ring {nd : Node} {t : ℕ} (o₁ o₂ : PostOutcome)
    (hcur : (nd.trans t).region.curRecv < 3) (u : ℕ) :
    ∀ wr ∈ ((hmpPrePostRecv nd t o₁ o₂).qp u).rq, wr ∈ (nd.qp u).rq ∨ u = t ∧ InRing nd t wr := by
  intro wr hw
  have hst := hmpPostRecv_steady nd t o₁
  rcases hmpPostRecv_ring o₂ (hst.curRecv hcur) u wr hw with hw | ⟨rfl, hring⟩
  · exact hmpPostRecv_ring o₁ hcur u wr hw
  · exact .inr ⟨rfl, hring.congr (hst.recvAddr_eq u).symm⟩

/-! ## Handlers -/

/-- The handler of a resolved route may post receives on its own transport. -/
theorem onCmRouteResolved_ring {nd : Node} {t : ℕ} (o : RouteOutcome)
    (hcur : (nd.trans t).region.curRecv < 3) (u : ℕ) :
    ∀ wr ∈ ((onCmRouteResolved nd t o).1.qp u).rq, wr ∈ (nd.qp u).rq ∨ u = t ∧ InRing nd t wr := by
  intro wr hw
  by_cases hu : u = t
  · subst hu
    have hring := @hmpPrePostRecv_ring (nd.setQp u { live := true, registered := true }) u
      o.recv₁ o.recv₂ hcur u
    rcases onCmRouteResolved_cases nd u o with ⟨-, he⟩ | ⟨-, -, he⟩ | ⟨-, -, he⟩ <;> rw [he] at hw
    · exact .inl hw
    · -- the queue pair has been released again
      change wr ∈ ((hmpQpRelease _ u).qp u).rq at hw
      rw [hmpQpRelease_qp] at hw
      split_ifs at hw
      · simp at hw
      · rcases hring wr hw with hw | hr
        · simp at hw
        · exact .inr hr
    · rcases hring wr hw with hw | hr
      · simp at hw
      · exact .inr hr
  · rw [Transfer.onCmRouteResolved_qp nd o hu] at hw
    exact .inl hw

/-- A handler other than those of a request and of a resolved route. -/
theorem hmpHandleEcEvent_calm (nd : Node) (u : ℕ) (e : CmEvent)
    (hreq : ∀ cm peerAddr o, e ≠ .connectRequest cm peerAddr o)
    (hroute : ∀ o, e ≠ .routeResolved o) : Calm nd (hmpHandleEcEvent nd u e).1 := by
  cases e with
  | addrResolved verbs route =>
    have hst := hmpHandleEcEvent_steady nd u (.addrResolved verbs route) (by simp [CmEvent.type])
    rw [hmpHandleEcEvent, onCmAddrResolved_eq] at hst ⊢
    exact .of_qp hst rfl rfl
  | routeResolved o => exact absurd rfl (hroute o)
  | connectRequest cm peerAddr o => exact absurd rfl (hreq cm peerAddr o)
  | established peer o =>
    have hst := hmpHandleEcEvent_steady nd u (.established peer o) (by simp [CmEvent.type])
    have hq := hmpPostSend_qp (nd.setTrans u { nd.trans u with peerAddr := peer }) u
      (hmpBuildInitMsg (nd.setTrans u { nd.trans u with peerAddr := peer })) o
    have hn : (hmpHandleEcEvent nd u (.established peer o)).1.nextTrans = nd.nextTrans := by
      simp [hmpHandleEcEvent, onCmEstablished]
    split_ifs at hq
    · exact .of_setQp hst hn hq (fun _ hw => hw) id fun _ hw => .inl hw
    · exact .of_qp hst hn hq
  | disconnected =>
    have hst := hmpHandleEcEvent_steady nd u .disconnected (by simp [CmEvent.type])
    exact .of_setQp hst rfl rfl (fun _ hw => hw) (fun h => absurd h (by simp)) fun _ hw => .inl hw
  | other type =>
    obtain ⟨type, _⟩ := type
    cases type with
    | connectError => exact .of_qp (stop_steady nd u) rfl rfl
    | _ => exact .of_qp (.refl nd u) rfl rfl

theorem hmpHandleMrMsg_steady (nd : Node) (t data : ℕ) : nd.Steady (hmpHandleMrMsg nd t data) t :=
  (((mrStmt_steady nd t data .addr).trans (mrStmt_steady _ t data .length)).trans
    (mrStmt_steady _ t data .rkey)).trans (mrStmt_steady _ t data .state)

/-- A handled completion, whichever it is. -/
theorem dispatchWc_calm {nd : Node} {t : ℕ} {wc : IbvWc} {rest : List IbvWc}
    (hcq : (nd.qp t).cq = wc :: rest) :
    Calm nd (dispatchWc (nd.setQp t { nd.qp t with cq := rest }) wc) := by
  have hq := (dispatchWc_frame (nd.setQp t { nd.qp t with cq := rest }) wc).1
  have hn := (dispatchWc_frame (nd.setQp t { nd.qp t with cq := rest }) wc).2.2.1
  have hst : ∃ u, nd.Steady (dispatchWc (nd.setQp t { nd.qp t with cq := rest }) wc) u := by
    have h0 : ∀ u, nd.Steady (nd.setQp t { nd.qp t with cq := rest }) u :=
      fun u => .same rfl rfl le_rfl rfl
    rcases dispatchWc_cases (nd.setQp t { nd.qp t with cq := rest }) wc with
      h | ⟨-, -, h⟩ | ⟨-, -, h⟩ <;> rw [h]
    · exact ⟨t, h0 t⟩
    · exact ⟨_, (h0 _).trans (hmpHandleMrMsg_steady _ _ _)⟩
    · exact ⟨t, (h0 t).trans (.same rfl rfl le_rfl rfl)⟩
  obtain ⟨u, hst⟩ := hst
  refine .of_setQp hst hn hq (fun _ hw => hw) id fun wc' hw => .inl ?_
  rw [hcq]
  exact List.mem_cons_of_mem _ hw

/-- A request that has found its peer adds one transport, with the slots of that peer. -/
structure Records (nd nd' : Node) (p : ℕ) : Prop where
  config : nd'.config = nd.config
  pool : nd'.dramMempool = nd.dramMempool
  nextTrans : nd'.nextTrans = nd.nextTrans + 1
  trans : ∀ t ≠ nd.nextTrans, nd'.trans t = nd.trans t
  qp : ∀ t ≠ nd.nextTrans, nd'.qp t = nd.qp t
  located : nd'.Located nd.nextTrans p
  ring : (nd'.trans nd.nextTrans).region.curRecv < 3
  recvs : ∀ wr ∈ (nd'.qp nd.nextTrans).rq, InRing nd' nd.nextTrans wr

theorem Records.setState {nd nd' : Node} {p : ℕ} (h : Records nd nd' p) (st : TransportState) :
    Records nd (nd'.setState nd.nextTrans st) p := by
  have hst := setState_steady nd' nd.nextTrans st
  refine ⟨h.config, h.pool, h.nextTrans, fun t ht => ?_, h.qp, hst.located h.located,
    hst.curRecv h.ring, fun wr hw => (h.recvs wr hw).congr hst.recvAddr⟩
  rw [hst.others t ht]
  exact h.trans t ht

theorem onCmConnectRequest_records {nd : Node} {peerAddr : String} {o : RequestOutcome} {p : ℕ}
    (cm : CmId) (hg : ¬ Twin.GivesUp nd o) (hp : requestPeer nd peerAddr = some p) :
    Records nd (onCmConnectRequest nd cm peerAddr o).1 p := by
  have hreq := requestTransport_eq nd cm o
  obtain ⟨hc, hrest⟩ := not_or.mp hg
  rw [if_neg hc, if_neg hrest] at hreq
  obtain ⟨nd₁, hnd₁⟩ : ∃ nd₁, nd₁ = requestRegister (withRequestQp nd cm o) nd.nextTrans peerAddr :=
    ⟨_, rfl⟩
  have hreg : nd₁ = { (withRequestQp nd cm o).setTrans nd.nextTrans
        { (withRequestQp nd cm o).trans nd.nextTrans with
          nodeId := p, region := slotRegion (withRequestQp nd cm o) p } with
      connectTrans := Function.update nd.connectTrans p (some nd.nextTrans) } := by
    have hfind : (List.range (withRequestQp nd cm o).config.curnodeId).find? (fun i =>
        ((withRequestQp nd cm o).config.nodeInfos i).addr = peerAddr) = some p := hp
    rw [hnd₁, requestRegister, hfind]
    rfl
  -- the transport as the search leaves it, before the receives
  have hloc : nd₁.Located nd.nextTrans p := by
    rw [hreg]
    constructor <;> simp [slotRegion, Node.slot, Node.baseAddr]
  have hring : (nd₁.trans nd.nextTrans).region.curRecv < 3 := by simp [hreg, slotRegion]
  have hrq : (nd₁.qp nd.nextTrans).rq = [] := by simp [hreg, withRequestQp]
  have hst := hmpPrePostRecv_steady nd₁ nd.nextTrans o.recv₁ o.recv₂
  have honly := hmpPrePostRecv_onlyAt nd₁ nd.nextTrans o.recv₁ o.recv₂
  obtain ⟨-, hn, hcfg, hpool⟩ := hmpPrePostRecv_frame nd₁ nd.nextTrans o.recv₁ o.recv₂
  have key : Records nd (hmpPrePostRecv nd₁ nd.nextTrans o.recv₁ o.recv₂) p := by
    refine ⟨hcfg.trans (by rw [hreg]; rfl), hpool.trans (by rw [hreg]; rfl),
      hn.trans (by rw [hreg]; rfl), fun t ht => (honly.trans t ht).trans ?_,
      fun t ht => (honly.qp t ht).trans ?_, hst.located hloc, hst.curRecv hring, fun wr hw => ?_⟩
    · simp [hreg, withRequestQp, withRequest, ht]
    · simp [hreg, withRequestQp, withRequest, ht]
    · rcases hmpPrePostRecv_ring o.recv₁ o.recv₂ hring nd.nextTrans wr hw with hw | ⟨-, hr⟩
      · rw [hrq] at hw
        exact absurd hw List.not_mem_nil
      · exact hr.congr hst.recvAddr
  rw [onCmConnectRequest, hreq]
  dsimp only [requestAccept]
  rw [← hnd₁]
  by_cases ha : o.accept = 0
  · simpa [ha] using key.setState .connecting
  · simpa [ha] using key

namespace Transfer

variable {b b' : Transfer}

/-- Every step other than a request, a resolved route and an arriving message is calm. -/
theorem step_calm {e : TransferEvent} (hs : b.step e = some b')
    (hreq : ∀ t cm peerAddr o, e ≠ .cm t (.connectRequest cm peerAddr o))
    (hroute : ∀ t o, e ≠ .cm t (.routeResolved o))
    (hrecv : ∀ t status bytes, e ≠ .recv t status bytes) : Calm b.node b'.node := by
  have hsame : ∀ {nd : Node}, nd.config = b.node.config → nd.dramMempool = b.node.dramMempool →
      nd.nextTrans = b.node.nextTrans → nd.trans = b.node.trans → b.node.Steady nd 0 :=
    fun hc hp hn ht => .same hc hp hn.ge ht
  cases e with
  | call op localAddr hmAddr length =>
    obtain ⟨-, r, -, ⟨mem, -, rfl⟩ | ⟨t, addr, -, rfl⟩⟩ := callStep_some hs
    · exact .of_qp (hsame rfl rfl rfl rfl) rfl rfl
    · exact .of_qp (.refl _ 0) rfl rfl
  | check o =>
    obtain ⟨c, happ, rfl | ⟨-, ⟨-, rfl⟩ | ⟨-, rfl⟩⟩⟩ := checkStep_some hs
    · exact .of_qp (.refl _ 0) rfl rfl
    · dsimp only
      rw [hmpRdmaReadPost_eq]
      split_ifs
      · exact .of_setQp (hsame rfl rfl rfl rfl) rfl rfl (fun _ hw => hw) id fun _ hw => .inl hw
      · exact .of_qp (hsame rfl rfl rfl rfl) rfl rfl
      · exact .of_qp (.refl _ 0) rfl rfl
    · dsimp only
      rw [hmpRdmaWritePost_eq]
      split_ifs
      · exact .of_setQp (hsame rfl rfl rfl rfl) rfl rfl (fun _ hw => hw) id fun _ hw => .inl hw
      · exact .of_qp (hsame rfl rfl rfl rfl) rfl rfl
      · exact .of_qp (.refl _ 0) rfl rfl
  | ret =>
    obtain ⟨c, p, -, -, rfl⟩ := retStep_some hs
    exact .of_qp (.refl _ 0) rfl rfl
  | complete t status =>
    obtain ⟨wr, rest, mem, remote, hsq, -, -, rfl⟩ := completeStep_some hs
    refine .of_setQp (hsame rfl rfl rfl rfl) rfl rfl (fun _ hw => hw) id fun wc hw => ?_
    refine (List.mem_append.mp hw).imp_right fun hw => ?_
    obtain rfl := List.mem_singleton.mp hw
    rintro ⟨-, ho⟩
    cases hop : wr.opcode <;> simp [hop, IbvWrOpcode.wc] at ho
  | recv t status bytes => exact absurd rfl (hrecv t status bytes)
  | poll t =>
    obtain ⟨wc, rest, hcq, -, -, rfl⟩ := pollStep_some hs
    exact dispatchWc_calm hcq
  | cm u e =>
    obtain ⟨-, rfl⟩ := cmStep_some hs
    exact hmpHandleEcEvent_calm b.node u e (fun cm a o he => hreq u cm a o (he ▸ rfl))
      fun o he => hroute u o (he ▸ rfl)
  | loopExit =>
    obtain ⟨-, hs⟩ := Option.ite_none_right_eq_some.mp hs
    obtain rfl := Option.some.inj hs
    exact .of_qp (.refl _ 0) rfl rfl
  | store addr bytes =>
    obtain rfl := Option.some.inj hs
    exact .of_qp (hsame rfl rfl rfl rfl) rfl rfl
  | storeRemote j addr bytes =>
    obtain rfl := Option.some.inj hs
    exact .of_qp (.refl _ 0) rfl rfl

end Transfer

end HMP
