import Hmp.Sanity.Tasks
import Hmp.Spec.Cluster

/-! What the handlers of a node leave of a transport that has been set up: its
identifier, its peer and its message slots. -/

namespace HMP

namespace Node

/-- Slot `k` of peer `p` in the message area: the send slot for 0, a receive slot for 1 to 3. -/
def slot (nd : Node) (p k : ℕ) : ℕ := nd.baseAddr + p * 4 * HMP_TASK_SIZE + k * HMP_TASK_SIZE

/-- Transport `t` has been set up for peer `k`. -/
structure Located (nd : Node) (t k : ℕ) : Prop where
  nodeId : (nd.trans t).nodeId = k
  sendAddr : (nd.trans t).region.sendAddr = nd.slot k 0
  recvAddr : (nd.trans t).region.recvAddr = nd.slot k 1

/-- Only transport `u` changes, and it keeps what its setup has stored. -/
structure Steady (nd nd' : Node) (u : ℕ) : Prop where
  curnodeId : nd'.config.curnodeId = nd.config.curnodeId
  nodeCnt : nd'.config.nodeCnt = nd.config.nodeCnt
  addr : ∀ k, (nd'.config.nodeInfos k).addr = (nd.config.nodeInfos k).addr
  pool : nd'.dramMempool = nd.dramMempool
  nextTrans : nd.nextTrans ≤ nd'.nextTrans
  others : ∀ t ≠ u, nd'.trans t = nd.trans t
  cmId : (nd'.trans u).cmId = (nd.trans u).cmId
  nodeId : (nd'.trans u).nodeId = (nd.trans u).nodeId
  sendAddr : (nd'.trans u).region.sendAddr = (nd.trans u).region.sendAddr
  recvAddr : (nd'.trans u).region.recvAddr = (nd.trans u).region.recvAddr
  curRecv : (nd.trans u).region.curRecv < 3 → (nd'.trans u).region.curRecv < 3

namespace Steady

variable {nd nd₁ nd₂ : Node} {u : ℕ}

theorem same (hc : nd₁.config = nd.config) (hp : nd₁.dramMempool = nd.dramMempool)
    (hn : nd.nextTrans ≤ nd₁.nextTrans) (ht : nd₁.trans = nd.trans) : nd.Steady nd₁ u := by
  constructor <;> simp [hc, hp, hn, ht]

theorem refl (nd : Node) (u : ℕ) : nd.Steady nd u := same rfl rfl le_rfl rfl

theorem trans (h₁ : nd.Steady nd₁ u) (h₂ : nd₁.Steady nd₂ u) : nd.Steady nd₂ u where
  curnodeId := h₂.curnodeId.trans h₁.curnodeId
  nodeCnt := h₂.nodeCnt.trans h₁.nodeCnt
  addr k := (h₂.addr k).trans (h₁.addr k)
  pool := h₂.pool.trans h₁.pool
  nextTrans := h₁.nextTrans.trans h₂.nextTrans
  others t ht := (h₂.others t ht).trans (h₁.others t ht)
  cmId := h₂.cmId.trans h₁.cmId
  nodeId := h₂.nodeId.trans h₁.nodeId
  sendAddr := h₂.sendAddr.trans h₁.sendAddr
  recvAddr := h₂.recvAddr.trans h₁.recvAddr
  curRecv h := h₂.curRecv (h₁.curRecv h)

/-- A transport gets new values in other fields than those of its setup. -/
theorem of_setTrans (nd : Node) (u : ℕ) {x : HmpTransport} (hc : x.cmId = (nd.trans u).cmId)
    (hn : x.nodeId = (nd.trans u).nodeId) (hr : x.region = (nd.trans u).region) :
    nd.Steady (nd.setTrans u x) u := by
  constructor <;> simp +contextual [hc, hn, hr]

theorem cmId_eq (h : nd.Steady nd₁ u) (t : ℕ) : (nd₁.trans t).cmId = (nd.trans t).cmId := by
  by_cases ht : t = u
  · exact ht ▸ h.cmId
  · rw [h.others t ht]

theorem slot_eq (h : nd.Steady nd₁ u) : nd₁.slot = nd.slot := by
  funext p k
  simp only [slot, baseAddr, h.pool]

theorem located (h : nd.Steady nd₁ u) {t k : ℕ} (hl : nd.Located t k) : nd₁.Located t k := by
  obtain ⟨h₁, h₂, h₃⟩ := hl
  by_cases ht : t = u
  · subst ht
    exact ⟨h.nodeId.trans h₁, by rw [h.sendAddr, h₂, h.slot_eq], by rw [h.recvAddr, h₃, h.slot_eq]⟩
  · exact ⟨by rw [h.others t ht, h₁], by rw [h.others t ht, h₂, h.slot_eq],
      by rw [h.others t ht, h₃, h.slot_eq]⟩

theorem curRecv_lt (h : nd.Steady nd₁ u) {t : ℕ} (ht : (nd.trans t).region.curRecv < 3) :
    (nd₁.trans t).region.curRecv < 3 := by
  by_cases htu : t = u
  · subst htu
    exact h.curRecv ht
  · rwa [h.others t htu]

end Steady

end Node

open Node

theorem setState_steady (nd : Node) (u : ℕ) (st : TransportState) : nd.Steady (nd.setState u st) u :=
  .of_setTrans nd u rfl rfl rfl

/-- The context is told to stop, and the transport is in error. -/
theorem stop_steady (nd : Node) (u : ℕ) :
    nd.Steady (({ nd with stop := true }).setState u .error) u := by
  have hs : nd.Steady { nd with stop := true } u := .same rfl rfl le_rfl rfl
  exact hs.trans (setState_steady _ u .error)

theorem hmpPostRecv_steady (nd : Node) (u : ℕ) (o : PostOutcome) :
    nd.Steady (hmpPostRecv nd u o) u := by
  have ht := hmpPostRecv_trans nd u o
  split_ifs at ht
  · constructor <;> simp +contextual [ht]
    exact fun _ => Nat.mod_lt _ (by norm_num)
  · exact .same (by simp) (by simp) (by simp) ht

theorem hmpPostSend_steady (nd : Node) (u : ℕ) (msg : HmpMsg) (o : PostOutcome) :
    nd.Steady (hmpPostSend nd u msg o) u :=
  .same (by simp) (by simp) (by simp) (by simp)

theorem hmpPrePostRecv_steady (nd : Node) (u : ℕ) (o₁ o₂ : PostOutcome) :
    nd.Steady (hmpPrePostRecv nd u o₁ o₂) u :=
  (hmpPostRecv_steady nd u o₁).trans (hmpPostRecv_steady _ u o₂)

theorem hmpQpRelease_steady (nd : Node) (u : ℕ) : nd.Steady (hmpQpRelease nd u) u := by
  unfold hmpQpRelease
  split_ifs <;> exact .same rfl rfl le_rfl rfl

theorem onCmRouteResolved_steady (nd : Node) (u : ℕ) (o : RouteOutcome) :
    nd.Steady (onCmRouteResolved nd u o).1 u := by
  have hq : nd.Steady (nd.setQp u { live := true, registered := true }) u := .same rfl rfl le_rfl rfl
  have hp := hq.trans (hmpPrePostRecv_steady _ u o.recv₁ o.recv₂)
  rcases onCmRouteResolved_cases nd u o with ⟨-, he⟩ | ⟨-, -, he⟩ | ⟨-, -, he⟩ <;> rw [he]
  · exact .refl nd u
  · have hr := hp.trans (hmpQpRelease_steady _ u)
    exact hr.trans (stop_steady _ u)
  · exact hp

/-- A handler of a CM event other than a request keeps the setup of every transport. -/
theorem hmpHandleEcEvent_steady (nd : Node) (u : ℕ) (e : CmEvent) (h : e.type ≠ .connectRequest) :
    nd.Steady (hmpHandleEcEvent nd u e).1 u := by
  cases e with
  | addrResolved verbs route =>
    rw [hmpHandleEcEvent, onCmAddrResolved_eq]
    exact .of_setTrans nd u rfl rfl rfl
  | routeResolved o => exact onCmRouteResolved_steady nd u o
  | connectRequest cm peerAddr o => exact absurd rfl h
  | established peer o =>
    have ht : nd.Steady (nd.setTrans u { nd.trans u with peerAddr := peer }) u :=
      .of_setTrans nd u rfl rfl rfl
    exact ht.trans (hmpPostSend_steady _ u _ o)
  | disconnected => exact .same rfl rfl le_rfl rfl
  | other type =>
    obtain ⟨type, _⟩ := type
    cases type with
    | connectError => exact stop_steady nd u
    | connectRequest => exact absurd rfl h
    | _ => exact .refl nd u

/-- A statement of `hmp_handle_mr_msg` stores into the entry of the peer, or into `trans_state`. -/
theorem mrStmt_steady (nd : Node) (u data : ℕ) (stmt : MrStmt) :
    nd.Steady (stmt.exec nd u data) u := by
  have hi : ∀ mr : HmpMrInfo, nd.Steady (nd.setInfo (nd.trans u).nodeId
      { nd.config.nodeInfos (nd.trans u).nodeId with dramMr := mr }) u := by
    intro mr
    constructor <;> try simp
    intro k
    by_cases hk : k = (nd.trans u).nodeId
    · rw [hk, Function.update_self]
    · rw [Function.update_of_ne hk]
  cases stmt with
  | addr => exact hi _
  | length => exact hi _
  | rkey => exact hi _
  | state => exact setState_steady nd u .connected

/-- A posted transfer leaves the transports alone. -/
theorem rdmaPostOf_frame (nd : Node) (u : ℕ) (op : TransferOp) (localAddr remoteAddr : ℕ)
    (length : ℤ) (o : PostOutcome) {nd' : Node}
    (h : nd' = (Cluster.rdmaPostOf op nd u localAddr remoteAddr length o).1) :
    nd'.config = nd.config ∧ nd'.dramMempool = nd.dramMempool ∧ nd'.nextTrans = nd.nextTrans ∧
      nd'.trans = nd.trans ∧ nd'.listenState = nd.listenState ∧
      nd'.connectTrans = nd.connectTrans ∧ nd'.mem = nd.mem := by
  subst h
  cases op <;>
    simp only [Cluster.rdmaPostOf, hmpRdmaReadPost, hmpRdmaWritePost, rdmaPost] <;>
    split_ifs <;> exact ⟨rfl, rfl, rfl, rfl, rfl, rfl, rfl⟩

/-! ## The table and the state of the listening transport -/

namespace Node

structure SameTable (nd nd' : Node) : Prop where
  listenState : nd'.listenState = nd.listenState
  connectTrans : nd'.connectTrans = nd.connectTrans

theorem SameTable.trans {nd nd₁ nd₂ : Node} (h₁ : nd.SameTable nd₁) (h₂ : nd₁.SameTable nd₂) :
    nd.SameTable nd₂ :=
  ⟨h₂.listenState.trans h₁.listenState, h₂.connectTrans.trans h₁.connectTrans⟩

end Node

theorem hmpPostRecv_sameTable (nd : Node) (u : ℕ) (o : PostOutcome) :
    nd.SameTable (hmpPostRecv nd u o) := by
  unfold hmpPostRecv
  split_ifs <;> exact ⟨rfl, rfl⟩

theorem hmpPostSend_sameTable (nd : Node) (u : ℕ) (msg : HmpMsg) (o : PostOutcome) :
    nd.SameTable (hmpPostSend nd u msg o) := by
  unfold hmpPostSend
  split_ifs <;> exact ⟨rfl, rfl⟩

theorem hmpPrePostRecv_sameTable (nd : Node) (u : ℕ) (o₁ o₂ : PostOutcome) :
    nd.SameTable (hmpPrePostRecv nd u o₁ o₂) :=
  (hmpPostRecv_sameTable nd u o₁).trans (hmpPostRecv_sameTable _ u o₂)

theorem onCmRouteResolved_sameTable (nd : Node) (u : ℕ) (o : RouteOutcome) :
    nd.SameTable (onCmRouteResolved nd u o).1 := by
  have hq : nd.SameTable (nd.setQp u { live := true, registered := true }) := ⟨rfl, rfl⟩
  have hp := hq.trans (hmpPrePostRecv_sameTable _ u o.recv₁ o.recv₂)
  rcases onCmRouteResolved_cases nd u o with ⟨-, he⟩ | ⟨-, -, he⟩ | ⟨-, -, he⟩ <;> rw [he]
  · exact ⟨rfl, rfl⟩
  · refine hp.trans ?_
    unfold hmpQpRelease
    split_ifs <;> exact ⟨rfl, rfl⟩
  · exact hp

/-- Only a request touches the table. -/
theorem hmpHandleEcEvent_sameTable (nd : Node) (u : ℕ) (e : CmEvent)
    (h : e.type ≠ .connectRequest) : nd.SameTable (hmpHandleEcEvent nd u e).1 := by
  cases e with
  | addrResolved verbs route =>
    rw [hmpHandleEcEvent, onCmAddrResolved_eq]
    exact ⟨rfl, rfl⟩
  | routeResolved o => exact onCmRouteResolved_sameTable nd u o
  | connectRequest cm peerAddr o => exact absurd rfl h
  | established peer o =>
    have ht : nd.SameTable (nd.setTrans u { nd.trans u with peerAddr := peer }) := ⟨rfl, rfl⟩
    exact ht.trans (hmpPostSend_sameTable _ u _ o)
  | disconnected => exact ⟨rfl, rfl⟩
  | other type =>
    obtain ⟨type, _⟩ := type
    cases type <;> exact ⟨rfl, rfl⟩

theorem mrStmt_sameTable (nd : Node) (u data : ℕ) (stmt : MrStmt) :
    nd.SameTable (stmt.exec nd u data) := by
  cases stmt <;> exact ⟨rfl, rfl⟩

theorem dispatchWc_sameTable (nd : Node) (wc : IbvWc) : nd.SameTable (dispatchWc nd wc) := by
  rcases dispatchWc_cases nd wc with h | ⟨-, -, h⟩ | ⟨-, -, h⟩ <;> rw [h] <;> exact ⟨rfl, rfl⟩

/-- A completion that brings no INIT message leaves everything but its task as it is. -/
theorem dispatchWc_quiet {nd : Node} {wc : IbvWc}
    (h : ¬ (wc.status = .success ∧ isInitMsg nd wc = true)) :
    dispatchWc nd wc = nd ∨
      dispatchWc nd wc = nd.setTask wc.wrId { nd.task wc.wrId with type := .done } := by
  rcases dispatchWc_cases nd wc with he | ⟨hs, hi, -⟩ | ⟨-, -, he⟩
  · exact .inl he
  · exact absurd ⟨hs, hi⟩ h
  · exact .inr he

end HMP
