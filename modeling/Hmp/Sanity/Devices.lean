import Hmp.Sanity.Refs

/-! No step of a node changes its device list, and a transport gets no device that is not found
there. -/

namespace HMP

theorem hmpDeviceLookup_verbs {nd : Node} {verbs : ℕ} {d : HmpDevice}
    (h : hmpDeviceLookup nd verbs = some d) : d.verbs = verbs := by
  unfold hmpDeviceLookup at h
  simpa using List.find?_some h

namespace Node

/-- A lookup finds `d`. -/
def Finds (nd : Node) (d : HmpDevice) : Prop := hmpDeviceLookup nd d.verbs = some d

theorem Finds.of_lookup {nd : Node} {verbs : ℕ} {d : HmpDevice}
    (h : hmpDeviceLookup nd verbs = some d) : nd.Finds d := by
  rw [Finds, hmpDeviceLookup_verbs h, h]

theorem Finds.congr {nd nd' : Node} {d : HmpDevice} (h : nd.Finds d)
    (hl : nd'.devList = nd.devList) : nd'.Finds d := by
  unfold Finds hmpDeviceLookup at h ⊢
  rw [hl, h]

/-- The devices of the transports behind a step. -/
structure KeepsDevices (nd nd' : Node) : Prop where
  devList : nd'.devList = nd.devList
  device : ∀ t d, (nd'.trans t).device = some d → (nd.trans t).device = some d ∨ nd.Finds d

namespace KeepsDevices

variable {nd nd₁ nd₂ : Node}

theorem same (hl : nd₁.devList = nd.devList) (ht : nd₁.trans = nd.trans) : nd.KeepsDevices nd₁ :=
  ⟨hl, fun t d h => .inl (by rw [← ht]; exact h)⟩

theorem trans (h₁ : nd.KeepsDevices nd₁) (h₂ : nd₁.KeepsDevices nd₂) : nd.KeepsDevices nd₂ where
  devList := h₂.devList.trans h₁.devList
  device t d h := by
    rcases h₂.device t d h with h | h
    · exact h₁.device t d h
    · exact .inr (h.congr h₁.devList.symm)

theorem of_update {t : ℕ} {x : HmpTransport} (hl : nd₁.devList = nd.devList)
    (ht : nd₁.trans = Function.update nd.trans t x)
    (hx : ∀ d, x.device = some d → (nd.trans t).device = some d ∨ nd.Finds d) :
    nd.KeepsDevices nd₁ := by
  refine ⟨hl, fun u d h => ?_⟩
  rw [ht] at h
  by_cases hu : u = t
  · subst hu
    rw [Function.update_self] at h
    exact hx d h
  · rw [Function.update_of_ne hu] at h
    exact .inl h

end KeepsDevices

end Node

open Node

theorem setState_keepsDevices (nd : Node) (t : ℕ) (st : TransportState) :
    nd.KeepsDevices (nd.setState t st) := .of_update rfl rfl fun _ h => .inl h

theorem stop_keepsDevices (nd : Node) (t : ℕ) :
    nd.KeepsDevices (({ nd with stop := true }).setState t .error) := .of_update rfl rfl fun _ h => .inl h

theorem hmpQpRelease_keepsDevices (nd : Node) (t : ℕ) : nd.KeepsDevices (hmpQpRelease nd t) := by
  unfold hmpQpRelease
  split_ifs <;> exact .same rfl rfl

theorem hmpPostRecv_keepsDevices (nd : Node) (t : ℕ) (o : PostOutcome) :
    nd.KeepsDevices (hmpPostRecv nd t o) := by
  have hl : (hmpPostRecv nd t o).devList = nd.devList := by rw [(hmpPostRecv_onlyAt nd t o).rest]
  have ht := hmpPostRecv_trans nd t o
  split_ifs at ht
  · exact .of_update hl ht fun _ h => .inl h
  · exact .same hl ht

theorem hmpPrePostRecv_keepsDevices (nd : Node) (t : ℕ) (o₁ o₂ : PostOutcome) :
    nd.KeepsDevices (hmpPrePostRecv nd t o₁ o₂) :=
  (hmpPostRecv_keepsDevices nd t o₁).trans (hmpPostRecv_keepsDevices _ t o₂)

theorem hmpPostSend_keepsDevices (nd : Node) (t : ℕ) (msg : HmpMsg) (o : PostOutcome) :
    nd.KeepsDevices (hmpPostSend nd t msg o) := by
  refine .same ?_ (hmpPostSend_trans nd t msg o)
  unfold hmpPostSend
  split_ifs <;> rfl

/-! ## CM events -/

theorem onCmRouteResolved_keepsDevices (nd : Node) (t : ℕ) (o : RouteOutcome) :
    nd.KeepsDevices (onCmRouteResolved nd t o).1 := by
  have hp : nd.KeepsDevices
      (hmpPrePostRecv (nd.setQp t { live := true, registered := true }) t o.recv₁ o.recv₂) :=
    (KeepsDevices.same rfl rfl : nd.KeepsDevices (nd.setQp t _)).trans
      (hmpPrePostRecv_keepsDevices _ t o.recv₁ o.recv₂)
  rcases onCmRouteResolved_cases nd t o with ⟨-, he⟩ | ⟨-, -, he⟩ | ⟨-, -, he⟩ <;> rw [he]
  · exact .same rfl rfl
  · exact (hp.trans (hmpQpRelease_keepsDevices _ t)).trans (stop_keepsDevices _ t)
  · exact hp

theorem withRequest_keepsDevices (nd : Node) (cm : CmId) (verbs : ℕ) :
    nd.KeepsDevices (withRequest nd cm (hmpDeviceLookup nd verbs)) :=
  .of_update rfl rfl fun _ h => .inr (.of_lookup h)

theorem requestRegister_keepsDevices (nd : Node) (t : ℕ) (peerAddr : String) :
    nd.KeepsDevices (requestRegister nd t peerAddr) := by
  unfold requestRegister
  split
  · exact .of_update rfl rfl fun _ h => .inl h
  · exact .same rfl rfl

theorem onCmConnectRequest_keepsDevices (nd : Node) (cm : CmId) (peerAddr : String)
    (o : RequestOutcome) : nd.KeepsDevices (onCmConnectRequest nd cm peerAddr o).1 := by
  have hreq := withRequest_keepsDevices nd cm o.verbs
  have hqp : nd.KeepsDevices (withRequestQp nd cm o) := hreq.trans (.same rfl rfl)
  have hpost : nd.KeepsDevices (hmpPrePostRecv (requestRegister (withRequestQp nd cm o)
      nd.nextTrans peerAddr) nd.nextTrans o.recv₁ o.recv₂) :=
    (hqp.trans (requestRegister_keepsDevices ..)).trans (hmpPrePostRecv_keepsDevices ..)
  rcases onCmConnectRequest_cases nd cm peerAddr o with ⟨-, he⟩ | ⟨nd₂, rfl, ⟨-, he⟩ | ⟨-, he⟩⟩ <;>
    rw [he]
  · rcases requestTransport_cases nd cm o with h | h | h <;> rw [h]
    · exact .same rfl rfl
    · exact hreq
    · exact hqp
  · exact hpost
  · exact hpost.trans (setState_keepsDevices ..)

theorem hmpHandleEcEvent_keepsDevices (nd : Node) (t : ℕ) (e : CmEvent) :
    nd.KeepsDevices (hmpHandleEcEvent nd t e).1 := by
  cases e with
  | addrResolved verbs route =>
    rw [hmpHandleEcEvent, onCmAddrResolved_eq]
    exact .of_update rfl rfl fun _ h => .inr (.of_lookup h)
  | routeResolved o => exact onCmRouteResolved_keepsDevices nd t o
  | connectRequest cm peerAddr o => exact onCmConnectRequest_keepsDevices nd cm peerAddr o
  | established peer o =>
    exact (KeepsDevices.of_update rfl rfl fun _ h => .inl h : nd.KeepsDevices
      (nd.setTrans t { nd.trans t with peerAddr := peer })).trans (hmpPostSend_keepsDevices ..)
  | disconnected => exact .same rfl rfl
  | other type =>
    obtain ⟨type, _⟩ := type
    cases type with
    | connectError => exact stop_keepsDevices nd t
    | _ => exact .same rfl rfl

/-! ## Steps -/

theorem dispatchWc_keepsDevices (nd : Node) (wc : IbvWc) : nd.KeepsDevices (dispatchWc nd wc) := by
  rcases dispatchWc_cases nd wc with h | ⟨-, -, h⟩ | ⟨-, -, h⟩ <;> rw [h]
  · exact .same rfl rfl
  · exact .of_update rfl rfl fun _ h => .inl h
  · exact .same rfl rfl

namespace Transfer

variable {b b' : Transfer}

theorem check_keepsDevices {o : PostOutcome} (hs : b.checkStep o = some b') :
    b.node.KeepsDevices b'.node := by
  obtain ⟨c, -, rfl | ⟨-, ⟨-, rfl⟩ | ⟨-, rfl⟩⟩⟩ := checkStep_some hs
  · exact .same rfl rfl
  · dsimp only
    rw [hmpRdmaReadPost_eq]
    split_ifs <;> exact .same rfl rfl
  · dsimp only
    rw [hmpRdmaWritePost_eq]
    split_ifs <;> exact .same rfl rfl

theorem step_keepsDevices {e : TransferEvent} (hs : b.step e = some b') :
    b.node.KeepsDevices b'.node := by
  cases e with
  | call op localAddr hmAddr length =>
    obtain ⟨-, r, -, ⟨mem, -, rfl⟩ | ⟨t, addr, -, rfl⟩⟩ := callStep_some hs <;> exact .same rfl rfl
  | check o => exact check_keepsDevices hs
  | ret =>
    obtain ⟨c, p, -, -, rfl⟩ := retStep_some hs
    exact .same rfl rfl
  | complete t status =>
    obtain ⟨wr, rest, mem, remote, -, -, -, rfl⟩ := completeStep_some hs
    exact .same rfl rfl
  | recv t status bytes =>
    obtain ⟨wr, rest, -, rfl⟩ := recvStep_some hs
    exact .same rfl rfl
  | poll t =>
    obtain ⟨wc, rest, -, -, -, rfl⟩ := pollStep_some hs
    exact (KeepsDevices.same rfl rfl : b.node.KeepsDevices (b.node.setQp t _)).trans
      (dispatchWc_keepsDevices _ wc)
  | cm t e =>
    obtain ⟨-, rfl⟩ := cmStep_some hs
    exact hmpHandleEcEvent_keepsDevices b.node t e
  | loopExit =>
    obtain ⟨-, hs⟩ := Option.ite_none_right_eq_some.mp hs
    exact Option.some.inj hs ▸ .same rfl rfl
  | store addr bytes =>
    obtain rfl := Option.some.inj hs
    exact .same rfl rfl
  | storeRemote j addr bytes =>
    obtain rfl := Option.some.inj hs
    exact .same rfl rfl

end Transfer

end HMP
