import Hmp.Proofs.QpSetup

/-! A connection request that fails behind `hmp_transport_create` leaves the new transport with its
event channel behind, and the id of the request goes on referring to it. -/

namespace HMP.Proc

variable {p : Proc} {cm : CmId} {peerAddr : String} {o : RequestCalls}

theorem requestAccept_cm (q : Proc) (t : ℕ) : (q.requestAccept t peerAddr o).1.cm = q.cm := by
  unfold requestAccept
  dsimp only
  split_ifs <;> rfl

theorem requestAccept_ret (q : Proc) (t : ℕ) :
    (q.requestAccept t peerAddr o).2 = 0 ↔ o.accept = 0 := by
  by_cases ha : o.accept = 0
  · simp [requestAccept, HMP.requestAccept, ha]
  · simp [requestAccept, HMP.requestAccept, ha]

/-- The handler returns 0 when every call has succeeded. -/
theorem onCmConnectRequest_ret (h : o.create.ok = true) :
    (p.onCmConnectRequest cm peerAddr o).2 = 0 ↔
      (hmpDeviceLookup p.node o.verbs).isSome ∧ o.qp.ret = 0 ∧ o.accept = 0 := by
  have hlookup : hmpDeviceLookup (p.withTrans o.create).node o.verbs =
    hmpDeviceLookup p.node o.verbs := rfl
  unfold onCmConnectRequest
  rw [p.hmpTransportCreate_ok h]
  simp only [hlookup]
  cases hd : hmpDeviceLookup p.node o.verbs with
  | none => simp
  | some d =>
    have hret := (((p.withTrans o.create).requestDevice p.node.nextTrans cm o).hmpQpCreate_node
      p.node.nextTrans cm d o.qp).1
    by_cases hq : o.qp.ret = 0
    · simp [hret, hq, requestAccept_ret]
    · simp [hret, hq]

/-- Behind `hmp_transport_create` the id of the request keeps the new transport. -/
theorem onCmConnectRequest_context (h : o.create.ok = true) :
    ((p.onCmConnectRequest cm peerAddr o).1.cm cm).context = some p.node.nextTrans := by
  have hdev : ∀ q : Proc, ((q.requestDevice p.node.nextTrans cm o).cm cm).context =
      some p.node.nextTrans := fun q => by simp [requestDevice]
  unfold onCmConnectRequest
  rw [p.hmpTransportCreate_ok h]
  dsimp only
  split
  · exact hdev _
  · split_ifs
    · rw [hmpQpCreate_context]
      exact hdev _
    · rw [requestAccept_cm, hmpQpCreate_context]
      exact hdev _

theorem onCmConnectRequest_nextTrans (h : o.create.ok = true) :
    p.node.nextTrans < (p.onCmConnectRequest cm peerAddr o).1.node.nextTrans := by
  rw [onCmConnectRequest_node, onCmConnectRequest_adds h]
  exact Nat.lt_succ_self _

theorem leavesNothing_of_failed (h : o.create.ok = false) :
    p.LeavesNothing (p.onCmConnectRequest cm peerAddr o).1 cm := by
  obtain ⟨w, hw, hsame⟩ := p.hmpTransportCreate_failed h
  have hp : (p.onCmConnectRequest cm peerAddr o).1 = p.setWorld w := by
    rw [onCmConnectRequest, hw]
  rw [hp]
  exact ⟨rfl, hsame.sameLive, fun t hle hlt => absurd hlt (Nat.not_lt.mpr hle)⟩

theorem not_leavesNothing (h : o.create.ok = true) :
    ¬ p.LeavesNothing (p.onCmConnectRequest cm peerAddr o).1 cm := fun hn =>
  hn.context _ le_rfl (onCmConnectRequest_nextTrans h) (onCmConnectRequest_context h)

/-- A request that fails leaves nothing behind exactly when no transport could be created for it,
if it fails at all. -/
theorem failed_request_iff (p : Proc) (cm : CmId) (peerAddr : String) (o : RequestCalls) :
    ((p.onCmConnectRequest cm peerAddr o).2 ≠ 0 →
      p.LeavesNothing (p.onCmConnectRequest cm peerAddr o).1 cm) ↔
    o.create.ok = false ∨
      (hmpDeviceLookup p.node o.verbs).isSome ∧ o.qp.ret = 0 ∧ o.accept = 0 := by
  cases h : o.create.ok with
  | false => exact ⟨fun _ => .inl rfl, fun _ _ => leavesNothing_of_failed h⟩
  | true =>
    rw [← onCmConnectRequest_ret h]
    constructor
    · exact fun hn => .inr (by_contra fun hret => not_leavesNothing h (hn hret))
    · rintro (hf | hret) hne
      · cases hf
      · exact absurd hret hne

/-- The device of the request is not in the list: the new event channel stays registered. -/
theorem failed_request_leaves_transport :
    (sampleProc.onCmConnectRequest ⟨7, false⟩ "192.168.31.182" { verbs := 5 }).2 = -1 ∧
      ¬ sampleProc.LeavesNothing
        (sampleProc.onCmConnectRequest ⟨7, false⟩ "192.168.31.182" { verbs := 5 }).1 ⟨7, false⟩ :=
  ⟨by decide, not_leavesNothing rfl⟩

end HMP.Proc
