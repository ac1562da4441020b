import Hmp.Sanity.Attempt
import Hmp.Proofs.Malloc

/-! Two laws of a connection attempt: `trans_state` does not go back to
CONNECTING, and a failed attempt is visible in it. Both hold in the runs that
avoid the steps their conditions name, and neither holds in all runs. -/

namespace HMP.Attempt

/-- CONNECTED and ERROR stay: the main thread stores while the state is still INIT. -/
theorem settled_step {s s' : Attempt} {e : AttemptEvent} (hi : Inv s)
    (hs : s.transState = .connected ∨ s.transState = .error) (h : s.step e = some s') :
    s'.transState = .connected ∨ s'.transState = .error := by
  rcases step_state hi h with hst | ⟨-, -, hst⟩ | ⟨-, hst⟩
  · rwa [hst]
  · rw [hst] at hs
    exact absurd hs (by decide)
  · exact hst

theorem state_never_goes_back {s s' : Attempt} (h : sys.Reach NotOvertaking s)
    (hr : sys.Run NotOvertaking s s') (hs : s.transState = .connected ∨ s.transState = .error) :
    s'.transState ≠ .connecting := by
  have hs' := hr.keeps_of_inv (J := fun x => x.transState = .connected ∨ x.transState = .error)
    (fun _ _ _ hi hno hst => inv_step hi hno hst)
    (fun _ _ _ hi hj _ hst => settled_step hi hj hst) (inv_reach h) hs
  rcases hs' with hs' | hs' <;> rw [hs'] <;> decide

/-- Node 0 of two at the call of `hmp_transport_connect` for node 1. -/
def sampleStart : Attempt :=
  { node := { config := sampleConfig 0, dramMempool := some samplePool, devList := [⟨1, 1, {}⟩]
              trans := fun _ => { nodeId := 1, region := { sendAddr := 4256, recvAddr := 4296 } }
              nextTrans := 1 }
    t := 0, url := "192.168.31.183", port := 2345 }

theorem sampleStart_start : Start sampleStart := ⟨rfl, rfl, rfl, rfl, rfl, rfl⟩

/-- The main thread up to the call of `rdma_resolve_addr`. -/
def resolveEvents : List AttemptEvent := [.main 1, .main 0, .main 0]

/-- The rest of a connection attempt that succeeds, up to the INIT message of the peer. -/
def connectEvents : List AttemptEvent :=
  [.emit .addrResolved, .handle (.addrResolved 1 0), .emit .routeResolved,
    .handle (.routeResolved {}), .emit .established, .handle (.established {} {}),
    .recv (frameBytes (hmpBuildInitMsg sampleStart.node)), .sent .success, .poll, .poll]

instance (s : Attempt) (e : AttemptEvent) : Decidable (NotOvertaking s e) :=
  inferInstanceAs (Decidable (s.storesState e = true → s.main ≠ .setState))

/-- The attempt of node 0 reaches CONNECTED and stays there when the loop ends. -/
theorem state_never_goes_back_run :
    ∃ s s' : Attempt, sys.Reach NotOvertaking s ∧ s.transState = .connected ∧
      sys.Run NotOvertaking s s' ∧ s'.running = false ∧ s'.transState ≠ .connecting := by
  obtain ⟨s, hr, hs⟩ := Sys.exists_run_of_replay sys NotOvertaking sampleStart
    (resolveEvents ++ .main 0 :: connectEvents)
    (p := fun s => s.transState = .connected ∧
      ∃ s' ∈ sys.replay NotOvertaking s [.otherStop, .loopExit], s'.running = false)
    (by decide)
  obtain ⟨s', hs', hrun⟩ := hs.2
  have hreach : sys.Reach NotOvertaking s := ⟨sampleStart, sampleStart_start, hr⟩
  exact ⟨s, s', hreach, hs.1, Sys.replay_run _ hs', hrun,
    state_never_goes_back hreach (Sys.replay_run _ hs') (.inl hs.1)⟩

/-- The event thread handles the whole attempt before the main thread stores CONNECTING.
Nothing is pending then, and `hmp_transport_check_state` spins. -/
theorem state_goes_back :
    ¬ ∀ s s' : Attempt, sys.Reach Sys.Always s → sys.Run Sys.Always s s' →
      s.transState = .connected ∨ s.transState = .error → s'.transState ≠ .connecting := by
  intro h
  obtain ⟨s, hr, hs, s', hs', hback⟩ := Sys.exists_run_of_replay sys Sys.Always sampleStart
    (resolveEvents ++ connectEvents)
    (p := fun s => s.transState = .connected ∧
      ∃ s' ∈ sys.replay Sys.Always s [.main 0], s'.transState = .connecting)
    (by decide)
  exact h s s' ⟨sampleStart, sampleStart_start, hr⟩ (Sys.replay_run _ hs') (.inl hs) hback

/-! ## Failed attempts -/

/-- The runs in which no step hides the end of the attempt. -/
def Visible (s : Attempt) (e : AttemptEvent) : Prop := NotOvertaking s e ∧ s.failsVisibly e = true

instance (s : Attempt) (e : AttemptEvent) : Decidable (Visible s e) :=
  inferInstanceAs (Decidable (NotOvertaking s e ∧ s.failsVisibly e = true))

/-- Where an attempt stands while `trans_state` is below CONNECTED. -/
structure UnderWay (s : Attempt) : Prop where
  ended : s.phase = .ended → ∃ type ∈ s.queue, endsAttempt type = true
  initDone : s.initDone = false
  receives : s.phase = .connecting ∨ s.phase = .established →
    (s.node.qp s.t).registered = true ∧ ((s.node.qp s.t).rq ≠ [] ∨ (s.node.qp s.t).cq ≠ [])

theorem connectedOrLater_iff (s : Attempt) :
    s.connectedOrLater = true ↔ TransportState.connected.val ≤ s.transState.val := by
  simp [connectedOrLater]

theorem step_connectedOrLater {s s' : Attempt} {e : AttemptEvent} (hi : Inv s)
    (h : s.step e = some s') (hs : s.connectedOrLater = true) : s'.connectedOrLater = true := by
  rw [connectedOrLater_iff] at hs ⊢
  rcases step_state hi h with hst | ⟨-, -, hst⟩ | ⟨-, hst | hst⟩
  · rwa [hst]
  · rw [hst] at hs
    exact absurd hs (by decide)
  · rw [hst]
  · rw [hst]; decide

theorem step_storesState {s s' : Attempt} {e : AttemptEvent} (hi : Inv s)
    (h : s.step e = some s') (hs : s.storesState e = true) : s'.connectedOrLater = true := by
  rw [connectedOrLater_iff]
  cases e with
  | handle ev =>
    obtain ⟨rest, -, -, rfl⟩ := handleStep_some h
    cases ev with
    | routeResolved o =>
      have he := onCmRouteResolved_state s.node s.t o
      rw [if_pos (of_decide_eq_true hs)] at he
      simp [Attempt.transState, hmpHandleEcEvent, he, TransportState.val]
    | other type =>
      obtain ⟨type, _⟩ := type
      cases type <;> first
        | simp [storesState] at hs; done
        | simp [Attempt.transState, hmpHandleEcEvent, ecError, TransportState.val]
    | _ => simp [storesState] at hs
  | poll =>
    obtain ⟨wc, rest, hcq, -, rfl⟩ := pollStep_some h
    have hst := poll_state hi hcq
    rw [if_pos (by simpa [storesState, hcq] using hs)] at hst
    simp [Attempt.transState, hst]
  | _ => simp [storesState] at hs

/-! One lemma for each kind of step: the attempt stays under way. -/

theorem emit_ended {ph : CmPhase} {type : RdmaCmEventType} (h : ph.emit type = some .ended) :
    ph = .ended ∨ endsAttempt type = true := by
  cases ph <;> cases type <;> simp_all [CmPhase.emit, endsAttempt]

theorem emit_open {ph ph' : CmPhase} {type : RdmaCmEventType} (h : ph.emit type = some ph')
    (ho : ph' = .connecting ∨ ph' = .established) : ph = .connecting ∨ ph = .established := by
  cases ph <;> cases type <;> simp_all [CmPhase.emit] <;> grind

theorem underWay_main {s s' : Attempt} {ret : ℤ} (hi : Inv s) (hu : UnderWay s)
    (h : s.step (.main ret) = some s') : UnderWay s' := by
  rcases mainStep_cases h with ⟨he, -, -, hd, -, -, -, -, hph⟩ | ⟨-, rfl⟩
  · have hph' := hph (hi.early he).1
    refine ⟨fun h => ?_, hd.trans hu.initDone, fun h => ?_⟩
    · rcases hph' with h' | ⟨h', -⟩ <;> rw [h'] at h <;> exact absurd h (by decide)
    · rcases hph' with h' | ⟨h', -⟩ <;> rw [h'] at h <;> exact absurd h (by decide)
  · exact ⟨hu.ended, hu.initDone, hu.receives⟩

theorem underWay_emit {s s' : Attempt} {type : RdmaCmEventType} (hu : UnderWay s)
    (h : s.step (.emit type) = some s') : UnderWay s' := by
  obtain ⟨ph, hph, rfl⟩ := Option.map_eq_some_iff.mp h
  refine ⟨fun hended => ?_, hu.initDone, fun ho => hu.receives (emit_open hph ho)⟩
  have hended : ph = .ended := hended
  subst hended
  rcases emit_ended hph with he | he
  · obtain ⟨type', hmem, ht⟩ := hu.ended he
    exact ⟨type', List.mem_append_left _ hmem, ht⟩
  · exact ⟨type, by simp, he⟩

theorem underWay_completes {s s' : Attempt} (hu : UnderWay s) (h : Completes s s') :
    UnderWay s' := by
  obtain ⟨wc, hcq, -⟩ := h.cq
  rw [h.rest]
  refine ⟨hu.ended, hu.initDone, fun ho => ?_⟩
  refine ⟨h.registered.trans (hu.receives ho).1, .inr ?_⟩
  simp [hcq]

theorem underWay_poll {s s' : Attempt} (hu : UnderWay s)
    (hno : s.storesState .poll = false) (hv : s.failsVisibly .poll = true)
    (hc : s.connectedOrLater = false) (h : s.step .poll = some s') : UnderWay s' := by
  obtain ⟨wc, rest, hcq, -, rfl⟩ := pollStep_some h
  have hwc : (wc.status = .success && isInitMsg s.node wc) = false := by
    simpa [storesState, hcq] using hno
  have hv' : (s.node.qp s.t).rq ≠ [] ∨ rest ≠ [] := by
    simpa [failsVisibly, hno, hc, hcq] using hv
  refine ⟨hu.ended, by simp [hu.initDone, hwc], fun ho => ?_⟩
  simp only [(dispatchWc_frame _ wc).1, Node.setQp_qp, Function.update_self]
  exact ⟨(hu.receives ho).1, hv'⟩

/-- One of two posted receives is in the queue that `hmp_pre_post_recv` leaves. -/
theorem hmpPrePostRecv_receives (nd : Node) (t : ℕ) (o₁ o₂ : PostOutcome)
    (h : o₁.posted = true ∨ o₂.posted = true) :
    ((hmpPrePostRecv nd t o₁ o₂).qp t).registered = (nd.qp t).registered ∧
      ((hmpPrePostRecv nd t o₁ o₂).qp t).rq ≠ [] := by
  refine ⟨(hmpPrePostRecv_grows nd t t o₁ o₂).registered, ?_⟩
  rw [hmpPrePostRecv, hmpPostRecv_rq, hmpPostRecv_rq]
  rcases h with h | h <;> simp [h]

/-- The handler of an event that does not end an attempt leaves the phase, or moves it on. -/
theorem ended_of_rest {s : Attempt} (hu : UnderWay s) {e : CmEvent}
    {rest : List RdmaCmEventType} (hq : s.queue = e.type :: rest)
    (hne : endsAttempt e.type = false) (h : s.phase = .ended) :
    ∃ type ∈ rest, endsAttempt type = true := by
  obtain ⟨type, hmem, ht⟩ := hu.ended h
  rw [hq, List.mem_cons] at hmem
  rcases hmem with rfl | hmem
  · rw [hne] at ht
    exact absurd ht (by decide)
  · exact ⟨type, hmem, ht⟩

theorem underWay_handle {s s' : Attempt} {ev : CmEvent} (hi : Inv s) (hu : UnderWay s)
    (hno : s.storesState (.handle ev) = false) (hv : s.failsVisibly (.handle ev) = true)
    (hc : s.connectedOrLater = false) (h : s.step (.handle ev) = some s') : UnderWay s' := by
  obtain ⟨rest, hq, -, rfl⟩ := handleStep_some h
  have hreq := hi.type_ne hq
  cases ev with
  | addrResolved verbs route =>
    have hok : (hmpDeviceLookup s.node verbs).isSome = true ∧ route = 0 := by
      simpa [failsVisibly] using hv
    have hret : (hmpHandleEcEvent s.node s.t (.addrResolved verbs route)).2 = 0 := by
      rw [hmpHandleEcEvent, onCmAddrResolved_eq]
      simp [Option.isNone_iff_eq_none, hok.2, Option.ne_none_iff_isSome.mpr hok.1]
    refine ⟨fun he => ended_of_rest hu hq rfl ?_, hu.initDone, fun ho => ?_⟩
    · revert he; rw [hret]; cases s.phase <;> simp [phaseAfter]
    · have hqp : (hmpHandleEcEvent s.node s.t (.addrResolved verbs route)).1.qp = s.node.qp := by
        rw [hmpHandleEcEvent, onCmAddrResolved_eq]; rfl
      simp only [hqp]
      refine hu.receives ?_
      revert ho; rw [hret]; cases s.phase <;> simp [phaseAfter]
  | routeResolved o =>
    have hok : o.qp = 0 ∧ o.connect = 0 ∧ (o.recv₁.posted = true ∨ o.recv₂.posted = true) := by
      simp only [storesState, decide_eq_false_iff_not] at hno
      simp only [failsVisibly, decide_eq_true_eq] at hv
      tauto
    obtain ⟨hqp, hcon, hposted⟩ := hok
    have heq : hmpHandleEcEvent s.node s.t (.routeResolved o) =
        (hmpPrePostRecv (s.node.setQp s.t { live := true, registered := true }) s.t
          o.recv₁ o.recv₂, 0) := by
      simp [hmpHandleEcEvent, onCmRouteResolved, hmpQpCreate, hqp, hcon]
    refine ⟨fun he => ended_of_rest hu hq rfl ?_, hu.initDone, fun _ => ?_⟩
    · revert he; rw [heq]; cases s.phase <;> simp [phaseAfter]
    · obtain ⟨hreg, hrq⟩ := hmpPrePostRecv_receives
        (s.node.setQp s.t { live := true, registered := true }) s.t o.recv₁ o.recv₂ hposted
      rw [heq]
      exact ⟨by rw [hreg]; simp, .inl hrq⟩
  | connectRequest cm peerAddr o => exact absurd rfl hreq
  | established peer o =>
    refine ⟨fun he => ended_of_rest hu hq rfl ?_, hu.initDone, fun ho => ?_⟩
    · revert he; cases s.phase <;> simp [phaseAfter]
    · have hph : s.phase = .connecting ∨ s.phase = .established := by
        revert ho; cases s.phase <;> simp [phaseAfter]
      have hr := hu.receives hph
      simp only [hmpHandleEcEvent, onCmEstablished, hmpPostSend_qp]
      split_ifs <;> simpa using hr
  | disconnected =>
    rw [failsVisibly, hc] at hv
    exact absurd hv (by decide)
  | other type =>
    have hne : type.1 ≠ .connectError := by simpa [storesState] using hno
    have hend : endsAttempt type = false := by
      simpa [failsVisibly, hc, hne] using hv
    have hnode : (hmpHandleEcEvent s.node s.t (.other type)).1 = s.node := by
      obtain ⟨type, _⟩ := type
      cases type <;> first | rfl | exact absurd rfl hne
    refine ⟨fun he => ended_of_rest hu hq hend ?_, hu.initDone, fun ho => ?_⟩
    · revert he; cases s.phase <;> simp [phaseAfter]
    · rw [hnode]
      refine hu.receives ?_
      revert ho; cases s.phase <;> simp [phaseAfter]

/-- The invariant of these runs: no call has failed, and the attempt is under way or its end
is stored. -/
structure Seen (s : Attempt) : Prop where
  inv : Inv s
  returned : ∀ ret, s.main = .returned ret → ret = 0
  underWay : s.connectedOrLater = false → UnderWay s

theorem seen_start {s : Attempt} (h : Start s) : Seen s := by
  refine ⟨inv_start h, ?_, fun _ => ?_⟩ <;> obtain ⟨-, -, hm, hph, -, hd⟩ := h
  · simp [hm]
  · exact ⟨by simp [hph], hd, by simp [hph]⟩

theorem returned_main {s s' : Attempt} {ret : ℤ} (hv : s.failsVisibly (.main ret) = true)
    (hs : s.step (.main ret) = some s') : ∀ r, s'.main = .returned r → r = 0 := by
  simp only [step, mainStep] at hs
  cases hm : s.main <;> simp only [hm, Option.some.injEq, reduceCtorEq] at hs <;> subst hs <;>
    simp only [failsVisibly, hm, decide_eq_true_eq] at hv
  · have hret : ¬ ret < 0 := by omega
    have hz : ¬ ret ≤ 0 → ¬ ret < 0 := fun _ => hret
    simp only [connectEntry, hmpPortUriInit, hv.1]
    split_ifs <;> simp_all
  · simp [connectCreateId, hv]
  · simp [connectResolve, hv]
  · simp

theorem seen_step {s s' : Attempt} {e : AttemptEvent} (hs : Seen s) (hv : Visible s e)
    (h : s.step e = some s') : Seen s' := by
  refine ⟨inv_step hs.inv hv.1 h, ?_, fun hc' => ?_⟩
  · by_cases hmain : ∃ ret, e = .main ret
    · obtain ⟨ret, rfl⟩ := hmain
      exact returned_main hv.2 h
    · rw [step_main h fun ret he => hmain ⟨ret, he⟩]
      exact hs.returned
  · have hc : s.connectedOrLater = false := by
      by_contra hc
      rw [step_connectedOrLater hs.inv h (by simpa using hc)] at hc'
      exact absurd hc' (by decide)
    have hno : s.storesState e = false := by
      by_contra hno
      rw [step_storesState hs.inv h (by simpa using hno)] at hc'
      exact absurd hc' (by decide)
    have hu := hs.underWay hc
    cases e with
    | main ret => exact underWay_main hs.inv hu h
    | emit type => exact underWay_emit hu h
    | recv bytes => exact underWay_completes hu (recvStep_some h)
    | recvError status => exact underWay_completes hu (recvErrorStep_some h)
    | sent status => exact underWay_completes hu (sentStep_some h)
    | handle ev => exact underWay_handle hs.inv hu hno hv.2 hc h
    | poll => exact underWay_poll hu hno hv.2 hc h
    | otherStop =>
      obtain rfl := Option.some.inj h
      exact ⟨hu.ended, hu.initDone, hu.receives⟩
    | loopExit =>
      obtain ⟨-, h⟩ := Option.ite_none_right_eq_some.mp h
      obtain rfl := Option.some.inj h
      exact ⟨hu.ended, hu.initDone, hu.receives⟩

/-- Once the attempt is over and nothing is pending, `hmp_transport_check_state` returns. -/
theorem ended_attempt_visible {s : Attempt} (h : sys.Reach Visible s) (he : Ended s)
    (hn : NonePending s) :
    TransportState.connected.val ≤ s.transState.val ∧
      hmpTransportCheckState s.transState ≠ none := by
  have hseen : Seen s := h.inv (fun _ => seen_start) fun _ _ _ hs hv hst => seen_step hs hv hst
  have hc : s.connectedOrLater = true := by
    by_contra hc
    have hu := hseen.underWay (by simpa using hc)
    obtain ⟨ret, hm, hret | hph | ⟨hph, hd | hrq⟩⟩ := he
    · exact hret (hseen.returned ret hm)
    · obtain ⟨type, hmem, -⟩ := hu.ended hph
      simp [hn.1] at hmem
    · rw [hu.initDone] at hd
      exact absurd hd (by decide)
    · obtain ⟨hreg, hr⟩ := hu.receives (.inr hph)
      exact hr.elim (fun h => h hrq) (fun h => h (hn.2 hreg))
  rw [connectedOrLater_iff] at hc
  refine ⟨hc, ?_⟩
  unfold hmpTransportCheckState
  split_ifs with h1
  · omega
  · simp
  · simp

/-- A connection that the peer refuses with CONNECT_ERROR. -/
theorem ended_attempt_visible_run :
    ∃ s : Attempt, sys.Reach Visible s ∧ s.transState = .error ∧
      TransportState.connected.val ≤ s.transState.val ∧
      hmpTransportCheckState s.transState ≠ none := by
  obtain ⟨s, hr, hst, hm, hph, hq, hcq⟩ := Sys.exists_run_of_replay sys Visible sampleStart
    (resolveEvents ++ [.main 0, .emit .addrResolved, .handle (.addrResolved 1 0),
      .emit .routeResolved, .handle (.routeResolved {}), .emit .connectError,
      .handle (.other ⟨.connectError, rfl⟩)])
    (p := fun s => s.transState = .error ∧ s.main = .returned 0 ∧ s.phase = .ended ∧
      s.queue = [] ∧ (s.node.qp s.t).cq = [])
    (by decide)
  have hreach : sys.Reach Visible s := ⟨sampleStart, sampleStart_start, hr⟩
  exact ⟨s, hreach, hst, ended_attempt_visible hreach ⟨0, hm, .inr (.inl hph)⟩
    ⟨hq, fun _ => hcq⟩⟩

/-- The peer rejects the connection: the handler stores nothing, and the state stays CONNECTING. -/
theorem rejected_attempt_hidden :
    ¬ ∀ s : Attempt, sys.Reach Sys.Always s → Ended s → NonePending s →
      TransportState.connected.val ≤ s.transState.val ∧
        hmpTransportCheckState s.transState ≠ none := by
  intro h
  obtain ⟨s, hr, hst, hm, hph, hq, hcq⟩ := Sys.exists_run_of_replay sys Sys.Always sampleStart
    (resolveEvents ++ [.main 0, .emit .addrResolved, .handle (.addrResolved 1 0),
      .emit .routeResolved, .handle (.routeResolved {}), .emit .rejected,
      .handle (.other ⟨.rejected, rfl⟩)])
    (p := fun s => s.transState = .connecting ∧ s.main = .returned 0 ∧ s.phase = .ended ∧
      s.queue = [] ∧ (s.node.qp s.t).cq = [])
    (by decide)
  have hspin := (h s ⟨sampleStart, sampleStart_start, hr⟩ ⟨0, hm, .inr (.inl hph)⟩
    ⟨hq, fun _ => hcq⟩).2
  rw [hst] at hspin
  exact hspin rfl

end HMP.Attempt
