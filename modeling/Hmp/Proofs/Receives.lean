import Hmp.Sanity.Channel

/-! The receives of a connection: the setup posts two, and no handler posts another. -/

namespace HMP

namespace Channel

variable {s s' : Channel}

/-- A receive is posted, or complete, or its message has been handled. -/
def Counted (s : Channel) : Prop :=
  s.recvs = (s.dst.qp s.u).rq.length + (s.dst.qp s.u).cq.length + s.received.length

theorem hmpPostRecv_length (nd : Node) (u : ℕ) (o : PostOutcome) :
    ((hmpPostRecv nd u o).qp u).rq.length = (nd.qp u).rq.length + if o.posted then 1 else 0 := by
  rw [hmpPostRecv_rq, List.length_append]
  split_ifs <;> rfl

theorem counted_start (h : Start s) : Counted s := by
  obtain ⟨-, -, -, hrecv, nd, o₁, o₂, hq, -, hdst, hn⟩ := h
  have hcq : (s.dst.qp s.u).cq = [] := by
    rw [hdst, (hmpPrePostRecv_grows nd s.u s.u o₁ o₂).cq, hq]
  rw [Counted, hcq, hrecv, hn, hdst, hmpPrePostRecv, hmpPostRecv_length, hmpPostRecv_length, hq]
  simp

theorem counted_step {e : ChannelEvent} (h : Counted s) (hs : s.step e = some s') : Counted s' := by
  simp only [Counted] at h ⊢
  cases e with
  | send msg o =>
    obtain ⟨-, hs⟩ := Option.ite_none_right_eq_some.mp hs
    exact Option.some.inj hs ▸ h
  | recv o =>
    obtain rfl := Option.some.inj hs
    have hl := hmpPostRecv_length s.dst s.u o
    have hc := (hmpPostRecv_grows s.dst s.u s.u o).cq
    dsimp only
    rw [hl, hc]
    omega
  | transmit =>
    obtain ⟨wr, rest, -, rfl⟩ := transmitStep_some hs
    exact h
  | deliver =>
    obtain ⟨bytes, wire, wr, rest, -, hq, rfl⟩ := deliverStep_some hs
    rw [hq, List.length_cons] at h
    simp only [Node.setQp_qp, Function.update_self, List.length_append, List.length_singleton]
    omega
  | pollSrc =>
    obtain ⟨wc, rest, -, rfl⟩ := pollSrcStep_some hs
    exact h
  | poll =>
    obtain ⟨wc, rest, hq, rfl⟩ := pollStep_some hs
    have hqu := congrFun
      (dispatchWc_frame (s.dst.setQp s.u { s.dst.qp s.u with cq := rest }) wc).1 s.u
    rw [hq, List.length_cons] at h
    simp only [hqu, Node.setQp_qp, Function.update_self, List.length_append, List.length_singleton]
    omega

/-- Only `hmp_post_recv` adds a receive. -/
theorem recvs_step {e : ChannelEvent} (hok : SetupOnly s e) (hs : s.step e = some s') :
    s'.recvs = s.recvs := by
  cases e with
  | send msg o =>
    obtain ⟨-, hs⟩ := Option.ite_none_right_eq_some.mp hs
    exact Option.some.inj hs ▸ rfl
  | recv o => exact absurd hok id
  | transmit =>
    obtain ⟨wr, rest, -, rfl⟩ := transmitStep_some hs
    rfl
  | deliver =>
    obtain ⟨bytes, wire, wr, rest, -, -, rfl⟩ := deliverStep_some hs
    rfl
  | pollSrc =>
    obtain ⟨wc, rest, -, rfl⟩ := pollSrcStep_some hs
    rfl
  | poll =>
    obtain ⟨wc, rest, -, rfl⟩ := pollStep_some hs
    rfl

/-- When the messages that have arrived are handled, a receive is left exactly when there were
fewer of them than receives posted; and the setup posts at most two. -/
theorem receive_left_iff (s : Channel) (h : sys.Reach Sys.Always s)
    (hcq : (s.dst.qp s.u).cq = []) :
    ((s.dst.qp s.u).rq ≠ [] ↔ s.received.length < s.recvs) ∧
      (sys.Reach SetupOnly s → s.recvs ≤ 2) := by
  have hc : Counted s := h.inv (I := Counted) (fun _ h₀ => counted_start h₀)
    fun _ _ _ hi _ hs => counted_step hi hs
  refine ⟨?_, fun hset => hset.inv (I := fun s => s.recvs ≤ 2) (fun s₀ h₀ => ?_)
    fun _ _ _ hi hok hs => (recvs_step hok hs).trans_le hi⟩
  · rw [Counted, hcq, List.length_nil] at hc
    rw [ne_eq, ← List.length_eq_zero_iff]
    omega
  · obtain ⟨-, -, -, -, nd, o₁, o₂, -, -, -, hn⟩ := h₀
    rw [hn]
    split_ifs <;> omega

/-- The INIT message has been handled, and one receive is left. -/
theorem receive_left_iff_init : ∃ s, sys.Reach SetupOnly s ∧ (s.dst.qp s.u).cq = [] ∧
    s.received.length = 1 ∧ s.recvs = 2 ∧
    ((s.dst.qp s.u).rq ≠ [] ↔ s.received.length < s.recvs) := by
  obtain ⟨s, hr, hcq, hl, hn⟩ := Sys.exists_run_of_replay sys SetupOnly sampleChannel
    ([sampleInit] ++ sampleArrival)
    (p := fun s => (s.dst.qp s.u).cq = [] ∧ s.received.length = 1 ∧ s.recvs = 2)
    (by decide)
  have ha : sys.Run Sys.Always sampleChannel s := hr.weaken fun _ _ _ => trivial
  exact ⟨s, ⟨sampleChannel, sampleChannel_start, hr⟩, hcq, hl, hn,
    (receive_left_iff s ⟨sampleChannel, sampleChannel_start, ha⟩ hcq).1⟩

/-- The peer is connected and has sent one message more, and no receive is left. -/
theorem no_receive_left : ¬ ∀ s, sys.Reach SetupOnly s →
    (s.dst.trans s.u).transState = .connected → (s.dst.qp s.u).cq = [] →
    (s.dst.qp s.u).rq ≠ [] := by
  intro h
  obtain ⟨s, hr, hst, hcq, hrq⟩ := Sys.exists_run_of_replay sys SetupOnly sampleChannel
    ([sampleInit] ++ sampleArrival ++ [sampleMsg 7] ++ sampleArrival)
    (p := fun s => (s.dst.trans s.u).transState = .connected ∧ (s.dst.qp s.u).cq = [] ∧
      (s.dst.qp s.u).rq = []) (by decide)
  exact h s ⟨sampleChannel, sampleChannel_start, hr⟩ hst hcq hrq

end Channel

end HMP
