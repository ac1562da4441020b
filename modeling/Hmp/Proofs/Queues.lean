import Hmp.Sanity.Transfer
import Hmp.Spec.Queues

/-! The completion queue of a transport holds what has been posted and not polled. Nothing in
the code bounds that by the size of the queue: it is smaller than either work queue. -/

namespace HMP

namespace Queues

variable {s s' : Transfer} {t maxCqe : ℕ}

/-- A post adds at most its own request, and no completion. -/
structure Adds (s s' : Transfer) (t : ℕ) (o : PostOutcome) : Prop where
  cq : (s'.node.qp t).cq = (s.node.qp t).cq
  outstanding : outstanding s' t = outstanding s t + if o.posted then 1 else 0

theorem rdmaPostOf_qp (op : TransferOp) (nd : Node) (t localAddr remoteAddr : ℕ) (length : ℤ)
    (o : PostOutcome) :
    ∃ wr, (Cluster.rdmaPostOf op nd t localAddr remoteAddr length o).1.qp t =
      if o.posted then { nd.qp t with sq := (nd.qp t).sq ++ [wr] } else nd.qp t := by
  cases op with
  | read =>
    refine ⟨transferWr nd .rdmaRead t localAddr remoteAddr length, ?_⟩
    rw [Cluster.rdmaPostOf, hmpRdmaReadPost_eq]
    by_cases ht : o.task = true <;> by_cases he : o.err = 0 <;>
      simp [PostOutcome.posted, ht, he, withTask, transferTask, Node.allocTask]
  | write =>
    refine ⟨transferWr nd .rdmaWrite t localAddr remoteAddr length, ?_⟩
    rw [Cluster.rdmaPostOf, hmpRdmaWritePost_eq]
    by_cases ht : o.task = true <;> by_cases he : o.err = 0 <;>
      simp [PostOutcome.posted, ht, he, withTask, transferTask, Node.allocTask]

theorem adds_transfer {op : TransferOp} {localAddr : ℕ} {hmAddr : BitVec 64} {length : ℤ}
    {o : PostOutcome} (h : transferStep t s op localAddr hmAddr length o = some s') :
    Adds s s' t o := by
  unfold transferStep at h
  split at h
  · rename_i u addr _
    obtain ⟨-, hs⟩ := Option.ite_none_right_eq_some.mp h
    obtain ⟨wr, hq⟩ := rdmaPostOf_qp op s.node t localAddr addr length o
    rw [← Option.some.inj hs]
    constructor
    · dsimp only
      rw [hq]
      split_ifs <;> rfl
    · simp only [outstanding, hq]
      split_ifs
      · simp; omega
      · rfl
  · simp at h

theorem adds_send (msg : HmpMsg) (o : PostOutcome) :
    Adds s { s with node := hmpPostSend s.node t msg o } t o := by
  have hq := congrFun (hmpPostSend_qp s.node t msg o) t
  constructor
  · dsimp only
    rw [hq]
    split_ifs <;> simp
  · simp only [outstanding, hq, o.posted_iff]
    split_ifs
    · simp; omega
    · rfl

theorem adds_recv (o : PostOutcome) : Adds s { s with node := hmpPostRecv s.node t o } t o := by
  have hq := congrFun (hmpPostRecv_qp s.node t o) t
  constructor
  · dsimp only
    rw [hq]
    split_ifs <;> simp
  · simp only [outstanding, hq, o.posted_iff]
    split_ifs
    · simp; omega
    · rfl

/-- The adapter moves a request to the completion queue. -/
theorem outstanding_complete {status : IbvWcStatus} (h : s.completeStep t status = some s') :
    outstanding s' t = outstanding s t := by
  obtain ⟨wr, rest, mem, remote, hq, -, -, rfl⟩ := Transfer.completeStep_some h
  simp [outstanding, hq]
  omega

theorem outstanding_receive {status : IbvWcStatus} {bytes : List UInt8}
    (h : s.recvStep t status bytes = some s') : outstanding s' t = outstanding s t := by
  obtain ⟨wr, rest, hq, rfl⟩ := Transfer.recvStep_some h
  simp [outstanding, hq]
  omega

theorem outstanding_poll (h : s.pollStep t = some s') :
    outstanding s t = outstanding s' t + 1 := by
  obtain ⟨wc, rest, hq, -, -, rfl⟩ := Transfer.pollStep_some h
  simp [outstanding, hq, (dispatchWc_frame _ wc).1]
  omega

theorem outstanding_step {e : QueueEvent} (hs : (sys t).step s e = some s')
    (hok : WithinCq t maxCqe s e) (h : outstanding s t ≤ cqAllocSize maxCqe) :
    outstanding s' t ≤ cqAllocSize maxCqe := by
  have hpost : ∀ {o : PostOutcome}, Adds s s' t o →
      (o.posted = true → outstanding s t < cqAllocSize maxCqe) →
      outstanding s' t ≤ cqAllocSize maxCqe := by
    intro o ha hroom
    rw [ha.outstanding]
    split_ifs with ho
    · exact hroom ho
    · exact h
  cases e with
  | transfer op localAddr hmAddr length o => exact hpost (adds_transfer hs) hok
  | send msg o =>
    obtain ⟨-, hs⟩ := Option.ite_none_right_eq_some.mp hs
    exact hpost (Option.some.inj hs ▸ adds_send msg o) hok
  | recv o =>
    obtain ⟨-, hs⟩ := Option.ite_none_right_eq_some.mp hs
    exact hpost (Option.some.inj hs ▸ adds_recv o) hok
  | complete status => exact (outstanding_complete hs).trans_le h
  | receive status bytes => exact (outstanding_receive hs).trans_le h
  | poll => have := outstanding_poll hs; omega

theorem outstanding_delayed {e : QueueEvent} (hs : (sys t).step s e = some s')
    (hok : Delayed s e) : outstanding s' t = outstanding s t := by
  cases e with
  | complete status => exact outstanding_complete hs
  | receive status bytes => exact outstanding_receive hs
  | transfer | send | recv | poll => exact absurd hok id

/-- While the event thread is late, everything outstanding ends up in the completion queue. -/
theorem exists_all_completed (t : ℕ) : ∀ (n : ℕ) (s : Transfer),
    (s.node.qp t).sq.length + (s.node.qp t).rq.length = n →
    ∃ s', (sys t).Run Delayed s s' ∧ (s'.node.qp t).cq.length = outstanding s t := by
  intro n
  induction n with
  | zero => exact fun s hn => ⟨s, .nil, by simp only [outstanding]; omega⟩
  | succ n ih =>
    intro s hn
    have hgo : ∀ {e s₁}, Delayed s e → (sys t).step s e = some s₁ →
        (s₁.node.qp t).sq.length + (s₁.node.qp t).rq.length = n →
        ∃ s', (sys t).Run Delayed s s' ∧ (s'.node.qp t).cq.length = outstanding s t := by
      intro e s₁ hd hs hn₁
      obtain ⟨s', hr, hc⟩ := ih s₁ hn₁
      exact ⟨s', (Sys.Run.nil.snoc hd hs).trans hr, hc.trans (outstanding_delayed hs hd)⟩
    cases hsq : (s.node.qp t).sq with
    | cons wr rest =>
      have hs : ∃ s₁, s.completeStep t .success = some s₁ := by simp [Transfer.completeStep, hsq]
      obtain ⟨s₁, hs₁⟩ := hs
      refine hgo (e := .complete .success) trivial hs₁ ?_
      obtain ⟨wr', rest', mem, remote, hq, -, -, rfl⟩ := Transfer.completeStep_some hs₁
      simp [hq] at hn ⊢
      omega
    | nil =>
      cases hrq : (s.node.qp t).rq with
      | nil => simp [hsq, hrq] at hn
      | cons wr rest =>
        have hs : ∃ s₁, s.recvStep t .success [] = some s₁ := by simp [Transfer.recvStep, hrq]
        obtain ⟨s₁, hs₁⟩ := hs
        refine hgo (e := .receive .success []) trivial hs₁ ?_
        obtain ⟨wr', rest', hq, rfl⟩ := Transfer.recvStep_some hs₁
        simp [hq] at hn ⊢
        omega

/-- The completion queue never overruns in a run that posts within its size; and from any state
on, it does not overrun under a late event thread exactly when no more than its size is
outstanding. -/
theorem cq_never_overruns_iff (t maxCqe : ℕ) :
    (∀ s, (sys t).Reach (WithinCq t maxCqe) s →
      (s.node.qp t).cq.length ≤ cqAllocSize maxCqe) ∧
    ∀ s, (∀ s', (sys t).Run Delayed s s' → (s'.node.qp t).cq.length ≤ cqAllocSize maxCqe) ↔
      outstanding s t ≤ cqAllocSize maxCqe := by
  have hle : ∀ s, (s.node.qp t).cq.length ≤ outstanding s t := fun s => Nat.le_add_left ..
  refine ⟨fun s h => (hle s).trans ?_, fun s => ⟨fun hall => ?_, fun h s' hr => (hle s').trans ?_⟩⟩
  · refine h.inv (I := fun s => outstanding s t ≤ cqAllocSize maxCqe) (fun s₀ h₀ => ?_)
      fun _ _ _ hi hok hs => outstanding_step hs hok hi
    have hq : s₀.node.qp t = { live := true, registered := true } := h₀
    simp [outstanding, hq]
  · obtain ⟨s', hr, hc⟩ := exists_all_completed t _ s rfl
    exact hc ▸ hall s' hr
  · exact hr.keeps (I := fun s => outstanding s t ≤ cqAllocSize maxCqe)
      (fun _ _ _ hi hok hs => (outstanding_delayed hs hok).trans_le hi) h

/-- A write to node 1. -/
def sampleWrite : QueueEvent :=
  .transfer .write 4416 (hmpGetHybridMempoolAddr 1 + BitVec.ofNat 64 8512) 64 {}

/-- Two writes have completed before the event thread looks. -/
theorem cq_never_overruns_iff_two : ∃ s, (sys 0).Reach (WithinCq 0 4096) s ∧
    (s.node.qp 0).cq.length = 2 ∧ (s.node.qp 0).cq.length ≤ cqAllocSize 4096 := by
  obtain ⟨s, hr, hc⟩ := Sys.exists_run_of_replay (sys 0) (WithinCq 0 4096)
    Transfer.sampleTransfer
    (List.replicate 2 sampleWrite ++ List.replicate 2 (.complete .success))
    (p := fun s => (s.node.qp 0).cq.length = 2) (by decide)
  have hs : (sys 0).Reach (WithinCq 0 4096) s := ⟨Transfer.sampleTransfer, rfl, hr⟩
  exact ⟨s, hs, hc, (cq_never_overruns_iff 0 4096).1 s hs⟩

/-- The queue pair takes 21 writes, and the completion queue has 20 entries. -/
theorem writes_overrun_cq : ¬ ∀ t maxCqe s, (sys t).Reach Sys.Always s →
    (s.node.qp t).cq.length ≤ cqAllocSize maxCqe := by
  intro h
  obtain ⟨s, hr, hc⟩ := Sys.exists_run_of_replay (sys 0) Sys.Always Transfer.sampleTransfer
    (List.replicate 21 sampleWrite ++ List.replicate 21 (.complete .success))
    (p := fun s => (s.node.qp 0).cq.length = 21) (by decide)
  have := h 0 4096 s ⟨Transfer.sampleTransfer, rfl, hr⟩
  rw [hc] at this
  exact absurd this (by decide)

end Queues

end HMP
