import Hmp.Proofs.OwnWrites
import Hmp.Sanity.Refs
import Mathlib.Algebra.BigOperators.Group.Finset.Basic
import Mathlib.Algebra.Order.BigOperators.Group.Finset

/-! The writes of a node arrive. Whatever is queued, the adapters and the event thread get it done by
themselves, and then every memory holds what was stored there last. -/

namespace HMP

namespace Transfer

variable {shared : ℕ → ℕ → Bool} {init : ℕ → Mem} {s s₁ s' : Transfer} {t : ℕ}

/-- The adapters and the event thread go on, and no request fails. -/
def GoesOn (shared : ℕ → ℕ → Bool) (s : Transfer) (e : TransferEvent) : Prop :=
  Undisturbed shared s e ∧ Background e

/-- The steps that are left to the adapters and the event thread: a request is executed and its
completion is polled. -/
def left (s : Transfer) : ℕ :=
  (∑ t ∈ Finset.range s.node.nextTrans, (2 * (s.node.qp t).sq.length + (s.node.qp t).cq.length)) +
    s.running.toNat

/-! ## What no step changes -/

theorem SameWiring.trans (h₁ : SameWiring s s₁) (h₂ : SameWiring s₁ s') : SameWiring s s' where
  nodeCnt := h₂.nodeCnt.trans h₁.nodeCnt
  curnodeId := h₂.curnodeId.trans h₁.curnodeId
  table := h₂.table.trans h₁.table
  nextTrans := h₂.nextTrans.trans h₁.nextTrans
  far := h₂.far.trans h₁.far

theorem sameWiring_poll (hs : s.step (.poll t) = some s') : SameWiring s s' := by
  obtain ⟨wc, rest, -, -, -, rfl⟩ := pollStep_some hs
  obtain ⟨-, -, htrans, htable, -⟩ :=
    dispatchWc_frame (s.node.setQp t { s.node.qp t with cq := rest }) wc
  refine ⟨?_, dispatchWc_curnodeId _ wc, htable, htrans, rfl⟩
  rcases dispatchWc_cases (s.node.setQp t { s.node.qp t with cq := rest }) wc with
    he | ⟨-, -, he⟩ | ⟨-, -, he⟩ <;> simp only [he] <;> rfl

theorem sameWiring_check {o : PostOutcome} (hs : s.step (.check o) = some s') : SameWiring s s' := by
  obtain ⟨c, -, rfl | ⟨-, ⟨-, rfl⟩ | ⟨-, rfl⟩⟩⟩ := checkStep_some hs
  · exact ⟨rfl, rfl, rfl, rfl, rfl⟩
  · have hc := (hmpRdmaReadPost_after s.node c.t c.localAddr c.addr c.length o).config
    obtain ⟨-, hn, ht, -⟩ := posted_mentions (hmpRdmaReadPost_eq s.node c.t c.localAddr c.addr
      c.length o)
    exact ⟨congrArg HmpConfig.nodeCnt hc, congrArg HmpConfig.curnodeId hc, ht, hn, rfl⟩
  · have hc := (hmpRdmaWritePost_after s.node c.t c.localAddr c.addr c.length o).config
    obtain ⟨-, hn, ht, -⟩ := posted_mentions (hmpRdmaWritePost_eq s.node c.t c.localAddr c.addr
      c.length o)
    exact ⟨congrArg HmpConfig.nodeCnt hc, congrArg HmpConfig.curnodeId hc, ht, hn, rfl⟩

theorem sameWiring_step {e : TransferEvent} (hv : Undisturbed shared s e)
    (hs : s.step e = some s') : SameWiring s s' := by
  cases e with
  | call op localAddr hmAddr length =>
    obtain ⟨-, r, -, ⟨mem, -, rfl⟩ | ⟨t, addr, -, rfl⟩⟩ := callStep_some hs <;>
      exact ⟨rfl, rfl, rfl, rfl, rfl⟩
  | check o => exact sameWiring_check hs
  | ret =>
    obtain ⟨c, p, -, -, rfl⟩ := retStep_some hs
    exact ⟨rfl, rfl, rfl, rfl, rfl⟩
  | complete t status =>
    obtain ⟨wr, rest, hf, -⟩ := completeStep_finished hs
    exact hf.wiring
  | recv t status bytes =>
    obtain ⟨wr, rest, -, rfl⟩ := recvStep_some hs
    exact ⟨rfl, rfl, rfl, rfl, rfl⟩
  | poll t => exact sameWiring_poll hs
  | cm t e => simp [Undisturbed, undisturbed] at hv
  | loopExit =>
    obtain ⟨-, hs⟩ := Option.ite_none_right_eq_some.mp hs
    obtain rfl := Option.some.inj hs
    exact ⟨rfl, rfl, rfl, rfl, rfl⟩
  | store addr bytes | storeRemote j addr bytes =>
    obtain rfl := Option.some.inj hs
    exact ⟨rfl, rfl, rfl, rfl, rfl⟩

/-! ## What is left becomes less -/

/-- A step at the queue pair of a transport that exists. -/
theorem left_lt (ht : t < s.node.nextTrans) (hn : s'.node.nextTrans = s.node.nextTrans)
    (hrun : s'.running = s.running) (hqp : ∀ u ≠ t, s'.node.qp u = s.node.qp u)
    (hlt : 2 * (s'.node.qp t).sq.length + (s'.node.qp t).cq.length <
      2 * (s.node.qp t).sq.length + (s.node.qp t).cq.length) : left s' < left s := by
  rw [left, left, hn, hrun]
  refine Nat.add_lt_add_right (Finset.sum_lt_sum (fun u _ => ?_)
    ⟨t, Finset.mem_range.mpr ht, hlt⟩) _
  by_cases hu : u = t
  · exact hu ▸ hlt.le
  · rw [hqp u hu]

/-- A queue pair with something queued belongs to a transport that exists. -/
theorem Placed.lt_nextTrans (h : Placed s) (ht : s.node.qp t ≠ {}) : t < s.node.nextTrans := by
  by_contra hge
  exact ht (h.fresh t (not_lt.mp hge))

theorem left_complete {status : IbvWcStatus} (h : Placed s)
    (hs : s.step (.complete t status) = some s') : s'.hist = s.hist ∧ left s' < left s := by
  obtain ⟨wr, rest, mem, remote, hsq, -, -, rfl⟩ := completeStep_some hs
  have ht : t < s.node.nextTrans := h.lt_nextTrans fun hq => by simp [hq] at hsq
  refine ⟨rfl, left_lt ht rfl rfl (fun u hu => by simp [hu]) ?_⟩
  simp [hsq]
  omega

theorem left_poll (h : Placed s) (hs : s.step (.poll t) = some s') :
    s'.hist = s.hist ∧ left s' < left s := by
  have hw := sameWiring_poll hs
  obtain ⟨wc, rest, hcq, -, -, rfl⟩ := pollStep_some hs
  have ht : t < s.node.nextTrans := h.lt_nextTrans fun hq => by simp [hq] at hcq
  obtain ⟨hqp, -⟩ := dispatchWc_frame (s.node.setQp t { s.node.qp t with cq := rest }) wc
  refine ⟨rfl, left_lt ht hw.nextTrans rfl (fun u hu => ?_) ?_⟩
  · simp only [hqp]
    exact Function.update_of_ne hu ..
  · simp [hqp, hcq]

theorem left_step {e : TransferEvent} (h : Placed s) (hv : GoesOn shared s e)
    (hs : s.step e = some s') : s'.hist = s.hist ∧ left s' < left s := by
  cases e with
  | complete t status => exact left_complete h hs
  | poll t => exact left_poll h hs
  | loopExit =>
    obtain ⟨⟨-, hrun⟩, hs⟩ := Option.ite_none_right_eq_some.mp hs
    obtain rfl := Option.some.inj hs
    exact ⟨rfl, by simp [left, hrun]⟩
  | _ => exact hv.2.elim

/-! ## The end -/

/-- What holds along an undisturbed run from `s₀`. -/
structure Arriving (shared : ℕ → ℕ → Bool) (s₀ s : Transfer) : Prop where
  sim : Sim shared s₀.memOf s
  placed : Placed s
  wiring : SameWiring s₀ s

theorem arriving_step {e : TransferEvent} {s₀ : Transfer} (h : Arriving shared s₀ s)
    (hv : Undisturbed shared s e) (hs : s.step e = some s') : Arriving shared s₀ s' := by
  refine ⟨sim_step h.sim hv hs, placed_step h.placed ?_ hs, h.wiring.trans (sameWiring_step hv hs)⟩
  cases e with
  | cm => simp [Undisturbed, undisturbed] at hv
  | _ => trivial

theorem arriving_start (h : Ready s) : Arriving shared s s :=
  ⟨sim_start h, placed_start h.start, ⟨rfl, rfl, rfl, rfl, rfl⟩⟩

/-- Where nothing can go on, nothing is queued. -/
theorem sq_of_halted (h : sys.Halted (GoesOn shared) s) (t : ℕ) : (s.node.qp t).sq = [] := by
  cases hq : (s.node.qp t).sq with
  | nil => rfl
  | cons wr rest =>
    have hs := h (.complete t .success) ⟨by simp [Undisturbed, undisturbed], trivial⟩
    simp [sys, step, completeStep, hq] at hs

/-- With nothing queued, the shared bytes are those of the flat memories. -/
theorem Arriving.memOf_eq {s₀ : Transfer} {j x : ℕ} (h : Arriving shared s₀ s)
    (hconn : Connected s₀) (hsq : ∀ t, (s.node.qp t).sq = []) (hj : j < s.node.config.nodeCnt)
    (hx : shared j x = true) : s.memOf j x = flat s₀.memOf s.hist j x := by
  by_cases hcur : j = s.node.config.curnodeId
  · subst hcur
    rw [memOf, if_pos rfl]
    exact h.sim.flat.own x hx
  · obtain ⟨t, ht, -⟩ := hconn.conn j (h.wiring.nodeCnt ▸ hj) (h.wiring.curnodeId ▸ hcur)
    have hr := h.sim.flat.remote j hj hcur t (h.wiring.table ▸ ht) x hx
    rw [hsq] at hr
    rw [memOf, if_neg hcur]
    exact hr

/-- The writes that a node has posted arrive, however the adapters and the event thread go on: after
at most two steps for each queued request, one for each completion and one for the end of the loop,
no request is left, and every shared byte of every node is the one that the calls stored there last. -/
theorem writes_arrive {s₀ s : Transfer} (h : Ready s₀) (hr : sys.Run (Undisturbed shared) s₀ s)
    {f : ℕ → Transfer} (h0 : f 0 = s) (hf : sys.Follows (GoesOn shared) f) :
    ∃ n ≤ left s, (∀ m ≥ n, f m = f n) ∧ (f n).hist = s.hist ∧
      (∀ t, ((f n).node.qp t).sq = []) ∧ ∀ j < s₀.node.config.nodeCnt, ∀ x, shared j x = true →
        (f n).memOf j x = (lastStored s.hist j x).getD (s₀.memOf j x) := by
  subst h0
  have hbegin : Arriving shared s₀ (f 0) :=
    hr.keeps (fun _ _ _ hi hv hst => arriving_step hi hv hst) (arriving_start h)
  obtain ⟨n, hn, ⟨hend, hhist⟩, hhalt, hrest⟩ := hf.halts (μ := left)
    (I := fun s => Arriving shared s₀ s ∧ s.hist = (f 0).hist)
    (fun s e s' hi hv hst => ⟨arriving_step hi.1 hv.1 hst,
      ((left_step hi.1.placed hv hst).1).trans hi.2⟩)
    (fun s e s' hi hv hst => (left_step hi.1.placed hv hst).2) ⟨hbegin, rfl⟩
  have hsq := sq_of_halted hhalt
  refine ⟨n, hn, hrest, hhist, hsq, fun j hj x hx => ?_⟩
  rw [hend.memOf_eq h.toConnected hsq (hend.wiring.nodeCnt ▸ hj) hx, flat, hhist]

/-- Node 0 has written a byte to node 1, which does not have it yet. -/
theorem writes_arrive_sample : ∃ s s' : Transfer,
    sys.Run (Undisturbed fun j x => j = 1 ∧ x = 4096) sampleTransfer s ∧ s.memOf 1 4096 = 0 ∧
      sys.Run (GoesOn fun j x => j = 1 ∧ x = 4096) s s' ∧ s'.memOf 1 4096 = 7 := by
  obtain ⟨s, hr, hhist, hmem⟩ := Sys.exists_run_of_replay sys
    (Undisturbed fun j x => j = 1 ∧ x = 4096) sampleTransfer
    [.store 4416 [7], .call .write 4416 (hmpGetHybridMempoolAddr 1 + BitVec.ofNat 64 4096) 1,
      .check {}]
    (p := fun s => s.hist = [⟨.write, 1, 4096, [7]⟩] ∧ s.memOf 1 4096 = 0) (by decide)
  obtain ⟨f, h0, hf⟩ := Sys.exists_follows sys (GoesOn fun j x => j = 1 ∧ x = 4096) s
  obtain ⟨n, -, -, -, -, hend⟩ := writes_arrive sampleTransfer_ready hr h0 hf
  refine ⟨s, f n, hr, hmem, h0 ▸ hf.run n, ?_⟩
  rw [hend 1 (by decide) 4096 rfl, hhist]
  rfl

end Transfer

end HMP
