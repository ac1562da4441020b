import Hmp.Spec.CompChannel

/-! No completion is lost or handled twice: the event of a completion that
arrives after the queue is armed again is still pending when the handler
returns. -/

namespace HMP.CompChannel

/-- Armed and without an event, or disarmed by the one event that is pending. -/
def Signalled (s : CompChannel) : Prop :=
  s.armed = true ∧ s.pending = 0 ∨ s.armed = false ∧ s.pending = 1

/-- What holds of the notification at each point of the handler. -/
def PcOk (s : CompChannel) : Prop :=
  match s.pc with
  | .idle => s.Signalled ∧ (s.pending = 0 → s.cq = [])
  | .ready => s.armed = false ∧ s.pending = 1
  | .gotEvent | .acked => s.armed = false ∧ s.pending = 0
  | .polling | .dispatching _ => s.Signalled

structure Inv (s : CompChannel) : Prop where
  pcOk : s.PcOk
  order : s.dispatched ++ s.inHand ++ s.cq = s.added

theorem inv_init : Inv hmpCqGet := by
  refine ⟨?_, rfl⟩
  simp [PcOk, Signalled, hmpCqGet]

/-- A completion that arrives between any two steps of the handler. -/
theorem inv_add {s : CompChannel} (wc : IbvWc) (h : Inv s) :
    Inv { s with cq := s.cq ++ [wc], added := s.added ++ [wc], armed := false
                 pending := if s.armed then s.pending + 1 else s.pending } := by
  refine ⟨?_, ?_⟩
  · have hp := h.pcOk
    cases hpc : s.pc <;> simp only [PcOk, Signalled, hpc] at hp ⊢
    case idle =>
      obtain ⟨⟨ha, h0⟩ | ⟨ha, h1⟩, -⟩ := hp
      · simp [ha, h0]
      · simp [ha, h1]
    case ready => simp [hp]
    case gotEvent | acked => simp [hp]
    case polling | dispatching =>
      rcases hp with ⟨ha, h0⟩ | ⟨ha, h1⟩
      · simp [ha, h0]
      · simp [ha, h1]
  · have ho := h.order
    simp only [inHand] at ho ⊢
    rw [← ho]
    simp

theorem inv_step {s s' : CompChannel} {e : CqEvent} (h : Inv s) (hs : s.step e = some s') :
    Inv s' := by
  have hp := h.pcOk
  have ho := h.order
  cases e with
  | add wc =>
    simp only [step, Option.some.injEq] at hs
    exact hs ▸ inv_add wc h
  | epollWait =>
    simp only [step, Option.ite_none_right_eq_some, Option.some.injEq] at hs
    obtain ⟨⟨hpc, hpos⟩, rfl⟩ := hs
    simp only [PcOk, Signalled, inHand, hpc] at hp ho
    refine ⟨?_, by simpa [inHand] using ho⟩
    simp only [PcOk]
    obtain ⟨⟨-, h0⟩ | h1, -⟩ := hp
    · omega
    · exact h1
  | getEvent =>
    simp only [step, Option.ite_none_right_eq_some, Option.some.injEq] at hs
    obtain ⟨⟨hpc, -⟩, rfl⟩ := hs
    simp only [PcOk, inHand, hpc] at hp ho
    exact ⟨by simp [PcOk, hp], by simpa [inHand] using ho⟩
  | ack =>
    simp only [step, Option.ite_none_right_eq_some, Option.some.injEq] at hs
    obtain ⟨hpc, rfl⟩ := hs
    simp only [PcOk, inHand, hpc] at hp ho
    exact ⟨by simp [PcOk, hp], by simpa [inHand] using ho⟩
  | reqNotify =>
    simp only [step, Option.ite_none_right_eq_some, Option.some.injEq] at hs
    obtain ⟨hpc, rfl⟩ := hs
    simp only [PcOk, inHand, hpc] at hp ho
    -- arming again, with the event consumed
    exact ⟨by simp [PcOk, Signalled, hp], by simpa [inHand] using ho⟩
  | poll =>
    simp only [step, Option.ite_none_right_eq_some] at hs
    obtain ⟨hpc, hs⟩ := hs
    simp only [PcOk, inHand, hpc] at hp ho
    split at hs
    · rename_i hcq
      obtain rfl := Option.some.inj hs
      exact ⟨⟨hp, fun _ => hcq⟩, by simpa [inHand] using ho⟩
    · rename_i wc rest hcq
      obtain rfl := Option.some.inj hs
      exact ⟨hp, by simpa [inHand, hcq] using ho⟩
  | dispatch =>
    simp only [step] at hs
    split at hs
    · rename_i wc hpc
      obtain rfl := Option.some.inj hs
      simp only [PcOk, inHand, hpc] at hp ho
      exact ⟨hp, by simpa [inHand] using ho⟩
    · cases hs

theorem inv_reach {s : CompChannel} (h : sys.Reach Sys.Always s) : Inv s :=
  h.inv (I := Inv) (by rintro s rfl; exact inv_init) fun _ _ _ hi _ hs => inv_step hi hs

/-! ## The handler gets through -/

/-- The steps of epoll and the handler are numbered by `left`, and they add nothing. -/
theorem left_step {s s' : CompChannel} {e : CqEvent} (he : OfHandler e)
    (hs : s.step e = some s') : s'.added = s.added ∧ s'.left < s.left := by
  cases e with
  | add wc => exact he.elim
  | epollWait =>
    simp only [step, Option.ite_none_right_eq_some, Option.some.injEq] at hs
    obtain ⟨⟨hpc, -⟩, rfl⟩ := hs
    exact ⟨rfl, by simp [left, hpc]⟩
  | getEvent =>
    simp only [step, Option.ite_none_right_eq_some, Option.some.injEq] at hs
    obtain ⟨⟨hpc, hpos⟩, rfl⟩ := hs
    refine ⟨rfl, ?_⟩
    simp only [left, hpc]
    omega
  | ack =>
    simp only [step, Option.ite_none_right_eq_some, Option.some.injEq] at hs
    obtain ⟨hpc, rfl⟩ := hs
    exact ⟨rfl, by simp [left, hpc]⟩
  | reqNotify =>
    simp only [step, Option.ite_none_right_eq_some, Option.some.injEq] at hs
    obtain ⟨hpc, rfl⟩ := hs
    exact ⟨rfl, by simp [left, hpc]⟩
  | poll =>
    simp only [step, Option.ite_none_right_eq_some] at hs
    obtain ⟨hpc, hs⟩ := hs
    split at hs
    · obtain rfl := Option.some.inj hs
      exact ⟨rfl, by simp [left, hpc]⟩
    · rename_i wc rest hcq
      obtain rfl := Option.some.inj hs
      refine ⟨rfl, ?_⟩
      simp only [left, hpc, hcq, List.length_cons]
      omega
  | dispatch =>
    simp only [step] at hs
    split at hs
    · rename_i wc hpc
      obtain rfl := Option.some.inj hs
      exact ⟨rfl, by simp [left, hpc]⟩
    · cases hs

theorem left_le {s : CompChannel} (h : Inv s) : s.left ≤ 2 * s.cq.length + 8 := by
  have hp := h.pcOk
  unfold left
  cases hpc : s.pc <;> simp only [PcOk, Signalled, hpc] at hp ⊢ <;> omega

/-- Where epoll and the handler can do nothing, the handler waits without an event. -/
theorem idle_of_halted {s : CompChannel} (h : Inv s) (hh : sys.Halted (fun _ => OfHandler) s) :
    s.pc = .idle ∧ s.pending = 0 := by
  have hp := h.pcOk
  cases hpc : s.pc with
  | idle =>
    refine ⟨rfl, ?_⟩
    by_contra hne
    have hs := hh .epollWait trivial
    simp [sys, step, hpc, Nat.pos_of_ne_zero hne] at hs
  | ready =>
    have hs := hh .getEvent trivial
    simp only [PcOk, hpc] at hp
    simp [sys, step, hpc, hp] at hs
  | gotEvent =>
    have hs := hh .ack trivial
    simp [sys, step, hpc] at hs
  | acked =>
    have hs := hh .reqNotify trivial
    simp [sys, step, hpc] at hs
  | polling =>
    have hs := hh .poll trivial
    simp only [sys, step, hpc, if_true] at hs
    split at hs <;> cases hs
  | dispatching wc =>
    have hs := hh .dispatch trivial
    simp [sys, step, hpc] at hs

theorem drained {s : CompChannel} (h : Inv s) (hpc : s.pc = .idle) (hpend : s.pending = 0) :
    s.cq = [] ∧ s.armed = true := by
  have hp := h.pcOk
  simp only [PcOk, Signalled, hpc] at hp
  obtain ⟨⟨ha, -⟩ | ⟨-, h1⟩, hcq⟩ := hp
  · exact ⟨hcq hpend, ha⟩
  · omega

/-- In every interleaving the completions are dispatched once each in the order
of the queue, and a handler that is not running with no event pending leaves
the queue empty and armed. From every state that is reached, boundedly many steps of
epoll and the handler dispatch all that has been added. -/
theorem completions_exactly_once {s : CompChannel} (h : sys.Reach Sys.Always s) :
    s.dispatched ++ s.inHand ++ s.cq = s.added ∧
      (¬ s.Running → s.pending = 0 → s.cq = [] ∧ s.armed = true) ∧
      ∀ f : ℕ → CompChannel, f 0 = s → sys.Follows (fun _ => OfHandler) f →
        ∃ n ≤ 2 * s.cq.length + 8, (f n).dispatched = s.added ∧ ∀ m ≥ n, f m = f n := by
  have hi := inv_reach h
  refine ⟨hi.order, fun hrun hpend => ?_, ?_⟩
  · have hpc : s.pc = .idle ∨ s.pc = .ready := by
      by_contra hne
      exact hrun (not_or.mp hne)
    rcases hpc with hpc | hpc
    · exact drained hi hpc hpend
    · have hp := hi.pcOk
      simp only [PcOk, hpc] at hp
      omega
  · rintro f rfl hf
    obtain ⟨n, hn, ⟨hin, hadded⟩, hhalt, hrest⟩ := hf.halts (μ := left)
      (I := fun s => Inv s ∧ s.added = (f 0).added)
      (fun s e s' hI he hs => ⟨inv_step hI.1 hs, (left_step he hs).1.trans hI.2⟩)
      (fun s e s' _ he hs => (left_step he hs).2) ⟨hi, rfl⟩
    obtain ⟨hpc, hpend⟩ := idle_of_halted hin hhalt
    have ho := hin.order
    rw [(drained hin hpc hpend).1, hadded] at ho
    exact ⟨n, hn.trans (left_le hi), by simpa [inHand, hpc] using ho, hrest⟩

/-- Two completions, the second added between arming and the last poll: its event
is still pending when the handler returns, and a second round consumes it. -/
theorem completions_exactly_once_run :
    ∃ s : CompChannel, sys.Reach Sys.Always s ∧ s.dispatched = [⟨0, .success, .recv, 28⟩] ∧
      s.cq = [⟨1, .success, .send, 0⟩] ∧ s.pending = 1 ∧
      ∃ s', sys.Run (fun _ => OfHandler) s s' ∧
        s'.dispatched = [⟨0, .success, .recv, 28⟩, ⟨1, .success, .send, 0⟩] := by
  obtain ⟨s, hr, hadded, hd, hcq, hpend⟩ := Sys.exists_run_of_replay sys Sys.Always hmpCqGet
    [.add ⟨0, .success, .recv, 28⟩, .epollWait, .getEvent, .ack, .reqNotify, .poll,
      .add ⟨1, .success, .send, 0⟩, .dispatch]
    (p := fun s => s.added = [⟨0, .success, .recv, 28⟩, ⟨1, .success, .send, 0⟩] ∧
      s.dispatched = [⟨0, .success, .recv, 28⟩] ∧ s.cq = [⟨1, .success, .send, 0⟩] ∧
      s.pending = 1) (by decide)
  have hreach : sys.Reach Sys.Always s := ⟨hmpCqGet, rfl, hr⟩
  obtain ⟨f, h0, hf⟩ := Sys.exists_follows sys (fun _ => OfHandler) s
  obtain ⟨n, -, hn, -⟩ := (completions_exactly_once hreach).2.2 f h0 hf
  exact ⟨s, hreach, hd, hcq, hpend, f n, h0 ▸ hf.run n, hn.trans hadded⟩

end HMP.CompChannel
