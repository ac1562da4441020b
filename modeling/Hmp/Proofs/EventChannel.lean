import Hmp.Spec.EventChannel

/-! Every CM event is acknowledged and then handled once, in the order of arrival; an event that
the handler leaves in the channel makes epoll report it again. -/

namespace HMP.EventChannel

structure Inv (s : EventChannel) : Prop where
  order : s.handled ++ s.inHand ++ s.queue = s.arrived
  acked : s.acked = s.handled ++ s.ackedInHand
  ended : s.pc = .ended → s.node.stop = true

theorem inv_start {s : EventChannel} (h : Start s) : Inv s := by
  obtain ⟨hq, hpc, ha, hk, hh⟩ := h
  exact ⟨by simp [inHand, *], by simp [ackedInHand, *], by simp [hpc]⟩

/-- The event thread moves on with no event in hand before or after. -/
theorem Inv.move {s : EventChannel} {pc : EcPc} (h : Inv s) (h0 : s.inHand = [])
    (h1 : inHand { s with pc := pc } = []) (hend : pc = .ended → s.node.stop = true) :
    Inv { s with pc := pc } := by
  have hack : ∀ x : EventChannel, x.inHand = [] → x.ackedInHand = [] := by
    intro x hx
    unfold inHand at hx
    unfold ackedInHand
    split at hx <;> simp_all
  refine ⟨?_, ?_, hend⟩
  · rw [h1]
    simpa [h0] using h.order
  · rw [hack _ h1]
    simpa [hack s h0] using h.acked

theorem inv_step {s s' : EventChannel} {e : EcEvent} (h : Inv s) (hs : s.step e = some s') :
    Inv s' := by
  have ho := h.order
  have ha := h.acked
  cases e with
  | arrive a =>
    obtain rfl := Option.some.inj hs
    refine ⟨?_, ha, h.ended⟩
    change s.handled ++ s.inHand ++ (s.queue ++ [a]) = s.arrived ++ [a]
    rw [← List.append_assoc, ho]
  | other nd registered =>
    simp only [step, Option.ite_none_right_eq_some, Option.some.injEq] at hs
    obtain ⟨hstop, rfl⟩ := hs
    exact ⟨ho, ha, fun hp => hstop (h.ended hp)⟩
  | epollWait =>
    simp only [step, Option.ite_none_right_eq_some, Option.some.injEq] at hs
    obtain ⟨⟨hpc, -⟩, rfl⟩ := hs
    exact h.move (by simp [inHand, hpc]) rfl (by simp)
  | elsewhere =>
    simp only [step, Option.ite_none_right_eq_some, Option.some.injEq] at hs
    obtain ⟨hpc, rfl⟩ := hs
    exact h.move (by simp [inHand, hpc]) rfl (by simp)
  | call =>
    simp only [step, Option.ite_none_right_eq_some, Option.some.injEq] at hs
    obtain ⟨hpc, rfl⟩ := hs
    exact h.move (by simp [inHand, hpc]) rfl (by simp)
  | getEvent =>
    simp only [step, Option.ite_none_right_eq_some] at hs
    obtain ⟨hpc, hs⟩ := hs
    split at hs
    · obtain rfl := Option.some.inj hs
      exact h.move (by simp [inHand, hpc]) rfl (by simp)
    · rename_i a rest hq
      obtain rfl := Option.some.inj hs
      simp only [inHand, ackedInHand, hpc, hq] at ho ha
      exact ⟨by simpa [inHand] using ho, by simpa [ackedInHand] using ha, by simp⟩
  | copy =>
    simp only [step] at hs
    split at hs
    · rename_i a hpc
      obtain rfl := Option.some.inj hs
      simp only [inHand, ackedInHand, hpc] at ho ha
      exact ⟨by simpa [inHand] using ho, by simpa [ackedInHand] using ha, by simp⟩
    · cases hs
  | ack =>
    simp only [step] at hs
    split at hs
    · rename_i a hpc
      obtain rfl := Option.some.inj hs
      simp only [inHand, ackedInHand, hpc, List.append_nil] at ho ha
      exact ⟨by simpa [inHand] using ho, by simp [ackedInHand, ha], by simp⟩
    · cases hs
  | handle =>
    simp only [step] at hs
    split at hs
    · rename_i a hpc
      obtain rfl := Option.some.inj hs
      simp only [inHand, ackedInHand, hpc] at ho ha
      -- whether the loop goes on or breaks, the event is no longer in hand
      split_ifs
      · exact ⟨by simpa [inHand] using ho, by simpa [ackedInHand] using ha, by simp⟩
      · exact ⟨by simpa [inHand] using ho, by simpa [ackedInHand] using ha, by simp⟩
    · cases hs
  | checkStop =>
    simp only [step, Option.ite_none_right_eq_some, Option.some.injEq] at hs
    obtain ⟨hpc, rfl⟩ := hs
    split_ifs with hstop
    · exact h.move (by simp [inHand, hpc]) rfl fun _ => hstop
    · exact h.move (by simp [inHand, hpc]) rfl (by simp)

theorem inv_reach {s : EventChannel} (h : sys.Reach Sys.Always s) : Inv s :=
  h.inv (I := Inv) (fun _ => inv_start) fun _ _ _ hi _ hs => inv_step hi hs

/-- epoll reports a registered channel as long as something waits in it. -/
theorem Inv.all_handled {s : EventChannel} (h : Inv s) (hhand : s.inHand = [])
    (hreg : s.registered = true) (hr : ¬ s.Readable) : s.handled = s.arrived := by
  have hq : s.queue = [] := by
    by_contra hq
    exact hr ⟨hreg, hq⟩
  have ho := h.order
  rwa [hhand, hq, List.append_nil, List.append_nil] at ho

/-! ## The event thread gets through -/

/-- The steps of the event thread are numbered by `left`, and nothing arrives in them. -/
theorem left_step {s s' : EventChannel} {e : EcEvent} (he : OfThread e)
    (hs : s.step e = some s') : s'.arrived = s.arrived ∧ s'.left < s.left := by
  cases e with
  | arrive a => exact he.elim
  | other nd registered => exact he.elim
  | elsewhere => exact he.elim
  | epollWait =>
    simp only [step, Option.ite_none_right_eq_some, Option.some.injEq] at hs
    obtain ⟨⟨hpc, hr⟩, rfl⟩ := hs
    exact ⟨rfl, by simp [left, hpc, hr.2]⟩
  | call =>
    simp only [step, Option.ite_none_right_eq_some, Option.some.injEq] at hs
    obtain ⟨hpc, rfl⟩ := hs
    exact ⟨rfl, by simp [left, hpc]⟩
  | getEvent =>
    simp only [step, Option.ite_none_right_eq_some] at hs
    obtain ⟨hpc, hs⟩ := hs
    split at hs
    · rename_i hq
      obtain rfl := Option.some.inj hs
      exact ⟨rfl, by simp [left, hpc, hq]⟩
    · rename_i a rest hq
      obtain rfl := Option.some.inj hs
      refine ⟨rfl, ?_⟩
      simp only [left, hpc, hq, List.length_cons]
      omega
  | copy =>
    simp only [step] at hs
    split at hs
    · rename_i a hpc
      obtain rfl := Option.some.inj hs
      exact ⟨rfl, by simp [left, hpc]⟩
    · cases hs
  | ack =>
    simp only [step] at hs
    split at hs
    · rename_i a hpc
      obtain rfl := Option.some.inj hs
      exact ⟨rfl, by simp [left, hpc]⟩
    · cases hs
  | handle =>
    simp only [step] at hs
    split at hs
    · rename_i a hpc
      obtain rfl := Option.some.inj hs
      refine ⟨rfl, ?_⟩
      -- behind a failure the thread has to come back for what is left in the channel
      simp only [left, hpc]
      split_ifs <;> simp only <;> omega
    · cases hs
  | checkStop =>
    simp only [step, Option.ite_none_right_eq_some, Option.some.injEq] at hs
    obtain ⟨hpc, rfl⟩ := hs
    refine ⟨rfl, ?_⟩
    simp only [left, hpc]
    split_ifs <;> simp only <;> omega

theorem left_le (s : EventChannel) : s.left ≤ 7 * s.queue.length + 8 := by
  unfold left
  split <;> (try split_ifs) <;> omega

/-- The event thread comes to rest only in `epoll_wait` on a channel that is not readable, or when
it has ended. -/
theorem rest_of_halted {s : EventChannel} (h : sys.Halted (fun _ => OfThread) s) :
    s.pc = .ended ∨ s.pc = .wait ∧ ¬ s.Readable := by
  cases hpc : s.pc with
  | ended => exact .inl rfl
  | wait =>
    refine .inr ⟨rfl, fun hr => ?_⟩
    have hs := h .epollWait trivial
    simp [sys, step, hpc, hr] at hs
  | ready =>
    have hs := h .call trivial
    simp [sys, step, hpc] at hs
  | get =>
    have hs := h .getEvent trivial
    simp only [sys, step, hpc, if_true] at hs
    split at hs <;> simp at hs
  | got a =>
    have hs := h .copy trivial
    simp [sys, step, hpc] at hs
  | copied a =>
    have hs := h .ack trivial
    simp [sys, step, hpc] at hs
  | acked a =>
    have hs := h .handle trivial
    simp [sys, step, hpc] at hs
  | check =>
    have hs := h .checkStop trivial
    simp [sys, step, hpc] at hs

theorem halted_of_wait {s : EventChannel} (hpc : s.pc = .wait) (hr : ¬ s.Readable) :
    sys.Halted (fun _ => OfThread) s := by
  intro e he
  cases e with
  | arrive | other | elsewhere => exact he.elim
  | epollWait => simp [sys, step, hr]
  | call | getEvent | copy | ack | handle | checkStop => simp [sys, step, hpc]

/-- The events are handled once each in the order of arrival, each after its acknowledgement. From
every state that is reached, boundedly many steps of the event thread handle all that has arrived,
unless the channel has left the epoll set or something has stopped the thread. -/
theorem events_exactly_once {s : EventChannel} (h : sys.Reach Sys.Always s) :
    s.handled ++ s.inHand ++ s.queue = s.arrived ∧ s.acked = s.handled ++ s.ackedInHand ∧
      (s.inHand = [] → s.registered = true → ¬ s.Readable → s.handled = s.arrived) ∧
      ∀ f : ℕ → EventChannel, f 0 = s → sys.Follows (fun _ => OfThread) f →
        ∃ n ≤ 7 * s.queue.length + 8, (∀ m ≥ n, f m = f n) ∧
          ((f n).registered = true → (f n).node.stop = false → (f n).handled = s.arrived) := by
  have hi := inv_reach h
  refine ⟨hi.order, hi.acked, hi.all_handled, ?_⟩
  rintro f rfl hf
  obtain ⟨n, hn, ⟨hin, harrived⟩, hhalt, hrest⟩ := hf.halts (μ := left)
    (I := fun s => Inv s ∧ s.arrived = (f 0).arrived)
    (fun s e s' hI he hs => ⟨inv_step hI.1 hs, (left_step he hs).1.trans hI.2⟩)
    (fun s e s' _ he hs => (left_step he hs).2) ⟨hi, rfl⟩
  refine ⟨n, hn.trans (left_le _), hrest, fun hreg hstop => ?_⟩
  rcases rest_of_halted hhalt with hpc | ⟨hpc, hr⟩
  · simp [hin.ended hpc] at hstop
  · exact (hin.all_handled (by simp [inHand, hpc]) hreg hr).trans harrived

/-- The listening channel of a node, and two events of which the first one is not handled with
success. -/
def sampleChannel : EventChannel :=
  { node := { config := { nodeInfos := fun _ => ⟨"192.168.31.182", 18515, {}⟩
                          curnodeId := 0, nodeCnt := 2 } }
    owner := none }

def sampleArrived : List ArrivedEvent :=
  [⟨0, .other ⟨.addrError, rfl⟩⟩, ⟨0, .other ⟨.timewaitExit, rfl⟩⟩]

/-- The first event ends the loop, and the second one is handled in the next round. -/
theorem events_exactly_once_run :
    ∃ s s' : EventChannel, sys.Reach Sys.Always s ∧ s.handled = [] ∧ s.arrived = sampleArrived ∧
      sys.Run (fun _ => OfThread) s s' ∧ s'.handled = sampleArrived := by
  obtain ⟨s, hr, hh, harrived, s', hs', hhalt, hreg, hstop⟩ := Sys.exists_run_of_replay sys
    Sys.Always sampleChannel (sampleArrived.map .arrive)
    (p := fun s => s.handled = [] ∧ s.arrived = sampleArrived ∧
      ∃ s' ∈ sys.replay (fun _ => OfThread) s [.epollWait, .call, .getEvent, .copy, .ack, .handle,
        .checkStop, .epollWait, .call, .getEvent, .copy, .ack, .handle, .checkStop],
        (s'.pc = .wait ∧ ¬ s'.Readable) ∧ s'.registered = true ∧ s'.node.stop = false)
    (by decide)
  have hreach : sys.Reach Sys.Always s := ⟨sampleChannel, ⟨rfl, rfl, rfl, rfl, rfl⟩, hr⟩
  have hrun := Sys.replay_run _ hs'
  obtain ⟨f, h0, hf, k, hk⟩ := hrun.exists_follows
  obtain ⟨n, -, hrest, hall⟩ := (events_exactly_once hreach).2.2.2 f h0 hf
  -- both `f n` and `s'` are where the thread comes to rest
  have hn : f n = s' := by
    rw [← hrest (max n k) (le_max_left ..), ← hk]
    exact hf.rest (hk ▸ halted_of_wait hhalt.1 hhalt.2) (le_max_right ..)
  exact ⟨s, s', hreach, hh, harrived, hrun, harrived ▸ hn ▸ hall (hn ▸ hreg) (hn ▸ hstop)⟩

end HMP.EventChannel
