import Hmp.Spec.Drain
import Mathlib.Data.List.Nodup

/-! The loop `while(ibv_poll_cq(...))` takes an error for a completion, and ends only with a 0. -/

namespace HMP

namespace Drain

variable {res : ℕ → PollResult} {s : Drain}

/-! ## One turn -/

theorem turn_of_ended (h : s.ended = true) : s.turn res = s := if_pos h

theorem turn_completion {wc : IbvWc} (h : s.ended = false) (hr : res s.polls = .completion wc) :
    s.turn res =
      { s with node := dispatchWc s.node wc, wc := wc, filled := some s.polls, polls := s.polls + 1
               handed := s.handed ++ [⟨s.polls, some s.polls, wc⟩] } := by
  simp [turn, h, hr, PollResult.ret, ibvPollCq, dispatch]

/-- The handler gets what the variable has held before. -/
theorem turn_error {e : ℕ} (h : s.ended = false) (hr : res s.polls = .error e) :
    s.turn res =
      { s with node := dispatchWc s.node s.wc, polls := s.polls + 1
               handed := s.handed ++ [⟨s.polls, s.filled, s.wc⟩] } := by
  have hret : (res s.polls).ret ≠ 0 := by
    rw [hr]
    exact (Int.negSucc_lt_zero e).ne
  rw [turn, if_neg (by simp [h]), if_pos hret, hr]
  rfl

theorem turn_empty (h : s.ended = false) (hr : res s.polls = .empty) :
    s.turn res = { s with polls := s.polls + 1, ended := true } := by
  simp [turn, h, hr, PollResult.ret, ibvPollCq]

/-! ## The loop -/

/-- `polled`: every poll that has not returned 0 is followed by a handler. -/
structure Inv (res : ℕ → PollResult) (s : Drain) : Prop where
  polled : s.handed.map (·.poll) = (List.range s.polls).filter fun k => (res k).ret ≠ 0
  filled : ∀ h ∈ s.handed, ∀ wc, res h.poll = .completion wc → h.filled = some h.poll ∧ h.wc = wc
  last : ∀ k < s.polls, res k = .empty → s.ended = true ∧ k + 1 = s.polls

theorem Inv.start (res : ℕ → PollResult) (node : Node) (wc : IbvWc) :
    Inv res { node := node, wc := wc } :=
  ⟨rfl, fun _ h => absurd h List.not_mem_nil, fun _ h => absurd h (Nat.not_lt_zero _)⟩

/-- A loop that has not ended has not seen a 0. -/
theorem Inv.no_empty (h : Inv res s) (hended : s.ended = false) {k : ℕ} (hk : k < s.polls) :
    res k ≠ .empty := by
  intro hempty
  have := (h.last k hk hempty).1
  rw [hended] at this
  cases this

theorem Inv.turn (h : Inv res s) : Inv res (s.turn res) := by
  cases hended : s.ended with
  | true =>
    rw [turn_of_ended hended]
    exact h
  | false =>
    have hlast (hne : res s.polls ≠ .empty) : ∀ k < s.polls + 1, res k ≠ .empty := by
      intro k hk
      rcases Nat.lt_succ_iff_lt_or_eq.mp hk with hlt | rfl
      · exact h.no_empty hended hlt
      · exact hne
    cases hr : res s.polls with
    | completion wc =>
      rw [turn_completion hended hr]
      refine ⟨?_, ?_, fun k hk hempty => absurd hempty (hlast (by simp [hr]) k hk)⟩
      · simp [h.polled, List.range_succ, hr, PollResult.ret]
      · intro x hx wc' hwc
        rcases List.mem_append.mp hx with hx | hx
        · exact h.filled x hx wc' hwc
        · obtain rfl := List.mem_singleton.mp hx
          exact ⟨rfl, by simpa [hr] using hwc⟩
    | empty =>
      rw [turn_empty hended hr]
      refine ⟨?_, h.filled, fun k hk hempty => ⟨rfl, ?_⟩⟩
      · simp [h.polled, List.range_succ, hr, PollResult.ret]
      · rcases Nat.lt_succ_iff_lt_or_eq.mp hk with hlt | rfl
        · exact absurd hempty (h.no_empty hended hlt)
        · rfl
    | error e =>
      rw [turn_error hended hr]
      refine ⟨?_, ?_, fun k hk hempty => absurd hempty (hlast (by simp [hr]) k hk)⟩
      · simp [h.polled, List.range_succ, hr, PollResult.ret]
      · intro x hx wc' hwc
        rcases List.mem_append.mp hx with hx | hx
        · exact h.filled x hx wc' hwc
        · obtain rfl := List.mem_singleton.mp hx
          simp [hr] at hwc

variable {node : Node} {wc : IbvWc}

theorem loop_succ (res : ℕ → PollResult) (node : Node) (wc : IbvWc) (n : ℕ) :
    loop res node wc (n + 1) = (loop res node wc n).turn res :=
  Function.iterate_succ_apply' ..

theorem loop_inv (res : ℕ → PollResult) (node : Node) (wc : IbvWc) (n : ℕ) :
    Inv res (loop res node wc n) := by
  induction n with
  | zero => exact Inv.start res node wc
  | succ n ih =>
    rw [loop_succ]
    exact ih.turn

theorem loop_polls (n : ℕ) (h : (loop res node wc n).ended = false) :
    (loop res node wc n).polls = n := by
  induction n with
  | zero => rfl
  | succ n ih =>
    rw [loop_succ] at h ⊢
    cases hended : (loop res node wc n).ended with
    | true =>
      rw [turn_of_ended hended, hended] at h
      cases h
    | false =>
      have hpolls := ih hended
      cases hr : res (loop res node wc n).polls with
      | completion wc' => rw [turn_completion hended hr, hpolls]
      | empty =>
        rw [turn_empty hended hr] at h
        cases h
      | error e => rw [turn_error hended hr, hpolls]

/-- Nothing but a 0 ends the loop. -/
theorem loop_ended_iff (n : ℕ) :
    (loop res node wc n).ended = true ↔ ∃ k < n, res k = .empty := by
  induction n with
  | zero => simp [loop]
  | succ n ih =>
    have hsucc : (∃ k < n + 1, res k = .empty) ↔ (∃ k < n, res k = .empty) ∨ res n = .empty := by
      simp only [Nat.lt_succ_iff_lt_or_eq, or_and_right, exists_or, exists_eq_left]
    rw [hsucc, ← ih, loop_succ]
    cases hended : (loop res node wc n).ended with
    | true => simp [turn_of_ended hended, hended]
    | false =>
      have hpolls := loop_polls n hended
      cases hr : res (loop res node wc n).polls with
      | completion wc' =>
        rw [turn_completion hended hr]
        rw [hpolls] at hr
        simp [hended, hr]
      | empty =>
        rw [turn_empty hended hr]
        rw [hpolls] at hr
        simp [hr]
      | error e =>
        rw [turn_error hended hr]
        rw [hpolls] at hr
        simp [hended, hr]

/-! ## Errors behind a 0 -/

/-- A handler behind a poll that has failed would come behind the end of the loop. -/
theorem Inv.fresh (h : Inv res s) (hres : ∀ k e, res k = .error e → ∃ j < k, res j = .empty) :
    ∀ x ∈ s.handed, x.filled = some x.poll ∧ res x.poll = .completion x.wc := by
  intro x hx
  have hmem := List.mem_map_of_mem (f := (·.poll)) hx
  rw [h.polled, List.mem_filter, List.mem_range] at hmem
  cases hr : res x.poll with
  | completion wc' =>
    obtain ⟨hf, hw⟩ := h.filled x hx wc' hr
    exact ⟨hf, by rw [hw]⟩
  | empty =>
    have := hmem.2
    simp [hr, PollResult.ret] at this
  | error e =>
    obtain ⟨j, hj, hempty⟩ := hres x.poll e hr
    have := (h.last j (hj.trans hmem.1) hempty).2
    omega

theorem Inv.once (h : Inv res s) (hfresh : ∀ x ∈ s.handed, x.filled = some x.poll) {k : ℕ}
    (hk : k < s.polls) (hcompl : (res k).isCompletion = true) :
    (s.handed.map (·.filled)).count (some k) = 1 := by
  have hmap : s.handed.map (·.filled) = (s.handed.map (·.poll)).map some := by
    rw [List.map_map]
    exact List.map_congr_left hfresh
  rw [hmap, h.polled]
  apply List.count_eq_one_of_mem
  · exact (List.nodup_range.filter _).map (Option.some_injective ℕ)
  · apply List.mem_map_of_mem
    rw [List.mem_filter, List.mem_range]
    refine ⟨hk, ?_⟩
    cases hr : res k with
    | completion wc' => rfl
    | empty => simp [hr, PollResult.isCompletion] at hcompl
    | error e => simp [hr, PollResult.isCompletion] at hcompl

/-- The first result that is not a completion is a 0. -/
theorem exists_empty_iff (hres : ∀ k e, res k = .error e → ∃ j < k, res j = .empty) (n : ℕ) :
    (∃ k < n, res k = .empty) ↔ ∃ k < n, (res k).isCompletion = false := by
  constructor
  · rintro ⟨k, hk, hempty⟩
    exact ⟨k, hk, by rw [hempty]; rfl⟩
  · rintro ⟨k, hk, hcompl⟩
    cases hr : res k with
    | completion wc' => simp [hr, PollResult.isCompletion] at hcompl
    | empty => exact ⟨k, hk, hr⟩
    | error e =>
      obtain ⟨j, hj, hempty⟩ := hres k e hr
      exact ⟨j, hj.trans hk, hempty⟩

end Drain

open Drain

/-- The loop is right exactly if every error comes behind a 0, which has ended it. -/
theorem drains_right_iff (res : ℕ → PollResult) (node : Node) (wc : IbvWc) :
    DrainsRight res (loop res node wc) ↔ ∀ k e, res k = .error e → ∃ j < k, res j = .empty := by
  constructor
  · intro h k e hk
    have hended := (h.ends (k + 1)).mpr ⟨k, Nat.lt_succ_self k, by rw [hk]; rfl⟩
    obtain ⟨j, hj, hempty⟩ := (loop_ended_iff (k + 1)).mp hended
    refine ⟨j, Nat.lt_of_le_of_ne (Nat.lt_succ_iff.mp hj) fun heq => ?_, hempty⟩
    rw [heq, hk] at hempty
    cases hempty
  · intro h
    have hfresh := fun n => (loop_inv res node wc n).fresh h
    refine ⟨hfresh, fun n k hk hcompl => ?_, fun n => ?_⟩
    · exact (loop_inv res node wc n).once (fun x hx => (hfresh n x hx).1) hk hcompl
    · rw [loop_ended_iff, exists_empty_iff h]

/-- A node before anything has been set up. -/
def emptyNode : Node :=
  { config := { nodeInfos := fun _ => { addr := "", port := 0 }, curnodeId := 0, nodeCnt := 0 } }

/-- What the memory of the variable happens to hold. -/
def garbage : IbvWc := { wrId := 3735928559, status := .success, opcode := .rdmaRead }

/-- The first poll fails, and what the variable holds is taken for a completion. -/
theorem drain_takes_error :
    ¬ DrainsRight (fun _ => .error 0) (loop (fun _ => .error 0) emptyNode garbage) := by
  intro h
  have hhanded : (loop (fun _ => .error 0) emptyNode garbage 1).handed = [⟨0, none, garbage⟩] := rfl
  have hfresh := (h.fresh 1 ⟨0, none, garbage⟩ (by simp [hhanded])).1
  cases hfresh

/-! ## A queue whose polls do not fail -/

namespace Drain

theorem turns_ofQueue {res : ℕ → PollResult} (l : List IbvWc) (s : Drain) (h : s.ended = false)
    (hres : ∀ k, res (s.polls + k) = .ofQueue l k) :
    ((turn res)^[l.length + 1] s).ended = true ∧
      ((turn res)^[l.length + 1] s).handed.map (·.wc) = s.handed.map (·.wc) ++ l ∧
      ((turn res)^[l.length + 1] s).node = l.foldl dispatchWc s.node := by
  induction l generalizing s with
  | nil =>
    have hturn := turn_empty h (hres 0)
    refine ⟨?_, ?_, ?_⟩ <;> simp [hturn]
  | cons wc l ih =>
    have hturn := turn_completion h (hres 0)
    rw [List.length_cons, Function.iterate_succ_apply, hturn]
    obtain ⟨hended, hhanded, hnode⟩ := ih
      { s with node := dispatchWc s.node wc, wc := wc, filled := some s.polls, polls := s.polls + 1
               handed := s.handed ++ [⟨s.polls, some s.polls, wc⟩] } h
      (fun k => by simpa [PollResult.ofQueue, Nat.add_assoc, Nat.add_comm 1] using hres (k + 1))
    refine ⟨hended, ?_, hnode⟩
    rw [hhanded]
    simp

end Drain

namespace CompChannel

/-- The turns of the loop as events of the queue. -/
theorem drain_run {s : CompChannel} (h : s.pc = .polling) :
    sys.Run (fun _ e => e = .poll ∨ e = .dispatch) s
      { s with cq := [], pc := .idle, dispatched := s.dispatched ++ s.cq } := by
  obtain ⟨cq, armed, pending, pc, added, dispatched⟩ := s
  obtain rfl : pc = .polling := h
  induction cq generalizing dispatched with
  | nil =>
    apply Sys.Run.nil.snoc (e := .poll) (.inl rfl)
    simp [sys, step]
  | cons wc l ih =>
    have hpoll : sys.step ⟨wc :: l, armed, pending, .polling, added, dispatched⟩ .poll =
        some ⟨l, armed, pending, .dispatching wc, added, dispatched⟩ := rfl
    have hdisp : sys.step ⟨l, armed, pending, .dispatching wc, added, dispatched⟩ .dispatch =
        some ⟨l, armed, pending, .polling, added, dispatched ++ [wc]⟩ := rfl
    have hrest := ih (dispatched ++ [wc])
    simp only [List.append_assoc, List.singleton_append] at hrest
    exact ((Sys.Run.nil.snoc (.inl rfl) hpoll).snoc (.inr rfl) hdisp).trans hrest

end CompChannel

/-- The events of the queue pass on what the loop passes on. -/
theorem drain_dispatched {s : CompChannel} (h : s.pc = .polling) (node : Node) (wc : IbvWc) :
    ∃ s', CompChannel.sys.Run (fun _ e => e = .poll ∨ e = .dispatch) s s' ∧ s'.pc = .idle ∧
      s'.dispatched = s.dispatched ++
        (loop (.ofQueue s.cq) node wc (s.cq.length + 1)).handed.map (·.wc) := by
  refine ⟨_, CompChannel.drain_run h, rfl, ?_⟩
  have := (turns_ofQueue s.cq { node := node, wc := wc } rfl fun k => by rw [Nat.zero_add]).2.1
  rw [loop, this]
  rfl

end HMP
