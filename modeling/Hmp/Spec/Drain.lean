import Hmp.Spec.CompChannel

/-! The polling loop of `hmp_cq_comp_channel_handler` for any results of `ibv_poll_cq`. -/

namespace HMP

/-- What one call `ibv_poll_cq(cq, 1, &wc)` does. `wc` is written only if it returns 1. -/
inductive PollResult where
  | completion (wc : IbvWc)
  | empty
  | error (n : ℕ)

namespace PollResult

/-- The value that is returned. -/
def ret : PollResult → ℤ
  | .completion _ => 1
  | .empty => 0
  | .error n => .negSucc n

def isCompletion : PollResult → Bool
  | .completion _ => true
  | _ => false

/-- The results for a queue with the completions `l`. -/
def ofQueue (l : List IbvWc) (k : ℕ) : PollResult := (l[k]?).elim .empty .completion

end PollResult

/-- A call of a completion handler after poll `poll`, with what poll `filled` has written. -/
structure Handed where
  poll : ℕ
  filled : Option ℕ
  wc : IbvWc

/-- `wc` is the variable of the handler, and `filled` the poll that has written it last. -/
structure Drain where
  node : Node
  wc : IbvWc
  filled : Option ℕ := none
  polls : ℕ := 0
  handed : List Handed := []
  ended : Bool := false

namespace Drain

def ibvPollCq (s : Drain) : PollResult → Drain
  | .completion wc => { s with wc := wc, filled := some s.polls, polls := s.polls + 1 }
  | _ => { s with polls := s.polls + 1 }

/-- The body of the loop, behind poll `k`. -/
def dispatch (s : Drain) (k : ℕ) : Drain :=
  { s with node := dispatchWc s.node s.wc, handed := s.handed ++ [⟨k, s.filled, s.wc⟩] }

/-- The test of the loop with what follows, unless the loop has ended. -/
def turn (res : ℕ → PollResult) (s : Drain) : Drain :=
  if s.ended then s
  else if (res s.polls).ret ≠ 0 then (s.ibvPollCq (res s.polls)).dispatch s.polls
  else { s.ibvPollCq (res s.polls) with ended := true }

/-- The loop after `n` turns. `wc`: what the memory of the variable holds before. -/
def loop (res : ℕ → PollResult) (node : Node) (wc : IbvWc) (n : ℕ) : Drain :=
  (turn res)^[n] { node := node, wc := wc }

end Drain

/-- `s n` is the loop after `n` turns. -/
structure DrainsRight (res : ℕ → PollResult) (s : ℕ → Drain) : Prop where
  fresh : ∀ n, ∀ h ∈ (s n).handed, h.filled = some h.poll ∧ res h.poll = .completion h.wc
  once : ∀ n k, k < (s n).polls → (res k).isCompletion = true →
    ((s n).handed.map (·.filled)).count (some k) = 1
  ends : ∀ n, (s n).ended = true ↔ ∃ k < n, (res k).isCompletion = false

end HMP
