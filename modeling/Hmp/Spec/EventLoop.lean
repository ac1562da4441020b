import Hmp.Lib.Run
import Mathlib.Data.Int.Notation
import Mathlib.Data.Nat.Notation
import Mathlib.Logic.Function.Basic
import Mathlib.Tactic.SplitIfs

/-! `hmp_context.c`: the epoll set and the loop of the event thread. A handler is whatever its
calls make of the set; other threads may change the set as well. -/

namespace HMP

/-- The handlers that the transports register. -/
inductive EventHandler where
  | hmpEventChannelHandler | hmpCqCompChannelHandler
  deriving DecidableEq

/-- `H` names the functions that can be registered. -/
structure EventData (H : Type) where
  fd : ℕ
  data : ℕ
  eventHandler : H
  deriving DecidableEq

/-- What an epoll instance holds for each descriptor. -/
abbrev EpollSet (H : Type) := ℕ → Option (EventData H)

variable {H : Type}

/-- `ok`: there is memory for the event data and in epoll. A descriptor is registered once only. -/
def hmpContextAddEventFd (ep : EpollSet H) (fd data : ℕ) (eventHandler : H) (ok : Bool) :
    EpollSet H × ℤ :=
  if ok ∧ ep fd = none then
    (Function.update ep fd (some { fd := fd, data := data, eventHandler := eventHandler }), 0)
  else (ep, -1)

def hmpContextDelEventFd (ep : EpollSet H) (fd : ℕ) : EpollSet H × ℤ :=
  if (ep fd).isSome then (Function.update ep fd none, 0) else (ep, -1)

@[simp] theorem hmpContextDelEventFd_self (ep : EpollSet H) (fd : ℕ) :
    (hmpContextDelEventFd ep fd).1 fd = none := by
  unfold hmpContextDelEventFd
  split_ifs with h
  · simp
  · simpa using h

/-- Neither function touches another descriptor. -/
theorem hmpContextDelEventFd_of_ne (ep : EpollSet H) {fd fd' : ℕ} (h : fd' ≠ fd) :
    (hmpContextDelEventFd ep fd).1 fd' = ep fd' := by
  unfold hmpContextDelEventFd
  split_ifs
  · exact Function.update_of_ne h ..
  · rfl

theorem hmpContextAddEventFd_of_ne (ep : EpollSet H) {fd fd' : ℕ} (data : ℕ) (f : H) (ok : Bool)
    (h : fd' ≠ fd) : (hmpContextAddEventFd ep fd data f ok).1 fd' = ep fd' := by
  unfold hmpContextAddEventFd
  split_ifs
  · exact Function.update_of_ne h ..
  · rfl

theorem hmpContextDelEventFd_of_none {ep : EpollSet H} {fd : ℕ} (fd' : ℕ) (h : ep fd = none) :
    (hmpContextDelEventFd ep fd').1 fd = none := by
  by_cases hfd : fd = fd'
  · rw [hfd, hmpContextDelEventFd_self]
  · rw [hmpContextDelEventFd_of_ne ep hfd, h]

theorem hmpContextAddEventFd_of_none {ep : EpollSet H} {fd fd' data : ℕ} {f : H} {ok : Bool}
    (h : ep fd = none) (hadd : fd' = fd → (hmpContextAddEventFd ep fd' data f ok).2 ≠ 0) :
    (hmpContextAddEventFd ep fd' data f ok).1 fd = none := by
  by_cases hfd : fd = fd'
  · subst hfd
    unfold hmpContextAddEventFd at hadd ⊢
    split_ifs at hadd ⊢
    · exact absurd rfl (hadd rfl)
    · exact h
  · rw [hmpContextAddEventFd_of_ne ep data f ok hfd, h]

/-- Where `hmp_context_run` is: in `epoll_wait`, in the loop over the events, in a handler, or
returned. -/
inductive ContextPc where
  | wait | events | handler | ended
  deriving DecidableEq

/-- `batch`: the events that `epoll_wait` has returned and the loop has not come to. `calls`
records the calls of handlers. -/
structure EventLoop (H : Type) where
  epoll : EpollSet H := fun _ => none
  pc : ContextPc := .wait
  batch : List (EventData H) := []
  stop : Bool := false
  calls : List (EventData H) := []

/-- `add`, `del`, `stop`: by the handler that runs or by another thread. -/
inductive LoopEvent (H : Type) where
  | epollWait (events : List (EventData H))
  | call | ret | checkStop
  | add (fd data : ℕ) (eventHandler : H) (ok : Bool)
  | del (fd : ℕ)
  | stop

namespace EventLoop

/-- What `epoll_wait` may return: registered descriptors, each once, as many as `events` has room
for. -/
def Reported (ep : EpollSet H) (events : List (EventData H)) : Prop :=
  (∀ d ∈ events, ep d.fd = some d) ∧ (events.map (·.fd)).Nodup ∧ events.length ≤ 1024

instance [DecidableEq H] (ep : EpollSet H) (events : List (EventData H)) :
    Decidable (Reported ep events) := inferInstanceAs (Decidable (_ ∧ _ ∧ _))

/-- `hmp_context_del_event_fd`, whether it succeeds or not. -/
def delFd (s : EventLoop H) (fd : ℕ) : EventLoop H :=
  { s with epoll := (hmpContextDelEventFd s.epoll fd).1 }

variable [DecidableEq H]

def step (s : EventLoop H) : LoopEvent H → Option (EventLoop H)
  | .epollWait events =>
    if s.pc = .wait ∧ Reported s.epoll events then some { s with pc := .events, batch := events }
    else none
  | .call =>
    if s.pc = .events then
      match s.batch with
      | [] => none
      | d :: rest => some { s with pc := .handler, batch := rest, calls := s.calls ++ [d] }
    else none
  | .ret => if s.pc = .handler then some { s with pc := .events } else none
  | .checkStop =>
    if s.pc = .events ∧ s.batch = [] then
      some { s with pc := if s.stop then .ended else .wait }
    else none
  | .add fd data eventHandler ok => some
      { s with epoll := (hmpContextAddEventFd s.epoll fd data eventHandler ok).1 }
  | .del fd => some (s.delFd fd)
  | .stop => some { s with stop := true }

/-- A context that `hmp_context_create` has just made. -/
def sys : Sys (EventLoop H) (LoopEvent H) where
  init s := s = {}
  step := step

/-- The calls of a handler registered for `fd`. -/
def callsOf (s : EventLoop H) (fd : ℕ) : List (EventData H) := s.calls.filter fun d => d.fd = fd

/-- The step does not add `fd`. -/
def NotAdded (fd : ℕ) (s : EventLoop H) : LoopEvent H → Prop
  | .add fd' data eventHandler ok =>
    fd' = fd → (hmpContextAddEventFd s.epoll fd' data eventHandler ok).2 ≠ 0
  | _ => True

/-- As long as `fd` is not added, no handler registered for it is called. -/
def Silent (s : EventLoop H) (fd : ℕ) : Prop :=
  ∀ s', sys.Run (NotAdded fd) s s' → s'.callsOf fd = s.callsOf fd

end EventLoop

end HMP
