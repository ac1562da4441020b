import Hmp.Lib.Run
import Hmp.Spec.Transport

/-! A completion queue with its channel, the adapter that fills it, and
`hmp_cq_comp_channel_handler` statement by statement. The library calls are
assumed to succeed: an armed queue emits one event on its channel and disarms
when a completion is added, and epoll reports the channel while an event is
pending. -/

namespace HMP

/-- `ready`: epoll has reported the channel and the handler is about to be called. -/
inductive HandlerPc where
  | idle | ready | gotEvent | acked | polling
  | dispatching (wc : IbvWc)
  deriving DecidableEq

/-- `added` and `dispatched` record the completions the adapter has put into the
queue and those passed to a completion handler. -/
structure CompChannel where
  cq : List IbvWc := []
  armed : Bool := false
  pending : ℕ := 0
  pc : HandlerPc := .idle
  added : List IbvWc := []
  dispatched : List IbvWc := []
  deriving DecidableEq

/-- What `hmp_cq_get` leaves: a new queue on which `ibv_req_notify_cq` was called. -/
def hmpCqGet : CompChannel := { ({} : CompChannel) with armed := true }

inductive CqEvent where
  | add (wc : IbvWc)
  | epollWait | getEvent | ack | reqNotify | poll | dispatch
  deriving DecidableEq

namespace CompChannel

/-- The completion the loop has polled and not yet passed on. -/
def inHand (s : CompChannel) : List IbvWc :=
  match s.pc with
  | .dispatching wc => [wc]
  | _ => []

/-- The handler has been entered and has not returned. -/
def Running (s : CompChannel) : Prop := s.pc ≠ .idle ∧ s.pc ≠ .ready

def step (s : CompChannel) : CqEvent → Option CompChannel
  | .add wc => some
      { s with cq := s.cq ++ [wc], added := s.added ++ [wc], armed := false
               pending := if s.armed then s.pending + 1 else s.pending }
  | .epollWait => if s.pc = .idle ∧ 0 < s.pending then some { s with pc := .ready } else none
  | .getEvent => if s.pc = .ready ∧ 0 < s.pending then
      some { s with pc := .gotEvent, pending := s.pending - 1 } else none
  | .ack => if s.pc = .gotEvent then some { s with pc := .acked } else none
  | .reqNotify => if s.pc = .acked then some { s with pc := .polling, armed := true } else none
  | .poll => if s.pc = .polling then
      match s.cq with
      | [] => some { s with pc := .idle }
      | wc :: rest => some { s with pc := .dispatching wc, cq := rest }
    else none
  | .dispatch =>
      match s.pc with
      | .dispatching wc => some { s with pc := .polling, dispatched := s.dispatched ++ [wc] }
      | _ => none

def sys : Sys CompChannel CqEvent where
  init s := s = hmpCqGet
  step := step

/-- What epoll and the handler do. -/
def OfHandler : CqEvent → Prop
  | .add _ => False
  | .epollWait | .getEvent | .ack | .reqNotify | .poll | .dispatch => True

/-- A bound for the steps of epoll and the handler with nothing added: two for each completion in
the queue, five for a pending event, and what is left of the present round. -/
def left (s : CompChannel) : ℕ :=
  2 * s.cq.length + 5 * s.pending +
    match s.pc with
    | .ready => 0
    | .idle => 1
    | .polling => 2
    | .acked | .dispatching _ => 3
    | .gotEvent => 4

end CompChannel

end HMP
