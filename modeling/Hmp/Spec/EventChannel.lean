import Hmp.Lib.Run
import Hmp.Spec.Transport

/-! An event channel in the epoll set, the events that rdma_cm puts into it, and
`hmp_event_channel_handler` statement by statement. epoll is level-triggered: it reports the
channel as long as an event waits in it. `rdma_get_cm_event` fails exactly on an empty channel. -/

namespace HMP

/-- A CM event with `event->id->context`. -/
structure ArrivedEvent where
  context : ℕ
  event : CmEvent
  deriving DecidableEq

/-- Where the event thread is. `wait`: in `epoll_wait`. `ready`: epoll has reported the channel.
`get`: at the condition of the loop of the handler. `got`, `copied`, `acked`: in its body. `check`:
the handler has returned, and `ctx->stop` comes next. -/
inductive EcPc where
  | wait | ready | get
  | got (e : ArrivedEvent)
  | copied (e : ArrivedEvent)
  | acked (e : ArrivedEvent)
  | check | ended
  deriving DecidableEq

/-- `owner`: the transport whose event channel this is; `none` for the listening one. `arrived`,
`acked` and `handled` record the events that came, those passed to `rdma_ack_cm_event` and those
passed to `hmp_handle_ec_event`. -/
structure EventChannel where
  node : Node
  owner : Option ℕ
  registered : Bool := true
  queue : List ArrivedEvent := []
  pc : EcPc := .wait
  arrived : List ArrivedEvent := []
  acked : List ArrivedEvent := []
  handled : List ArrivedEvent := []

/-- `other`: what other handlers and threads do. They never clear `ctx->stop`. `elsewhere`:
`epoll_wait` returns without this channel. -/
inductive EcEvent where
  | arrive (e : ArrivedEvent)
  | other (nd : Node) (registered : Bool)
  | epollWait | elsewhere | call | getEvent | copy | ack | handle | checkStop

namespace EventChannel

/-- epoll reports the channel. -/
def Readable (s : EventChannel) : Prop := s.registered = true ∧ s.queue ≠ []

instance (s : EventChannel) : Decidable s.Readable := inferInstanceAs (Decidable (_ ∧ _))

/-- `on_cm_disconnected` removes the event channel of its transport from the epoll set. -/
def registeredAfter (s : EventChannel) (e : ArrivedEvent) : Bool :=
  s.registered && !(e.event.type = .disconnected && s.owner = some e.context)

def step (s : EventChannel) : EcEvent → Option EventChannel
  | .arrive e => some { s with queue := s.queue ++ [e], arrived := s.arrived ++ [e] }
  | .other nd registered =>
    if s.node.stop = true → nd.stop = true then some { s with node := nd, registered := registered }
    else none
  | .epollWait => if s.pc = .wait ∧ s.Readable then some { s with pc := .ready } else none
  | .elsewhere => if s.pc = .wait then some { s with pc := .check } else none
  | .call => if s.pc = .ready then some { s with pc := .get } else none
  | .getEvent => if s.pc = .get then
      match s.queue with
      | [] => some { s with pc := .check }
      | e :: rest => some { s with pc := .got e, queue := rest }
    else none
  | .copy =>
      match s.pc with
      | .got e => some { s with pc := .copied e }
      | _ => none
  | .ack =>
      match s.pc with
      | .copied e => some { s with pc := .acked e, acked := s.acked ++ [e] }
      | _ => none
  | .handle =>
      match s.pc with
      | .acked e =>
        let r := hmpHandleEcEvent s.node e.context e.event
        some { s with node := r.1, registered := s.registeredAfter e
                      handled := s.handled ++ [e], pc := if r.2 ≠ 0 then .check else .get }
      | _ => none
  | .checkStop => if s.pc = .check then
      some { s with pc := if s.node.stop then .ended else .wait } else none

/-- A channel that `hmp_event_channel_create` has just made. -/
def Start (s : EventChannel) : Prop :=
  s.queue = [] ∧ s.pc = .wait ∧ s.arrived = [] ∧ s.acked = [] ∧ s.handled = []

def sys : Sys EventChannel EcEvent where
  init := Start
  step := step

/-- The event that the handler has taken from the channel and not yet passed on. -/
def inHand (s : EventChannel) : List ArrivedEvent :=
  match s.pc with
  | .got e | .copied e | .acked e => [e]
  | _ => []

/-- The event in hand when it has been acknowledged. -/
def ackedInHand (s : EventChannel) : List ArrivedEvent :=
  match s.pc with
  | .acked e => [e]
  | _ => []

/-- What the event thread does for this channel. -/
def OfThread : EcEvent → Prop
  | .epollWait | .call | .getEvent | .copy | .ack | .handle | .checkStop => True
  | .arrive _ | .other .. | .elsewhere => False

instance : DecidablePred OfThread
  | .epollWait | .call | .getEvent | .copy | .ack | .handle | .checkStop => .isTrue trivial
  | .arrive _ | .other .. | .elsewhere => .isFalse id

/-- A bound for the steps of the event thread with nothing arriving: seven for each event in the
channel, and what is left of the present round. -/
def left (s : EventChannel) : ℕ :=
  7 * s.queue.length +
    match s.pc with
    | .ended => 0
    | .get => 2
    | .ready => 3
    | .wait => if s.queue = [] then 0 else 4
    | .check => if s.queue = [] then 1 else 5
    | .acked _ => 6
    | .copied _ => 7
    | .got _ => 8

end EventChannel

end HMP
