import Hmp.Lib.Run
import Hmp.Spec.Transport

/-! One connection attempt: the main thread in `hmp_transport_connect`, the event
thread that handles what the attempt triggers, and rdma_cm and the adapter,
which may deliver whatever their interfaces allow. Each handler of the event
thread is one step, as it makes one access to data the main thread also writes,
the store to `trans_state`. -/

namespace HMP

/-- The next statement of `hmp_transport_connect`. -/
inductive ConnectPc where
  | entry | createId | resolveAddr | setState
  | returned (ret : ℤ)
  deriving DecidableEq

/-- What rdma_cm is doing for the attempt. In `addrDone` and `routeDone` it waits for
the handler of the event it has delivered. -/
inductive CmPhase where
  | idle | addr | addrDone | route | routeDone | connecting | established | ended
  deriving DecidableEq

/-- The events rdma_cm may deliver in a phase, with the phase after them. -/
def CmPhase.emit : CmPhase → RdmaCmEventType → Option CmPhase
  | .idle, _ => none
  | .ended, .timewaitExit => some .ended
  | .ended, _ => none
  | ph, .addrChange => some ph
  | _, .deviceRemoval => some .ended
  | .addr, .addrResolved => some .addrDone
  | .addr, .addrError => some .ended
  | .route, .routeResolved => some .routeDone
  | .route, .routeError => some .ended
  | .connecting, .established => some .established
  | .connecting, .connectError => some .ended
  | .connecting, .unreachable => some .ended
  | .connecting, .rejected => some .ended
  | .established, .disconnected => some .ended
  | _, _ => none

def PostOutcome.posted (o : PostOutcome) : Bool := o.task ∧ o.err = 0

/-- `queue`: the event channel. `running`: the event loop has not ended.
`initDone`: a completion with an INIT message has been handled. -/
structure Attempt where
  node : Node
  t : ℕ
  url : String
  port : ℤ
  main : ConnectPc := .entry
  phase : CmPhase := .idle
  queue : List RdmaCmEventType := []
  running : Bool := true
  initDone : Bool := false

/-- `main ret`: the next statement of the main thread, `ret` being the result of the
call it makes. `emit`: rdma_cm delivers an event. `recv`: the adapter puts a
message into the next posted receive. `recvError`, `sent`: it completes a receive
without a message, or a send. `handle`, `poll`, `loopExit`: the event thread.
`otherStop`: the handler of another transport stops the loop. -/
inductive AttemptEvent where
  | main (ret : ℤ)
  | emit (type : RdmaCmEventType)
  | recv (bytes : List UInt8)
  | recvError (status : IbvWcStatus)
  | sent (status : IbvWcStatus)
  | handle (e : CmEvent)
  | poll
  | otherStop
  | loopExit
  deriving DecidableEq

namespace Attempt

def transState (s : Attempt) : TransportState := (s.node.trans s.t).transState

def mainStep (s : Attempt) (ret : ℤ) : Option Attempt :=
  match s.main with
  | .entry =>
    let r := connectEntry s.node s.t s.url s.port ret
    some { s with node := r.1, main := r.2.elim .createId .returned }
  | .createId =>
    let r := connectCreateId s.node s.t ⟨0, true⟩ ret
    some { s with node := r.1, main := r.2.elim .resolveAddr .returned }
  | .resolveAddr =>
    let r := connectResolve s.node s.t ret
    some { s with node := r.1, main := r.2.elim .setState .returned
                  phase := if ret = 0 then .addr else .idle }
  | .setState => some { s with node := s.node.setState s.t .connecting, main := .returned 0 }
  | .returned _ => none

/-- The phase after the handler of an event has returned `ret`. -/
def phaseAfter (ph : CmPhase) (e : CmEvent) (ret : ℤ) : CmPhase :=
  match ph, e with
  | .addrDone, .addrResolved .. => if ret = 0 then .route else .ended
  | .routeDone, .routeResolved _ => if ret = 0 then .connecting else .ended
  | ph, _ => ph

def handleStep (s : Attempt) (e : CmEvent) : Option Attempt :=
  match s.queue with
  | [] => none
  | type :: rest =>
    if s.running ∧ e.type = type then
      let r := hmpHandleEcEvent s.node s.t e
      some { s with node := r.1, queue := rest, phase := phaseAfter s.phase e r.2 }
    else none

def recvStep (s : Attempt) (bytes : List UInt8) : Option Attempt :=
  let q := s.node.qp s.t
  match q.rq with
  | [] => none
  | wr :: rest =>
    if (s.phase = .connecting ∨ s.phase = .established) ∧ bytes.length ≤ wr.sge.length then
      let wc : IbvWc := { wrId := wr.wrId, status := .success, opcode := .recv
                          byteLen := bytes.length }
      some { s with node := { s.node.setQp s.t { q with rq := rest, cq := q.cq ++ [wc] } with
                              mem := s.node.mem.write wr.sge.addr bytes } }
    else none

def recvErrorStep (s : Attempt) (status : IbvWcStatus) : Option Attempt :=
  let q := s.node.qp s.t
  match q.rq with
  | [] => none
  | wr :: rest =>
    if status = .success then none
    else
      let wc : IbvWc := { wrId := wr.wrId, status := status, opcode := .recv }
      some { s with node := s.node.setQp s.t { q with rq := rest, cq := q.cq ++ [wc] } }

def sentStep (s : Attempt) (status : IbvWcStatus) : Option Attempt :=
  let q := s.node.qp s.t
  match q.sq with
  | [] => none
  | wr :: rest =>
    let wc : IbvWc := { wrId := wr.wrId, status := status, opcode := .send }
    some { s with node := s.node.setQp s.t { q with sq := rest, cq := q.cq ++ [wc] } }

def pollStep (s : Attempt) : Option Attempt :=
  let q := s.node.qp s.t
  match q.cq with
  | [] => none
  | wc :: rest =>
    if s.running ∧ q.registered then
      some { s with node := dispatchWc (s.node.setQp s.t { q with cq := rest }) wc
                    initDone := s.initDone || (wc.status = .success && isInitMsg s.node wc) }
    else none

def step (s : Attempt) : AttemptEvent → Option Attempt
  | .main ret => s.mainStep ret
  | .emit type => (s.phase.emit type).map fun ph =>
      { s with phase := ph, queue := s.queue ++ [type] }
  | .recv bytes => s.recvStep bytes
  | .recvError status => s.recvErrorStep status
  | .sent status => s.sentStep status
  | .handle e => s.handleStep e
  | .poll => s.pollStep
  | .otherStop => some { s with node := { s.node with stop := true } }
  | .loopExit => if s.node.stop ∧ s.running then some { s with running := false } else none

/-- The transport as `hmp_transport_create` leaves it, at the call of `hmp_transport_connect`. -/
def Start (s : Attempt) : Prop :=
  s.transState = .init ∧ s.node.qp s.t = {} ∧ s.main = .entry ∧ s.phase = .idle ∧ s.queue = [] ∧
    s.initDone = false

def sys : Sys Attempt AttemptEvent where
  init := Start
  step := step

/-- The step stores CONNECTED or ERROR into `trans_state`. -/
def storesState (s : Attempt) : AttemptEvent → Bool
  | .handle (.routeResolved o) => o.qp = 0 ∧ o.connect ≠ 0
  | .handle (.other type) => type.1 = .connectError
  | .poll => (s.node.qp s.t).cq.head?.any fun wc => wc.status = .success && isInitMsg s.node wc
  | _ => false

/-- The event thread does not store CONNECTED or ERROR while the main thread stands
between `rdma_resolve_addr` and its own store to `trans_state`. -/
def NotOvertaking (s : Attempt) (e : AttemptEvent) : Prop :=
  s.storesState e = true → s.main ≠ .setState

/-- The attempt is over: `hmp_transport_connect` has returned, with an error, or rdma_cm or a
handler has given up, or the connection is established and the INIT message handled or no
receive is left that could take it. -/
def Ended (s : Attempt) : Prop :=
  ∃ ret, s.main = .returned ret ∧
    (ret ≠ 0 ∨ s.phase = .ended ∨
      s.phase = .established ∧ (s.initDone = true ∨ (s.node.qp s.t).rq = []))

/-- Nothing waits for the event thread. -/
def NonePending (s : Attempt) : Prop :=
  s.queue = [] ∧ ((s.node.qp s.t).registered = true → (s.node.qp s.t).cq = [])

/-- The event ends an attempt in rdma_cm. -/
def endsAttempt : RdmaCmEventType → Bool
  | .addrError | .routeError | .connectError | .unreachable | .rejected | .disconnected
  | .deviceRemoval => true
  | _ => false

/-- `trans_state` is CONNECTED or a later state. -/
def connectedOrLater (s : Attempt) : Bool := TransportState.connected.val ≤ s.transState.val

/-- The steps that end an attempt and leave `trans_state` below CONNECTED are not taken:
the checks and calls of `hmp_transport_connect` succeed, as do those of the address handler
and `hmp_qp_create`; a receive is posted before a connection; an event other than
CONNECT_ERROR that ends the attempt, and the last completion that could bring the INIT
message but does not, are handled only when `trans_state` is CONNECTED or later already. -/
def failsVisibly (s : Attempt) : AttemptEvent → Bool
  | .main ret =>
    match s.main with
    | .entry => s.port ≠ 0 ∧ 0 ≤ ret
    | .createId | .resolveAddr => ret = 0
    | _ => true
  | .handle (.addrResolved verbs route) => (hmpDeviceLookup s.node verbs).isSome ∧ route = 0
  | .handle (.routeResolved o) => o.qp = 0 ∧ (o.connect = 0 → o.recv₁.posted ∨ o.recv₂.posted)
  | .handle .disconnected => s.connectedOrLater
  | .handle (.other type) => type.1 ≠ .connectError ∧ endsAttempt type → s.connectedOrLater
  | .poll => s.storesState .poll ∨ (s.node.qp s.t).rq ≠ [] ∨ (s.node.qp s.t).cq.tail ≠ [] ∨
      s.connectedOrLater
  | _ => true

end Attempt

end HMP
