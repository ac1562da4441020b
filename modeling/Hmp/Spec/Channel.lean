import Hmp.Spec.Attempt
import Hmp.Spec.Transfer

/-! The messages that one node sends to another over an established connection,
from the receives that its setup has posted on. The adapter of the sender reads a
buffer when it executes the request, in posting order, and the connection keeps
the order. -/

namespace HMP

/-- What a message says. -/
structure MsgContent where
  msgType : ℕ
  dataSize : ℤ
  data : List UInt8
  deriving DecidableEq

def HmpMsg.content (msg : HmpMsg) : MsgContent :=
  { msgType := msg.msgType.val, dataSize := msg.dataSize
    data := (List.range msg.dataSize.toNat).map msg.data }

/-- The message that `hmp_wc_success_handler` finds at the address of a task. -/
def decodeMsg (m : Mem) (a : ℕ) : MsgContent :=
  let size := (BitVec.ofNat 32 (m.word (a + 4) 4)).toInt
  { msgType := m.word a 4, dataSize := size, data := m.read (a + HEADER_SIZE) size.toNat }

/-- The frame fits a slot. -/
def HmpMsg.Fits (msg : HmpMsg) : Prop :=
  0 ≤ msg.dataSize ∧ HEADER_SIZE + msg.dataSize ≤ HMP_TASK_SIZE

instance (msg : HmpMsg) : Decidable msg.Fits := inferInstanceAs (Decidable (_ ∧ _))

/-- `t` is the transport of the sender, `u` that of the receiver. `sent`: what has been passed to
`hmp_post_send`. `received`: what the event thread of the receiver has decoded. `recvs`: the
number of receives that the queue pair of the receiver has taken. -/
structure Channel where
  src : Node
  t : ℕ
  dst : Node
  u : ℕ
  wire : List (List UInt8) := []
  sent : List MsgContent := []
  received : List MsgContent := []
  recvs : ℕ := 0

/-- `send`, `recv`: calls of `hmp_post_send` and `hmp_post_recv`. `transmit`, `deliver`: the
adapter of the sender and that of the receiver. `pollSrc`, `poll`: their event threads. -/
inductive ChannelEvent where
  | send (msg : HmpMsg) (o : PostOutcome)
  | recv (o : PostOutcome)
  | transmit
  | deliver
  | pollSrc
  | poll

namespace Channel

def transmitStep (s : Channel) : Option Channel :=
  let q := s.src.qp s.t
  match q.sq with
  | [] => none
  | wr :: rest =>
    let wc : IbvWc := { wrId := wr.wrId, status := .success, opcode := wr.opcode.wc }
    some { s with src := s.src.setQp s.t { q with sq := rest, cq := q.cq ++ [wc] }
                  wire := s.wire ++ [s.src.mem.read wr.sge.addr wr.sge.length] }

def deliverStep (s : Channel) : Option Channel :=
  let q := s.dst.qp s.u
  match s.wire, q.rq with
  | bytes :: wire, wr :: rest =>
    if bytes.length ≤ wr.sge.length then
      let wc : IbvWc := { wrId := wr.wrId, status := .success, opcode := .recv
                          byteLen := bytes.length }
      some { s with dst := { s.dst.setQp s.u { q with rq := rest, cq := q.cq ++ [wc] } with
                             mem := s.dst.mem.write wr.sge.addr bytes }
                    wire := wire }
    else none
  | _, _ => none

def pollSrcStep (s : Channel) : Option Channel :=
  let q := s.src.qp s.t
  match q.cq with
  | [] => none
  | wc :: rest => some { s with src := dispatchWc (s.src.setQp s.t { q with cq := rest }) wc }

def pollStep (s : Channel) : Option Channel :=
  let q := s.dst.qp s.u
  match q.cq with
  | [] => none
  | wc :: rest =>
    some { s with dst := dispatchWc (s.dst.setQp s.u { q with cq := rest }) wc
                  received := s.received ++ [decodeMsg s.dst.mem (s.dst.task wc.wrId).sge.addr] }

def step (s : Channel) : ChannelEvent → Option Channel
  | .send msg o =>
    if msg.Fits then
      some { s with src := hmpPostSend s.src s.t msg o, sent := s.sent ++ [msg.content] }
    else none
  | .recv o =>
    some { s with dst := hmpPostRecv s.dst s.u o
                  recvs := s.recvs + if o.posted then 1 else 0 }
  | .transmit => s.transmitStep
  | .deliver => s.deliverStep
  | .pollSrc => s.pollSrcStep
  | .poll => s.pollStep

/-- The receiver has posted the two receives of its setup, and nothing has been sent. -/
def Start (s : Channel) : Prop :=
  (s.src.qp s.t).sq = [] ∧ s.wire = [] ∧ s.sent = [] ∧ s.received = [] ∧
    ∃ nd o₁ o₂, nd.qp s.u = { live := true, registered := true } ∧
      (nd.trans s.u).region.curRecv = 0 ∧ s.dst = hmpPrePostRecv nd s.u o₁ o₂ ∧
      s.recvs = (if o₁.posted then 1 else 0) + if o₂.posted then 1 else 0

def sys : Sys Channel ChannelEvent where
  init := Start
  step := step

/-- Every post succeeds. A message is written into the send slot only when the adapter has read
the earlier ones, unless the slot holds the same frame; and a receive is posted only on a slot of
the ring that no earlier receive still uses. -/
def SlotsFree (s : Channel) : ChannelEvent → Prop
  | .send msg o => o.posted = true ∧
      ((s.src.qp s.t).sq = [] ∨
        s.src.mem.read (s.src.trans s.t).region.sendAddr (frameBytes msg).length = frameBytes msg)
  | .recv _ =>
    let region := (s.dst.trans s.u).region
    let slot := region.recvAddr + region.curRecv * HMP_TASK_SIZE
    (∀ wr ∈ (s.dst.qp s.u).rq, (s.dst.task wr.wrId).sge.addr ≠ slot) ∧
      ∀ wc ∈ (s.dst.qp s.u).cq, (s.dst.task wc.wrId).sge.addr ≠ slot
  | .transmit | .deliver | .pollSrc | .poll => True

instance (s : Channel) : (e : ChannelEvent) → Decidable (SlotsFree s e)
  | .send _ o => inferInstanceAs (Decidable (o.posted = true ∧ (_ ∨ _)))
  | .recv _ => inferInstanceAs (Decidable (_ ∧ _))
  | .transmit | .deliver | .pollSrc | .poll => .isTrue trivial

/-- Nothing calls `hmp_post_recv` once the connection is set up. -/
def SetupOnly (_ : Channel) : ChannelEvent → Prop
  | .recv _ => False
  | .send .. | .transmit | .deliver | .pollSrc | .poll => True

instance (s : Channel) : (e : ChannelEvent) → Decidable (SetupOnly s e)
  | .recv _ => .isFalse id
  | .send .. | .transmit | .deliver | .pollSrc | .poll => .isTrue trivial

end Channel

end HMP
