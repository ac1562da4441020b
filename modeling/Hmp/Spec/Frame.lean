import Hmp.Spec.Channel

/-! The frame that `hmp_post_send` puts into the send slot of a transport. -/

namespace HMP

/-- The three `memcpy` calls of `hmp_send_task_create`. -/
def sendWrites (nd : Node) (t : ℕ) (msg : HmpMsg) : List (ℕ × List UInt8) :=
  let addr := (nd.trans t).region.sendAddr
  [(addr, le 4 msg.msgType.val),
    (addr + 4, le 4 (msg.dataSize % 2 ^ 32).toNat),
    (addr + HEADER_SIZE, (List.range (msg.dataSize % 2 ^ 64).toNat).map msg.data)]

/-- `wr` is what a call of `hmp_post_send` has posted. -/
def PostsSend (nd nd' : Node) (t : ℕ) (wr : IbvSendWr) : Prop :=
  (nd'.qp t).sq = (nd.qp t).sq ++ [wr]

/-- `inSlot`, `outside`: the frame is written into the slot of the transport, and nothing else is.
`length`: the peer's receives are of `HMP_TASK_SIZE` bytes. `decodes`: whatever the peer's memory
holds, its handler reads the message at the slot that the adapter has filled. -/
structure SendsFrame (nd nd' : Node) (t : ℕ) (msg : HmpMsg) : Prop where
  inSlot : ∀ w ∈ sendWrites nd t msg, (nd.trans t).region.sendAddr ≤ w.1 ∧
    w.1 + w.2.length ≤ (nd.trans t).region.sendAddr + HMP_TASK_SIZE
  outside : ∀ x, x < (nd.trans t).region.sendAddr ∨
    (nd.trans t).region.sendAddr + HMP_TASK_SIZE ≤ x → nd'.mem x = nd.mem x
  length : ∀ wr, PostsSend nd nd' t wr → wr.sge.length ≤ HMP_TASK_SIZE
  decodes : ∀ wr, PostsSend nd nd' t wr → ∀ (peer : Mem) (a : ℕ),
    decodeMsg (peer.write a (nd'.mem.read wr.sge.addr wr.sge.length)) a = msg.content

end HMP
