import Hmp.Spec.Base

/-! `hmp_task.c`. Each function is the part after its `malloc` succeeded: the
task is the next object of the heap, and `malloc` leaves in it what the memory
held. A caller that gets `NULL` is modelled at the call. -/

namespace HMP

/-- The size of the frame header, `sizeof(enum hmp_msg_type)+sizeof(int)`. -/
def HEADER_SIZE : ℕ := 8

/-- Stores a new task; the result is the pointer to it. -/
def Node.allocTask (nd : Node) (task : HmpTask) : Node × ℕ :=
  ({ nd.setTask nd.nextTask task with nextTask := nd.nextTask + 1 }, nd.nextTask)

/-- `task->sge.lkey` is written for the dram pool only. -/
def taskLkey (nd : Node) (isDram : Bool) : ℕ :=
  if isDram then nd.lkey else (nd.task nd.nextTask).sge.lkey

/-- The bytes the three `memcpy` calls put into the send slot; `data_size` is
converted to `size_t`. -/
def frameBytes (msg : HmpMsg) : List UInt8 :=
  le 4 msg.msgType.val ++ le 4 (msg.dataSize % 2 ^ 32).toNat ++
    (List.range (msg.dataSize % 2 ^ 64).toNat).map msg.data

def hmpSendTaskCreate (nd : Node) (t : ℕ) (msg : HmpMsg) (isDram : Bool) : Node × ℕ :=
  let addr := (nd.trans t).region.sendAddr
  let task : HmpTask :=
    { type := .init
      sge := { addr := addr
               length := ((HEADER_SIZE + msg.dataSize) % 2 ^ 32).toNat
               lkey := taskLkey nd isDram }
      rdmaTrans := t }
  ({ nd with mem := nd.mem.write addr (frameBytes msg) }).allocTask task

def hmpRecvTaskCreate (nd : Node) (t : ℕ) (size : ℕ) (isDram : Bool) : Node × ℕ :=
  let x := nd.trans t
  let task : HmpTask :=
    { type := .init
      sge := { addr := x.region.recvAddr + x.region.curRecv * HMP_TASK_SIZE
               length := size
               lkey := taskLkey nd isDram }
      rdmaTrans := t }
  (nd.setTrans t
    { x with region := { x.region with curRecv := (x.region.curRecv + 1) % 3 } }).allocTask task

/-- The common body of the two tasks of one-sided transfers; `length` is
converted to `uint32_t`. -/
def transferTask (nd : Node) (type : TaskType) (t addr : ℕ) (length : ℤ) (isDram : Bool) :
    Node × ℕ :=
  nd.allocTask
    { type := type
      sge := { addr := addr, length := (length % 2 ^ 32).toNat, lkey := taskLkey nd isDram }
      rdmaTrans := t }

def hmpReadTaskCreate (nd : Node) (t addr : ℕ) (length : ℤ) (isDram : Bool) : Node × ℕ :=
  transferTask nd .read t addr length isDram

def hmpWriteTaskCreate (nd : Node) (t addr : ℕ) (length : ℤ) (isDram : Bool) : Node × ℕ :=
  transferTask nd .write t addr length isDram

/-- `p` is a task of transport `t`. -/
def Node.Owns (nd : Node) (t p : ℕ) : Prop := p < nd.nextTask ∧ (nd.task p).rdmaTrans = t

/-- Every work request and every completion of `t` names a task of `t`. -/
structure Node.TasksOk (nd : Node) (t : ℕ) : Prop where
  rq : ∀ wr ∈ (nd.qp t).rq, nd.Owns t wr.wrId
  sq : ∀ wr ∈ (nd.qp t).sq, nd.Owns t wr.wrId
  cq : ∀ wc ∈ (nd.qp t).cq, nd.Owns t wc.wrId

end HMP
