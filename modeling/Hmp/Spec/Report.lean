import Hmp.Spec.Transfer

/-! What `hmp_read` and `hmp_write` tell their caller. Beside the state of the node
stands an account of the latest call: what failed in it, which bytes have moved
for it, and what it has returned. -/

namespace HMP

/-- The last statement of `hmp_read` and of `hmp_write`. -/
def callResult : TransferOp → ℤ
  | .read => 0
  | .write => 0

/-- `before`: the contents of the local buffer at the call. `failed`: the transport is missing
or past CONNECTED, there is no task, the post fails, or the request of a read completes with an
error. `moved`: what `memcpy`, or the adapter for a read, has put at the target. `posted`: the
queue pair has accepted the request. `others`: what else has been stored in the memory of this
node since. -/
structure CallAccount where
  op : TransferOp
  localAddr : ℕ
  addr : ℕ
  before : List UInt8
  failed : Bool := false
  moved : Option (List UInt8) := none
  posted : Bool := false
  others : List (ℕ × List UInt8) := []
  ret : Option ℤ := none

/-- `crashed`: a `NULL` transport has been dereferenced. -/
structure Report where
  real : Transfer
  call : Option CallAccount := none
  crashed : Bool := false

namespace Transfer

/-- The bytes in the range of the call at the other end of its transport. -/
def remoteBytes (s : Transfer) (c : RemoteCall) : List UInt8 :=
  (s.remote (s.far c.t)).read c.addr (c.length % 2 ^ 32).toNat

/-- The check of the transport, `malloc` and the post succeed. -/
def posts (s : Transfer) (o : PostOutcome) : Bool :=
  match s.app with
  | .checking c =>
    hmpTransportCheckState (s.node.trans c.t).transState = some 0 ∧ o.task ∧ o.err = 0
  | _ => false

/-- The read that the adapter serves when it finishes the oldest request of `t`. -/
def served (s : Transfer) (t : ℕ) : Option RemoteCall :=
  match s.app with
  | .waiting c p =>
    if (s.node.qp t).sq.head?.any fun wr => wr.wrId = p ∧ wr.opcode = .rdmaRead then some c
    else none
  | _ => none

/-- What a step stores in the memory of this node, unless it is for the call. -/
def othersStore (s : Transfer) : TransferEvent → List (ℕ × List UInt8)
  | .complete t .success =>
    match (s.node.qp t).sq.head? with
    | some wr => if wr.opcode = .rdmaRead then
        [(wr.sge.addr, (s.remote (s.far t)).read wr.remoteAddr wr.sge.length)] else []
    | none => []
  | .recv t _ bytes => ((s.node.qp t).rq.head?.map fun wr => (wr.sge.addr, bytes)).toList
  | .cm t (.established _ o) =>
    if o.task then [((s.node.trans t).region.sendAddr, frameBytes (hmpBuildInitMsg s.node))] else []
  | .store addr bytes => [(addr, bytes)]
  | _ => []

end Transfer

namespace CallAccount

/-- Where the call stores. -/
def target (r : CallAccount) : ℕ :=
  match r.op with
  | .read => r.localAddr
  | .write => r.addr

def next (r : CallAccount) (s : Transfer) : TransferEvent → CallAccount
  | .check o => if s.posts o then { r with posted := true } else { r with failed := true }
  | .complete t status =>
    match s.served t with
    | some c =>
      if status = .success then { r with moved := some (s.remoteBytes c), others := [] }
      else { r with failed := true }
    | none => { r with others := r.others ++ s.othersStore (.complete t status) }
  | e => { r with others := r.others ++ s.othersStore e }

/-- The thread is back from the call. -/
def returned (r : CallAccount) (s s' : Transfer) : CallAccount :=
  if s.app ≠ .idle ∧ s'.app = .idle then { r with ret := some (callResult r.op) } else r

end CallAccount

/-- The memory holds the bytes at `a`, but for what others have stored there since. -/
def Holds (m : Mem) (a : ℕ) (bs : List UInt8) (others : List (ℕ × List UInt8)) : Prop :=
  m.read a bs.length = ((Mem.write (fun _ => 0) a bs).puts others).read a bs.length

namespace Report

/-- The start of a call, and all of it on the own path. -/
def callStep (s : Report) (op : TransferOp) (localAddr : ℕ) (hmAddr : BitVec 64) (length : ℤ) :
    Option Report :=
  (hmpGetHmNodeId s.real.node.config.nodeCnt hmAddr).bind fun r =>
    let mem := s.real.node.mem
    let account : CallAccount :=
      { op := op, localAddr := localAddr, addr := r.2.toNat
        before := mem.read localAddr (length % 2 ^ 32).toNat }
    if r.1 = s.real.node.config.curnodeId then
      let src := match op with
        | .read => r.2.toNat
        | .write => localAddr
      (s.real.step (.call op localAddr hmAddr length)).map fun real =>
        { s with real := real
                 call := some { account with
                   moved := some (mem.read src (length % 2 ^ 64).toNat)
                   ret := some (callResult op) } }
    else if s.real.app = .idle ∧ s.real.node.connectTrans r.1 = none then
      some { s with call := some { account with failed := true }, crashed := true }
    else
      (s.real.step (.call op localAddr hmAddr length)).map fun real =>
        { s with real := real, call := some account }

def step (s : Report) (e : TransferEvent) : Option Report :=
  if s.crashed then none
  else match e with
    | .call op localAddr hmAddr length => s.callStep op localAddr hmAddr length
    | e => (s.real.step e).map fun real =>
      { s with real := real, call := s.call.map fun r => (r.next s.real e).returned s.real real }

def Start (s : Report) : Prop := Transfer.Start s.real ∧ s.call = none ∧ s.crashed = false

def sys : Sys Report TransferEvent where
  init := Start
  step := step

/-- Steps while the latest call stays the latest. -/
def SameCall (_ : Report) : TransferEvent → Prop
  | .call .. => False
  | _ => True

/-- The call returns a nonzero value, and a read has left the buffer alone. -/
def Refused (s : Report) : Prop :=
  ∃ s', sys.Run SameCall s s' ∧ ∃ r ∈ s'.call, ∃ v ∈ r.ret, v ≠ 0 ∧
    (r.op = .read → Holds s'.real.node.mem r.localAddr r.before r.others)

/-- The bytes are at the target, or the queue pair has accepted the write. -/
def Performed (s : Report) (r : CallAccount) : Prop :=
  (∃ bs ∈ r.moved, Holds s.real.node.mem r.target bs r.others) ∨ r.op = .write ∧ r.posted = true

/-- A call in which something fails is refused, and one that returns 0 has been performed. -/
structure Honest (s : Report) (r : CallAccount) : Prop where
  failure : r.failed = true → Refused s
  success : r.ret = some 0 → Performed s r

end Report

end HMP
