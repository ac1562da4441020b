import Hmp.Spec.NodeInit

/-! A process from its pool on: the main thread in the rest of `hmp_node_init`, the event thread, the
adapters, and the calls of the application. -/

namespace HMP

/-- The statements of `hmp_node_init` behind `hmp_mem_init`. `create`: the transport for a peer with
the assignments to it. -/
inductive InitStmt where
  | listen | clear
  | create (i : ℕ)
  | connect (i : ℕ)
  deriving DecidableEq

/-- The results of the calls of a statement. -/
structure StmtCalls where
  listen : ℤ := 0
  create : CreateCalls := {}
  connect : ConnectCalls := { cm := { conn := 0, active := true } }

namespace InitStmt

/-- The order of the main thread. -/
def behindPool (config : HmpConfig) : List InitStmt :=
  [.listen, .clear] ++ (Init.peerIds config).flatMap fun i => [.create i, .connect i]

/-- `none`: the process calls `exit`. -/
def exec (o : StmtCalls) (p : Proc) : InitStmt → Option Proc
  | .listen => some (p.setNode (hmpTransportListen p.node o.listen).1)
  | .clear => some (p.setNode (clearTable p.node))
  | .create i =>
    match p.peerCreate i o.create with
    | (_, none) => none
    | (p, some t) => some (p.setNode (peerRegion p.node t i))
  | .connect i => (p.node.connectTrans i).map fun t =>
    let info := p.node.config.nodeInfos i
    (p.hmpTransportConnect t info.addr info.port o.connect).1

end InitStmt

/-- `todo`: what the main thread has still to execute of `hmp_node_init`. -/
structure ProcRun where
  proc : Proc
  todo : List InitStmt

/-- `main`: the next statement of the main thread. `cm`: a CM event. `run`: any other step of the
event thread, the adapters, or a thread of the application. -/
inductive ProcEvent where
  | main (o : StmtCalls)
  | cm (t : ℕ) (e : Proc.CmCalls)
  | run (e : TransferEvent)

def Proc.CmCalls.type : CmCalls → RdmaCmEventType
  | .addrResolved .. => .addrResolved
  | .routeResolved _ => .routeResolved
  | .connectRequest .. => .connectRequest
  | .established .. => .established
  | .disconnected => .disconnected
  | .other type => type

namespace ProcRun

def mainStep (s : ProcRun) (o : StmtCalls) : Option ProcRun :=
  match s.todo with
  | [] => none
  | stmt :: rest => (stmt.exec o s.proc).map fun p => { proc := p, todo := rest }

/-- rdma_cm resolves a route once, before the transport has a queue pair. -/
def cmStep (s : ProcRun) (t : ℕ) (e : Proc.CmCalls) : Option ProcRun :=
  if s.proc.real.running ∧ (e.type = .routeResolved → s.proc.node.qp t = {}) then
    (s.proc.hmpHandleEcEvent t e).map fun r => { s with proc := r.1 }
  else none

def runStep (s : ProcRun) : TransferEvent → Option ProcRun
  | .cm .. => none
  | e => (s.proc.real.step e).map fun b => { s with proc := { s.proc with real := b } }

def step (s : ProcRun) : ProcEvent → Option ProcRun
  | .main o => s.mainStep o
  | .cm t e => s.cmStep t e
  | .run e => s.runStep e

/-- The process has its pool. Nothing is said about the other nodes. -/
def Begins (o : InitCalls) (s : ProcRun) : Prop :=
  (Init.untilPool o).phase = .running ∧
    s.todo = InitStmt.behindPool (Init.untilPool o).proc.node.config ∧
    ∃ remote far, s.proc = { (Init.untilPool o).proc with
      real := { (Init.untilPool o).proc.real with remote := remote, far := far } }

/-- The runs of a process whose start has had the results `o`. -/
def sys (o : InitCalls) : Sys ProcRun ProcEvent where
  init := Begins o
  step := step

end ProcRun

/-- The pool is registered in the protection domain of `q`, where its keys are valid. -/
def Proc.SharesPd (p : Proc) (q : IbvQp) : Prop := ∃ mr ∈ p.mr.bind p.world.mrs.get, mr.pd = q.pd

end HMP
