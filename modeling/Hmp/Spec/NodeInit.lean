import Hmp.Spec.Devices

/-! `hmp_node_init` statement by statement. Whenever a statement reads what an earlier step has to
provide, it is recorded whether that is there. -/

namespace HMP

/-- The results that later steps read. -/
inductive Needed where
  | config | context | device | listenTrans | dramMempool
  | connectTrans (i : ℕ)
  deriving DecidableEq

/-- `exited`: `exit(-1)`. `crashed`: a pointer that is `NULL` has been dereferenced. -/
inductive InitPhase where
  | running | exited | crashed
  deriving DecidableEq

structure Init where
  proc : Proc
  phase : InitPhase := .running
  configRead : Bool := false
  context : Bool := false
  listenTrans : Bool := false
  uses : List (Needed × Bool) := []

/-- `hmp_config_init` returns -1, calls `exit`, or returns 0. -/
inductive ConfigResult where
  | failed
  | exits
  | read (config : HmpConfig)

/-- The calls for one peer. -/
structure PeerCalls where
  create : CreateCalls := {}
  connect : ConnectCalls

/-- `hash`: the allocations of `hmp_hash_init`. `context`: `hmp_context_create`. -/
structure InitCalls where
  config : ConfigResult
  hash : Bool := true
  ctxList : Option (List (Option IbvContext))
  context : Bool := true
  listenCreate : CreateCalls := {}
  pool : PoolCalls
  listen : ℤ := 0
  peers : ℕ → PeerCalls

namespace Init

/-- `curnode` before `main`. -/
def start : Init :=
  { proc := { real := { node := { config := { nodeInfos := fun _ => { addr := "", port := 0 }
                                              curnodeId := 0, nodeCnt := 0 } }
                        remote := fun _ _ => 0, far := fun _ => 0 } } }

def has (s : Init) : Needed → Bool
  | .config => s.configRead
  | .context => s.context
  | .device => s.proc.listenDevice.isSome
  | .listenTrans => s.listenTrans
  | .dramMempool => s.proc.node.dramMempool.isSome
  | .connectTrans i => (s.proc.node.connectTrans i).isSome

def use (s : Init) (r : Needed) : Init := { s with uses := s.uses ++ [(r, s.has r)] }

/-- The next statement, unless the process has ended. -/
def andThen (s : Init) (f : Init → Init) : Init := if s.phase = .running then f s else s

def exit (s : Init) : Init := { s with phase := .exited }

def setProc (s : Init) (p : Proc) : Init := { s with proc := p }

/-- The result is not looked at. -/
def configInit (o : InitCalls) (s : Init) : Init :=
  match o.config with
  | .failed => s
  | .exits => s.exit
  | .read config =>
    { s.setProc (s.proc.setNode { s.proc.node with config := config }) with configRead := true }

def hashInit (o : InitCalls) (s : Init) : Init :=
  let s := s.use .config
  if 0 < s.proc.node.config.nodeCnt ∧ ¬ o.hash then s.exit else s

def transportInit (o : InitCalls) (s : Init) : Init := s.setProc (s.proc.hmpDeviceInitHandle o.ctxList)

def contextCreate (o : InitCalls) (s : Init) : Init :=
  if o.context then { s with context := true } else s.exit

def listenCreate (o : InitCalls) (s : Init) : Init :=
  let s := s.use .context
  if o.listenCreate.calloc then
    match s.proc.world.hmpEventChannelCreate o.listenCreate.toChannelCalls with
    | (w, none) => (s.setProc (s.proc.setWorld w)).exit
    | (w, some fd) =>
      { s.setProc { s.proc.setWorld w with listenChannel := some fd } with listenTrans := true }
  else s.exit

/-- The loop over the devices ends with the first one. -/
def listenDevice (s : Init) : Init :=
  match s.proc.node.devList with
  | [] => s
  | d :: _ => (s.use .listenTrans).setProc { s.proc with listenDevice := some d }

def memInit (o : InitCalls) (s : Init) : Init :=
  let s := s.use .config
  let s := if o.pool.registers then (s.use .listenTrans).use .device else s
  match s.proc.hmpMempoolCreate o.pool with
  | none => { s with phase := .crashed }
  | some (p, none) => (s.setProc p).exit
  | some (p, some pool) =>
    ((s.setProc (p.setNode (hmpMemInit p.node pool))).use .dramMempool).use .config

/-- The result is not looked at. -/
def listen (o : InitCalls) (s : Init) : Init :=
  ((s.use .listenTrans).use .config).setProc
    (s.proc.setNode (hmpTransportListen s.proc.node o.listen).1)

def clear (s : Init) : Init := s.setProc (s.proc.setNode (clearTable s.proc.node))

/-- One round of the loop over the peers. The result of `hmp_transport_connect` is not looked at. -/
def peer (o : InitCalls) (i : ℕ) (s : Init) : Init :=
  let s := s.use .context
  match s.proc.peerCreate i (o.peers i).create with
  | (p, none) => (s.setProc p).exit
  | (p, some t) =>
    let s := ((s.setProc p).use (.connectTrans i)).use .dramMempool
    let p := p.setNode (peerRegion p.node t i)
    let info := p.node.config.nodeInfos i
    (s.use .config).setProc (p.hmpTransportConnect t info.addr info.port (o.peers i).connect).1

/-- The peers with a larger id. -/
def peerIds (config : HmpConfig) : List ℕ :=
  (List.range config.nodeCnt).filter fun i => config.curnodeId < i

def peers (o : InitCalls) (s : Init) : Init :=
  (peerIds s.proc.node.config).foldl (fun s i => s.andThen (peer o i)) (s.use .config)

/-- `hmp_node_init` as far as the pool. -/
def untilPool (o : InitCalls) : Init :=
  ((((((start.andThen (configInit o)).andThen (hashInit o)).andThen (transportInit o)).andThen
    (contextCreate o)).andThen (listenCreate o)).andThen listenDevice).andThen (memInit o)

def hmpNodeInit (o : InitCalls) : Init :=
  (((untilPool o).andThen (listen o)).andThen clear).andThen (peers o)

/-- Nothing has been read that was not there. -/
def FailsClosed (s : Init) : Prop := ∀ u ∈ s.uses, u.2 = true

end Init

/-- `hmp_device_init_handle` puts the context into the device list. -/
def IbvContext.usable (c : IbvContext) : Bool :=
  c.name ≠ "siw_lo" && c.calloc && !(c.query < 0) && c.allocPd

/-- The device of the context can be used. -/
def IbvContext.succeeds (c : IbvContext) : Bool :=
  c.name ≠ "siw_lo" && c.calloc && c.query = 0 && c.allocPd

/-- `p` is left with one device for each usable context of `l`, with what the calls for it gave. -/
structure Proc.ListsDevices (p : Proc) (l : List (Option IbvContext)) : Prop where
  devices : (p.node.devList.map fun d => (d.verbs, d.deviceAttr)).Perm
    (((l.filterMap id).filter (·.succeeds)).map fun c => (c.verbs, c.attr))
  pds : ∀ d ∈ p.node.devList, p.world.pds.get d.pd = some d.verbs
  distinct : (p.node.devList.map (·.pd)).Nodup
  numDevices : p.numDevices = p.node.devList.length

/-- The contexts that become devices, in the order of `rdma_get_devices`. -/
def InitCalls.usable (o : InitCalls) : List IbvContext :=
  ((o.ctxList.getD []).filterMap id).filter (·.usable)

/-- No call fails before `ibv_reg_mr`. -/
def InitCalls.reachesRegMr (o : InitCalls) : Prop :=
  (∃ config, o.config = .read config ∧ (0 < config.nodeCnt → o.hash)) ∧ o.context ∧
    o.listenCreate.ok ∧ o.pool.registers

end HMP
