import Hmp.Lib.Run
import Hmp.Spec.Startup

/-! Runs over one process's pool: transport setups of both roles, posted
receives and sends, and allocations, in any order. -/

namespace HMP

/-- A receive that has been posted: its buffer, and how many receives `ibv_post_recv` had
refused on the transport before. -/
structure PostedRecv where
  sge : HmpSge
  refused : ℕ
  deriving DecidableEq

/-- `owner`: the peer a transport was set up for. `recvs`, `sends`: what `ibv_post_recv`
and `ibv_post_send` have accepted. `refused`: the number of receives that were refused.
`blocks`: the blocks returned by `hmp_malloc`. -/
structure PoolRun where
  node : Node
  owner : ℕ → Option ℕ := fun _ => none
  recvs : ℕ → List PostedRecv := fun _ => []
  refused : ℕ → ℕ := fun _ => 0
  sends : ℕ → List HmpSge := fun _ => []
  blocks : List (ℕ × ℕ) := []

/-- `active i` is one round of the loop of `hmp_node_init` up to the call of
`hmp_transport_connect`; `request p` is `on_cm_connect_request`, up to the
receives, for a request of the node with id `p`; `stranger` one from an address
that no lower node has. -/
inductive PoolEvent where
  | active (i : ℕ)
  | request (p : ℕ) (cm : CmId) (o : RequestOutcome)
  | stranger (addr : String) (cm : CmId) (o : RequestOutcome)
  | postRecv (t : ℕ) (o : PostOutcome)
  | postSend (t : ℕ) (msg : HmpMsg) (o : PostOutcome)
  | malloc (n : ℤ)

namespace PoolRun

/-- The buffer of the request of a post function, if the adapter has accepted it. -/
def accepted (before after : Node) (o : PostOutcome) : List HmpSge :=
  if o.task ∧ o.err = 0 then [(after.task before.nextTask).sge] else []

def postRecv (s : PoolRun) (t : ℕ) (o : PostOutcome) : PoolRun :=
  { s with node := hmpPostRecv s.node t o
           recvs := Function.update s.recvs t
             (s.recvs t ++ (accepted s.node (hmpPostRecv s.node t o) o).map (⟨·, s.refused t⟩))
           refused := if o.task ∧ o.err ≠ 0 then
             Function.update s.refused t (s.refused t + 1) else s.refused }

def request (s : PoolRun) (addr : String) (cm : CmId) (o : RequestOutcome) (owner : Option ℕ) :
    PoolRun :=
  match requestTransport s.node cm o with
  | (nd, none) => { s with node := nd }
  | (nd, some t) =>
    { s with node := requestRegister nd t addr, owner := Function.update s.owner t owner }

def step (s : PoolRun) : PoolEvent → Option PoolRun
  | .active i =>
    if s.node.config.curnodeId < i ∧ i < s.node.config.nodeCnt then
      match peerCreate s.node i true with
      | (nd, some t) => some
          { s with node := peerRegion nd t i, owner := Function.update s.owner t (some i) }
      | (_, none) => none
    else none
  | .request p cm o =>
    if p < s.node.config.curnodeId ∧
        hmpSetCurnodeId s.node.config (s.node.config.nodeInfos p).addr = some p then
      some (s.request (s.node.config.nodeInfos p).addr cm o (some p))
    else none
  | .stranger addr cm o =>
    if ∀ i < s.node.config.curnodeId, (s.node.config.nodeInfos i).addr ≠ addr then
      some (s.request addr cm o none)
    else none
  | .postRecv t o =>
    if t < s.node.nextTrans then some (s.postRecv t o) else none
  | .postSend t msg o =>
    if t < s.node.nextTrans then
      let nd := hmpPostSend s.node t msg o
      some { s with node := nd
                    sends := Function.update s.sends t (s.sends t ++ accepted s.node nd o) }
    else none
  | .malloc n =>
    match s.node.dramMempool with
    | none => none
    | some pool => (hmpMalloc pool s.node.config.nodeCnt n).map fun r =>
        { s with node := { s.node with dramMempool := some r.1 }
                 blocks := s.blocks ++ [(r.2, n.toNat)] }

/-- A process that has created its pool and no transport yet. -/
def Start (s : PoolRun) : Prop :=
  s.node.config.nodeCnt ≤ HMP_NODE_NUM ∧ s.node.config.curnodeId < s.node.config.nodeCnt ∧
    (∃ pool, s.node.dramMempool = some pool ∧ pool.allocSize = 0) ∧ s.node.nextTrans = 0 ∧
    s.owner = (fun _ => none) ∧ s.recvs = (fun _ => []) ∧ s.refused = (fun _ => 0) ∧
    s.sends = (fun _ => []) ∧ s.blocks = []

def sys : Sys PoolRun PoolEvent where
  init := Start
  step := step

/-- No peer gets a second transport. -/
def OncePerPeer (s : PoolRun) : PoolEvent → Prop
  | .active i => ∀ t < s.node.nextTrans, s.owner t ≠ some i
  | .request p _ _ => ∀ t < s.node.nextTrans, s.owner t ≠ some p
  | _ => True

instance (s : PoolRun) : (e : PoolEvent) → Decidable (s.OncePerPeer e)
  | .active i => inferInstanceAs (Decidable (∀ t < s.node.nextTrans, s.owner t ≠ some i))
  | .request p _ _ => inferInstanceAs (Decidable (∀ t < s.node.nextTrans, s.owner t ≠ some p))
  | .stranger .. | .postRecv .. | .postSend .. | .malloc _ => .isTrue trivial

/-- `s_i` of peer `i`. -/
def slotAddr (base i : ℕ) : ℕ := base + i * 4 * HMP_TASK_SIZE

/-- The areas of the pool that are in use. -/
inductive Area where
  | send (t : ℕ)
  | recv (t r : ℕ)
  | block (k : ℕ)
  deriving DecidableEq

/-- Address and length of an area: the slots come from the region of the transport. -/
def areaRange (s : PoolRun) : Area → Option (ℕ × ℕ)
  | .send t => if (s.owner t).isSome then
      some ((s.node.trans t).region.sendAddr, HMP_TASK_SIZE) else none
  | .recv t r => if (s.owner t).isSome ∧ r < 3 then
      some ((s.node.trans t).region.recvAddr + r * HMP_TASK_SIZE, HMP_TASK_SIZE) else none
  | .block k => s.blocks[k]?

/-- Two ranges, as address and length, without a common byte. -/
def RangesDisjoint (a b : ℕ × ℕ) : Prop := a.1 + a.2 ≤ b.1 ∨ b.1 + b.2 ≤ a.1

/-- The transport of peer `i` sends from `s_i`, its `n`-th receive uses slot `1 + n mod 3` behind it,
three receives in a row have three buffers, and no two areas overlap. -/
structure AreasApart (s : PoolRun) : Prop where
  sends : ∀ t i, s.owner t = some i → ∀ sge ∈ s.sends t, sge.addr = slotAddr s.node.baseAddr i
  recvs : ∀ t i, s.owner t = some i → ∀ n r, (s.recvs t)[n]? = some r →
    r.sge.addr = slotAddr s.node.baseAddr i + HMP_TASK_SIZE * (1 + n % 3) ∧
      r.sge.length = HMP_TASK_SIZE
  three : ∀ t i, s.owner t = some i → ∀ n m a b, n < m → m ≤ n + 2 → (s.recvs t)[n]? = some a →
    (s.recvs t)[m]? = some b → a.sge.addr ≠ b.sge.addr
  apart : ∀ x y, x ≠ y → ∀ a b, s.areaRange x = some a → s.areaRange y = some b →
    RangesDisjoint a b

end PoolRun

end HMP
