import Hmp.Spec.Unknown

/-! A node whose peers may connect again. Every request creates a transport of its own, while the
slots of a transport and its entry in `connect_trans` depend on the peer alone. -/

namespace HMP

/-- `owner`: the peer that a transport has been set up for, by `hmp_node_init` or by a request that
has stored it in `connect_trans`. -/
structure Reconnect where
  real : Transfer
  owner : ℕ → Option ℕ

/-- `clear`, `active i`: the `memset` of `hmp_node_init` and one round of its loop. `late t`: the
event thread handles a completion of `t` although the channel has left the epoll set, since its
batch of events still had one for it. `run`: any other step of the node. -/
inductive ReconnectEvent where
  | clear
  | active (i : ℕ)
  | late (t : ℕ)
  | run (e : TransferEvent)

instance (nd : Node) (o : RequestOutcome) : Decidable (Twin.GivesUp nd o) :=
  inferInstanceAs (Decidable (_ ∨ _ ∨ _))

/-- The node that the search of `on_cm_connect_request` finds. -/
def requestPeer (nd : Node) (peerAddr : String) : Option ℕ :=
  (List.range nd.config.curnodeId).find? fun i => (nd.config.nodeInfos i).addr = peerAddr

namespace Reconnect

/-- An adapter works on queue pairs that exist, and CM events come for transports that do; a route
is resolved for a transport that connects. -/
def Possible (s : Reconnect) : TransferEvent → Prop
  | .recv t _ _ | .complete t _ => (s.real.node.qp t).live = true
  | .cm t (.routeResolved _) => t < s.real.node.nextTrans ∧
      (s.owner t).any (fun i => s.real.node.config.curnodeId < i) = true
  | .cm t (.established _ _) | .cm t .disconnected => t < s.real.node.nextTrans
  | _ => True

instance (s : Reconnect) : DecidablePred s.Possible
  | .recv .. | .complete .. => inferInstanceAs (Decidable (_ = true))
  | .cm _ (.routeResolved _) => inferInstanceAs (Decidable (_ ∧ _))
  | .cm _ (.established _ _) | .cm _ .disconnected => inferInstanceAs (Decidable (_ < _))
  | .cm _ (.addrResolved ..) | .cm _ (.connectRequest ..) | .cm _ (.other _) | .call .. | .check _ |
    .ret | .poll _ | .loopExit | .store .. | .storeRemote .. => .isTrue trivial

/-- A request that gets as far as the search gives its transport to the peer it finds. -/
def ownerAfter (s : Reconnect) : TransferEvent → ℕ → Option ℕ
  | .cm _ (.connectRequest _ peerAddr o) =>
    if Twin.GivesUp s.real.node o then s.owner
    else Function.update s.owner s.real.node.nextTrans (requestPeer s.real.node peerAddr)
  | _ => s.owner

def activeStep (s : Reconnect) (i : ℕ) : Option Reconnect :=
  let nd := s.real.node
  if nd.config.curnodeId < i ∧ i < nd.config.nodeCnt ∧ ∀ t < nd.nextTrans, s.owner t ≠ some i then
    match peerCreate nd i true with
    | (nd, some t) => some { real := { s.real with node := peerRegion nd t i }
                             owner := Function.update s.owner t (some i) }
    | (_, none) => none
  else none

def lateStep (s : Reconnect) (t : ℕ) : Option Reconnect :=
  let nd := s.real.node
  match (nd.qp t).cq with
  | [] => none
  | wc :: rest => some
      { s with real := { s.real with
                 node := dispatchWc (nd.setQp t { nd.qp t with cq := rest }) wc } }

def step (s : Reconnect) : ReconnectEvent → Option Reconnect
  | .clear => some { s with real := { s.real with node := clearTable s.real.node } }
  | .active i => s.activeStep i
  | .late t => s.lateStep t
  | .run e =>
    if s.Possible e then
      (s.real.step e).map fun real => { real := real, owner := s.ownerAfter e }
    else none

/-- Before the first transport. -/
def Start (s : Reconnect) : Prop :=
  Transfer.Start s.real ∧ s.real.node.nextTrans = 0 ∧ s.owner = fun _ => none

def sys : Sys Reconnect ReconnectEvent where
  init := Start
  step := step

/-- The event thread handles a completion of `t`. -/
def Handles (e : ReconnectEvent) (t : ℕ) : Prop := e = .late t ∨ e = .run (.poll t)

/-- A received message that no handler has seen yet. -/
def Message (wc : IbvWc) : Prop := wc.status = .success ∧ wc.opcode = .recv

instance (wc : IbvWc) : Decidable (Message wc) := inferInstanceAs (Decidable (_ ∧ _))

/-- The node has no queue pair for `p`, and no message of `p` waits for its handler. -/
def Gone (s : Reconnect) (p : ℕ) : Prop :=
  ∀ t < s.real.node.nextTrans, s.owner t = some p →
    (s.real.node.qp t).live = false ∧ ∀ wc ∈ (s.real.node.qp t).cq, ¬ Message wc

instance (s : Reconnect) (p : ℕ) : Decidable (s.Gone p) :=
  inferInstanceAs (Decidable (∀ t < s.real.node.nextTrans, _ → _ ∧ _))

/-- A request gets a queue pair only if it comes from a configured node with a smaller id, and
only when the older transports of that node are gone. -/
def OldGone (s : Reconnect) : ReconnectEvent → Prop
  | .run (.cm _ (.connectRequest _ peerAddr o)) =>
    Twin.GivesUp s.real.node o ∨ ∃ p ∈ requestPeer s.real.node peerAddr, s.Gone p
  | _ => True

instance (s : Reconnect) : DecidablePred s.OldGone
  | .run (.cm _ (.connectRequest _ peerAddr o)) =>
    decidable_of_iff (Twin.GivesUp s.real.node o ∨
        (requestPeer s.real.node peerAddr).any (fun p => decide (s.Gone p)) = true) (by
      simp [OldGone, Option.any_eq_true])
  | .run (.cm _ (.addrResolved ..)) | .run (.cm _ (.routeResolved _)) |
    .run (.cm _ (.established _ _)) | .run (.cm _ .disconnected) | .run (.cm _ (.other _)) |
    .run (.call ..) | .run (.check _) | .run .ret | .run (.complete ..) | .run (.recv ..) |
    .run (.poll _) | .run .loopExit | .run (.store ..) | .run (.storeRemote ..) | .clear |
    .active _ | .late _ => .isTrue trivial

end Reconnect

end HMP
