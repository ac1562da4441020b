import Hmp.Spec.Cluster

/-! What the startup of a cluster is for: every two nodes are connected, and know the pool of each
other. -/

namespace HMP

namespace Cluster

/-- The steps of the two threads and of the adapter; the others are up to the application. -/
def ownStep : NodeEvent → Bool
  | .check _ | .post .. | .store .. => false
  | _ => true

/-- The event thread makes a transport CONNECTED that the main thread has yet to make CONNECTING. -/
def connectsEarly (s : Cluster) : ℕ × NodeEvent → Bool
  | (i, .mr) =>
    match s.loop i, s.main i with
    | .mr t _ .state, .connect _ u .setState => t = u
    | _, _ => false
  | _ => false

/-- Nothing fails, no store of one thread is lost to a later one of the other, and the message
areas are left alone. -/
def Orderly (cfg : ClusterConfig) (s : Cluster) (e : ℕ × NodeEvent) : Prop :=
  ClearedFirst s e ∧ s.connectsEarly e = false ∧ SlotsUntouched cfg s e

def OrderlyOwn (cfg : ClusterConfig) (s : Cluster) (e : ℕ × NodeEvent) : Prop :=
  Orderly cfg s e ∧ ownStep e.2 = true

/-- Every node has found a device, and no port is 0. -/
structure Equipped (cfg : ClusterConfig) (s : Cluster) : Prop where
  devices : ∀ i < cfg.nodeCnt, (s.node i).devList ≠ []
  ports : ∀ k < cfg.nodeCnt, (cfg.nodeInfos k).port ≠ 0

/-- Node `i` is connected to node `j`, and knows the pool there. -/
def Joined (s : Cluster) (i j : ℕ) : Prop :=
  ∃ t u pool, (s.node i).connectTrans j = some t ∧ (s.node j).connectTrans i = some u ∧
    TwoEnds s i t j u ∧ ((s.node i).trans t).transState = .connected ∧
    (s.node j).dramMempool = some pool ∧ ((s.node i).config.nodeInfos j).dramMr =
      { addr := pool.baseAddr, length := pool.mr.length, rkey := pool.mr.rkey }

/-- All nodes have finished `hmp_node_init`, and every two are connected. -/
def FullMesh (cfg : ClusterConfig) (s : Cluster) : Prop :=
  (∀ i < cfg.nodeCnt, s.main i = .done) ∧
    ∀ i < cfg.nodeCnt, ∀ j < cfg.nodeCnt, i ≠ j → Joined s i j

/-- Node `i` as its calls see it: itself, the memories of the others, and where its queue pairs
lead. -/
def transferAt (s : Cluster) (i : ℕ) : Transfer where
  node := s.node i
  remote j := (s.node j).mem
  far t := (s.otherEnd i t).getD i

end Cluster

end HMP
