import Hmp.Spec.Attempt
import Hmp.Spec.Transfer

/-! What `hmp_write` is for: the bytes of the source at the time of the call go to the
target, whichever node it is on. The memories that such writes would leave are kept beside
those that the code leaves. -/

namespace HMP

/-- The memories after a write of node `own` that copies its source at once. -/
def copyNow (m : ℕ → Mem) (own src k a n : ℕ) : ℕ → Mem :=
  Function.update m k ((m k).write a ((m own).read src n))

/-- `ideal k`: what the memory of node `k` would hold. -/
structure Eager where
  real : Transfer
  ideal : ℕ → Mem

namespace Eager

def idealStep (s : Eager) : TransferEvent → ℕ → Mem
  | .call .write localSrc hmAddr length =>
    (hmpGetHmNodeId s.real.node.config.nodeCnt hmAddr).elim s.ideal fun r =>
      copyNow s.ideal s.real.node.config.curnodeId localSrc r.1 r.2.toNat length.toNat
  | .store addr bytes =>
    let own := s.real.node.config.curnodeId
    Function.update s.ideal own ((s.ideal own).write addr bytes)
  | _ => s.ideal

def step (s : Eager) (e : TransferEvent) : Option Eager :=
  (s.real.step e).map fun s' => ⟨s', s.idealStep e⟩

/-- A node of a connected cluster, before its first write. -/
def Start (pools : ℕ → HmpMempool) (s : Eager) : Prop :=
  Transfer.FullyConnected pools s.real ∧ Transfer.Ready s.real ∧ s.ideal = s.real.memOf

def sys (pools : ℕ → HmpMempool) : Sys Eager TransferEvent where
  init := Start pools
  step := step

instance (pool : HmpMempool) (addr : ℕ) (length : ℤ) : Decidable (Transfer.InPool pool addr length) :=
  inferInstanceAs (Decidable (_ ∧ _))

/-- Calls of `hmp_write` on ranges in the pools, and stores of the caller between its calls.
Every request is accepted and succeeds. -/
def WritesOnly (pools : ℕ → HmpMempool) (s : Eager) : TransferEvent → Prop
  | .call op _ hmAddr length => op = .write ∧ 0 ≤ length ∧ length < 2 ^ 31 ∧
      ∀ r ∈ hmpGetHmNodeId s.real.node.config.nodeCnt hmAddr,
        Transfer.InPool (pools r.1) r.2.toNat length
  | .check o => o.posted = true
  | .complete _ status => status = .success
  | .poll _ => True
  | .store _ _ => s.real.app = .idle
  | _ => False

/-- The sources of the writes that the adapter has not executed are in `m` as they are now. -/
def Keeps (s : Transfer) (m : Mem) : Prop :=
  ∀ t < s.node.nextTrans, ∀ wr ∈ (s.node.qp t).sq, wr.opcode = .rdmaWrite →
    m.read wr.sge.addr wr.sge.length = s.node.mem.read wr.sge.addr wr.sge.length

/-- Neither a store nor a write to the own pool changes the source of a write that the adapter has
not executed. -/
def SourcesKept (s : Eager) : TransferEvent → Prop
  | .call _ localSrc hmAddr length =>
    ∀ r ∈ hmpGetHmNodeId s.real.node.config.nodeCnt hmAddr,
      r.1 = s.real.node.config.curnodeId →
      Keeps s.real (s.real.node.mem.write r.2.toNat (s.real.node.mem.read localSrc length.toNat))
  | .store addr bytes => Keeps s.real (s.real.node.mem.write addr bytes)
  | _ => True

def KeepsSources (pools : ℕ → HmpMempool) (s : Eager) (e : TransferEvent) : Prop :=
  WritesOnly pools s e ∧ SourcesKept s e

instance (s : Transfer) (m : Mem) : Decidable (Keeps s m) :=
  inferInstanceAs (Decidable (∀ t < s.node.nextTrans, ∀ wr ∈ (s.node.qp t).sq, _ → _))

instance (pools : ℕ → HmpMempool) (s : Eager) : (e : TransferEvent) → Decidable (WritesOnly pools s e)
  | .call _ _ _ _ => inferInstanceAs (Decidable (_ ∧ _ ∧ _ ∧ _))
  | .check o => inferInstanceAs (Decidable (o.posted = true))
  | .complete _ status => inferInstanceAs (Decidable (status = .success))
  | .poll _ => .isTrue trivial
  | .store _ _ => inferInstanceAs (Decidable (s.real.app = .idle))
  | .ret | .recv .. | .cm .. | .loopExit | .storeRemote .. => .isFalse id

instance (s : Eager) : (e : TransferEvent) → Decidable (SourcesKept s e)
  | .call _ _ hmAddr _ => inferInstanceAs (Decidable
      (∀ r ∈ hmpGetHmNodeId s.real.node.config.nodeCnt hmAddr, _ → _))
  | .store addr bytes => inferInstanceAs (Decidable (Keeps s.real (s.real.node.mem.write addr bytes)))
  | .check _ | .ret | .complete .. | .recv .. | .poll _ | .cm .. | .loopExit | .storeRemote .. =>
    .isTrue trivial

instance (pools : ℕ → HmpMempool) (s : Eager) (e : TransferEvent) : Decidable (KeepsSources pools s e) :=
  inferInstanceAs (Decidable (_ ∧ _))

end Eager

end HMP
