import Hmp.Spec.Resources

/-! What a failed `hmp_qp_create` or connection request should leave: nothing. -/

namespace HMP

namespace World

/-- The same completion and event channels, queues, queue pairs and registrations. -/
structure SameLive (w w' : World) : Prop where
  files : w'.files.get = w.files.get
  cqs : w'.cqs.get = w.cqs.get
  qps : w'.qps.get = w.qps.get
  epoll : w'.epoll = w.epoll

/-- The registration of `fd` refers to a `struct hmp_cq` that has been freed. -/
def Dangling (w : World) (fd : ℕ) : Prop :=
  ∃ d ∈ w.epoll fd, d.eventHandler = .hmpCqCompChannelHandler ∧ w.hcqs.get d.data = none

end World

/-- A call of `hmp_qp_create` that fails leaves nothing, and `hmp_qp_release` undoes one that does
not. -/
structure Proc.AllOrNothing (p : Proc) (t : ℕ) (cm : CmId) (d : HmpDevice) (o : QpCalls) : Prop where
  nothing : (p.hmpQpCreate t cm d o).2 ≠ 0 → p.world.SameLive (p.hmpQpCreate t cm d o).1.world ∧
    ∀ fd, (p.hmpQpCreate t cm d o).1.world.Dangling fd → p.world.Dangling fd
  undone : (p.hmpQpCreate t cm d o).2 = 0 →
    p.world.SameLive ((p.hmpQpCreate t cm d o).1.hmpQpRelease t).world

/-- The table, the descriptors, queues, queue pairs and registrations are as before, and the id
of the request does not refer to a transport that the handler has created. -/
structure Proc.LeavesNothing (p p' : Proc) (cm : CmId) : Prop where
  table : p'.node.connectTrans = p.node.connectTrans
  live : p.world.SameLive p'.world
  context : ∀ t, p.node.nextTrans ≤ t → t < p'.node.nextTrans → (p'.cm cm).context ≠ some t

end HMP
