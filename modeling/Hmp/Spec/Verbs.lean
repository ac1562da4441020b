import Hmp.Lib.Heap
import Hmp.Spec.Base
import Hmp.Spec.EventLoop

/-! What the libraries and the kernel hold for a process: completion channels, completion queues,
queue pairs, protection domains, memory regions, event channels and the epoll set, with the calls
that create and destroy them. A channel is named by its descriptor. A call on an object that others
still use fails with `EBUSY` and changes nothing. -/

namespace HMP

/-- What a descriptor refers to. -/
inductive FdKind where
  | compChannel | eventChannel
  deriving DecidableEq

/-- `channel`: the descriptor of the completion channel. -/
structure IbvCq where
  channel : ℕ
  deriving DecidableEq

/-- `verbs`: the device that the connection is on. `cq`: both queues complete there. -/
structure IbvQp where
  verbs : ℕ
  pd : ℕ
  cq : Option ℕ
  deriving DecidableEq

/-- A region of `length` bytes at `addr`, registered in `pd`. -/
structure RegisteredMr where
  pd : ℕ
  addr : ℕ
  length : ℕ
  deriving DecidableEq

/-- The two pointers of `struct hmp_cq` that its functions go through. -/
structure HmpCq where
  cq : Option ℕ := none
  compChannel : Option ℕ := none
  deriving DecidableEq

/-- `pds`: the device of each protection domain. `epoll_live`: closing a descriptor takes it out of
the epoll set. `cq_channel`: a completion channel stays as long as a completion queue uses it. -/
structure World where
  files : Heap FdKind := {}
  cqs : Heap IbvCq := {}
  qps : Heap IbvQp := {}
  hcqs : Heap HmpCq := {}
  pds : Heap ℕ := {}
  mrs : Heap RegisteredMr := {}
  epoll : EpollSet EventHandler := fun _ => none
  epoll_live : ∀ fd, files.get fd = none → epoll fd = none := by intros; rfl
  cq_channel : ∀ c cq, cqs.get c = some cq → files.get cq.channel = some .compChannel := by
    intros; contradiction

namespace World

/-- What there is when a process starts. -/
def empty : World := {}

/-! ## Descriptors -/

/-- The new descriptor is `w.files.next`. -/
def openFd (w : World) (k : FdKind) : World :=
  { w with
    files := w.files.alloc k
    epoll_live := fun fd hfd => w.epoll_live fd (by
      by_contra hne
      obtain ⟨k', hk⟩ := Option.ne_none_iff_exists'.mp hne
      rw [Heap.alloc_get_of_some k hk] at hfd
      cases hfd)
    cq_channel := fun c cq hc => Heap.alloc_get_of_some k (w.cq_channel c cq hc) }

/-- A completion queue has events on channel `fd`. -/
def ChannelUsed (w : World) (fd : ℕ) : Prop :=
  ∃ c < w.cqs.next, (w.cqs.get c).any fun cq => cq.channel = fd

instance (w : World) (fd : ℕ) : Decidable (w.ChannelUsed fd) :=
  inferInstanceAs (Decidable (∃ c < _, _))

theorem ChannelUsed.of_get {w : World} {c : ℕ} {cq : IbvCq} (hc : w.cqs.get c = some cq) :
    w.ChannelUsed cq.channel :=
  ⟨c, Heap.lt_next hc, by simp [hc]⟩

/-- `ibv_destroy_comp_channel` or `rdma_destroy_event_channel`. -/
def closeFd (w : World) (fd : ℕ) : World :=
  if h : w.ChannelUsed fd then w
  else
    { w with
      files := w.files.free fd
      epoll := Function.update w.epoll fd none
      epoll_live := fun fd' hfd => by
        by_cases he : fd' = fd
        · rw [he, Function.update_self]
        · rw [Function.update_of_ne he]
          rw [Heap.free_get_of_ne _ he] at hfd
          exact w.epoll_live fd' hfd
      cq_channel := fun c cq hc => by
        have hne : cq.channel ≠ fd := by
          rintro rfl
          exact h (.of_get hc)
        rw [Heap.free_get_of_ne _ hne]
        exact w.cq_channel c cq hc }

/-- `hmp_context_add_event_fd` on the descriptor of a channel. -/
def addEventFd (w : World) (fd data : ℕ) (eventHandler : EventHandler) (ok : Bool) : World × ℤ :=
  if h : (w.files.get fd).isSome ∧ (hmpContextAddEventFd w.epoll fd data eventHandler ok).2 = 0 then
    ({ w with
       epoll := (hmpContextAddEventFd w.epoll fd data eventHandler ok).1
       epoll_live := fun fd' hfd => by
         have hne : fd' ≠ fd := fun he => by simp [← he, hfd] at h
         rw [hmpContextAddEventFd_of_ne _ _ _ _ hne, w.epoll_live fd' hfd] }, 0)
  else (w, -1)

/-- `hmp_context_del_event_fd`. -/
def delEventFd (w : World) (fd : ℕ) : World :=
  { w with
    epoll := (hmpContextDelEventFd w.epoll fd).1
    epoll_live := fun fd' hfd => hmpContextDelEventFd_of_none fd (w.epoll_live fd' hfd) }

/-! ## Queues -/

/-- The new queue is `w.cqs.next`. -/
def ibvCreateCq (w : World) (fd : ℕ) : World :=
  if h : w.files.get fd = some .compChannel then
    { w with
      cqs := w.cqs.alloc { channel := fd }
      cq_channel := fun c cq hc => by
        rcases Heap.alloc_get_some hc with ⟨-, rfl⟩ | hc
        · exact h
        · exact w.cq_channel c cq hc }
  else w

def CqUsed (w : World) (c : ℕ) : Prop := ∃ q < w.qps.next, (w.qps.get q).any fun qp => qp.cq = some c

instance (w : World) (c : ℕ) : Decidable (w.CqUsed c) := inferInstanceAs (Decidable (∃ q < _, _))

def ibvDestroyCq (w : World) (c : ℕ) : World :=
  if w.CqUsed c then w
  else
    { w with
      cqs := w.cqs.free c
      cq_channel := fun c' cq hc => w.cq_channel c' cq (Heap.free_get_some hc).2 }

/-- The new queue pair is `w.qps.next`. -/
def createQp (w : World) (qp : IbvQp) : World := { w with qps := w.qps.alloc qp }

def destroyQp (w : World) (q : ℕ) : World := { w with qps := w.qps.free q }

def callocHcq (w : World) : World := { w with hcqs := w.hcqs.alloc {} }

def modifyHcq (w : World) (h : ℕ) (f : HmpCq → HmpCq) : World :=
  { w with hcqs := w.hcqs.modify h f }

def freeHcq (w : World) (h : ℕ) : World := { w with hcqs := w.hcqs.free h }

/-! ## Protection domains and regions -/

def ibvAllocPd (w : World) (verbs : ℕ) : World := { w with pds := w.pds.alloc verbs }

/-- A region or a queue pair has been created in `pd`. -/
def PdUsed (w : World) (pd : ℕ) : Prop :=
  (∃ m < w.mrs.next, (w.mrs.get m).any fun mr => mr.pd = pd) ∨
    ∃ q < w.qps.next, (w.qps.get q).any fun qp => qp.pd = pd

instance (w : World) (pd : ℕ) : Decidable (w.PdUsed pd) :=
  inferInstanceAs (Decidable ((∃ m < _, _) ∨ ∃ q < _, _))

def ibvDeallocPd (w : World) (pd : ℕ) : World :=
  if w.PdUsed pd then w else { w with pds := w.pds.free pd }

/-- The new region is `w.mrs.next`. -/
def ibvRegMr (w : World) (mr : RegisteredMr) : World := { w with mrs := w.mrs.alloc mr }

end World

end HMP
