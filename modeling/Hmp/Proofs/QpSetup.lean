import Hmp.Sanity.Resources
import Hmp.Spec.QpSetup

/-! `hmp_qp_create` is undone when it fails before the completion queue is there. From then on the
queue keeps its channel alive: neither the error paths nor `hmp_qp_release` destroy both. -/

namespace HMP

namespace World

theorem Same.sameLive {w w' : World} (h : Same w w') : w.SameLive w' :=
  ⟨h.files, h.cqs, h.qps, h.epoll⟩

theorem Same.dangling {w w' : World} (h : Same w w') (fd : ℕ) : w'.Dangling fd → w.Dangling fd := by
  rintro ⟨d, hd, hh, hf⟩
  exact ⟨d, by rwa [← h.epoll], hh, by rwa [← h.hcqs]⟩

/-- A completion queue or a descriptor more is not the same. -/
theorem not_sameLive_of_cq {w w' : World} {x : IbvCq} (h : w'.cqs.get w.cqs.next = some x) :
    ¬ w.SameLive w' := by
  intro hs
  rw [hs.cqs, Heap.get_next] at h
  cases h

theorem not_sameLive_of_file {w w' : World} {k : FdKind} (h : w'.files.get w.files.next = some k) :
    ¬ w.SameLive w' := by
  intro hs
  rw [hs.files, Heap.get_next] at h
  cases h

theorem withCq_get (w : World) : w.withCq.cqs.get w.cqs.next = some { channel := w.files.next } := by
  rw [withCq_cqs, Heap.alloc_get_self]

end World

namespace Proc

variable (p : Proc) (t : ℕ) (cm : CmId) (d : HmpDevice)

/-- No call of `hmp_qp_release` closes a descriptor. -/
theorem hmpQpRelease_files : (p.hmpQpRelease t).world.files = p.world.files := by
  unfold hmpQpRelease
  split
  · rfl
  · cases hh : (p.ptrs t).hcq with
    | none => rfl
    | some h => exact World.releaseHcq_files ..

/-! ## All or nothing -/

variable {p t cm d}

theorem allOrNothing_of_early {o : QpCalls} (h : o.early = true) : p.AllOrNothing t cm d o := by
  have hsame := (p.world.hmpCqGet_early h).2
  refine ⟨fun _ => ?_, fun h0 => ?_⟩
  · rw [hmpQpCreate_early p t cm d h]
    exact ⟨hsame.sameLive, hsame.dangling⟩
  · rw [hmpQpCreate_early p t cm d h] at h0
    cases h0

theorem early_of_allOrNothing {o : QpCalls} (ha : p.AllOrNothing t cm d o) : o.early = true := by
  by_contra hlate
  have h : o.early = false := by simpa using hlate
  by_cases hn : o.reqNotify = 0
  · by_cases hq : o.createQp = 0
    · -- the channel is open after the release
      have hs := ha.undone (by rw [hmpQpCreate_ok p t cm d h hn hq])
      refine World.not_sameLive_of_file (k := .compChannel) ?_ hs
      rw [hmpQpRelease_files, hmpQpCreate_ok p t cm d h hn hq]
      change p.world.withCq.files.get p.world.files.next = _
      rw [World.withCq_files, Heap.alloc_get_self]
    · -- only the `struct hmp_cq` has been freed
      have hs := (ha.nothing (by rw [hmpQpCreate_rdma p t cm d h hn hq]; exact hq)).1
      refine World.not_sameLive_of_cq (x := { channel := p.world.files.next }) ?_ hs
      rw [hmpQpCreate_rdma p t cm d h hn hq]
      exact p.world.withCq_get
  · -- the queue still uses the channel that is to be destroyed
    have hs := (ha.nothing (by rw [hmpQpCreate_notify p t cm d h hn]; norm_num)).1
    refine World.not_sameLive_of_cq (x := { channel := p.world.files.next }) ?_ hs
    rw [hmpQpCreate_notify p t cm d h hn]
    change (World.cleanEventFd ..).cqs.get _ = _
    rw [World.cleanEventFd_cqs]
    exact p.world.withCq_get

/-- `hmp_qp_create` is all or nothing exactly when a call before `ibv_req_notify_cq` fails. -/
theorem allOrNothing_iff (p : Proc) (t : ℕ) (cm : CmId) (d : HmpDevice) (o : QpCalls) :
    p.AllOrNothing t cm d o ↔ o.early = true :=
  ⟨early_of_allOrNothing, allOrNothing_of_early⟩

/-- A process of a node with one device, before its first queue pair. -/
def sampleProc : Proc :=
  { real := { node := { config := { nodeInfos := fun _ => ⟨"192.168.31.182", 18515, {}⟩
                                    curnodeId := 0, nodeCnt := 2 }
                        devList := [⟨0, 0, {}⟩] }
              remote := fun _ _ => 0, far := id } }

/-- `rdma_create_qp` fails, and the epoll set holds a registration of a freed `struct hmp_cq`. -/
theorem failed_qp_leaves_registration :
    ¬ sampleProc.AllOrNothing 0 ⟨7, true⟩ ⟨0, 0, {}⟩ { createQp := -1 } ∧
      (sampleProc.hmpQpCreate 0 ⟨7, true⟩ ⟨0, 0, {}⟩ { createQp := -1 }).1.world.Dangling 0 := by
  constructor
  · exact fun h => absurd (early_of_allOrNothing h) (by decide)
  · exact ⟨{ fd := 0, data := 0, eventHandler := .hmpCqCompChannelHandler }, by decide, rfl,
      by decide⟩

end Proc

end HMP
