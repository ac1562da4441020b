import Hmp.Sanity.ProcRun
import Hmp.Spec.Release

/-! No run ends in an orderly release: the region of the pool is never deregistered. -/

namespace HMP

open ReleaseCall ProcRun

/-! ## Sequences of calls -/

theorem Ordered.append {ok : Proc → ReleaseCall → Prop} {p : Proc} {l l' : List ReleaseCall}
    (h : Ordered ok p (l ++ l')) : Ordered ok (l.foldl exec p) l' := by
  induction l generalizing p with
  | nil => exact h
  | cons c l ih => exact ih h.2

theorem exec_mrs (p : Proc) (c : ReleaseCall) : (c.exec p).world.mrs = p.world.mrs := by
  cases c with
  | ibvDeallocPd pd =>
    simp only [exec, Proc.setWorld_world, World.ibvDeallocPd]
    split_ifs <;> rfl
  | _ => rfl

/-- No call deregisters a region. -/
theorem foldl_exec_mrs (l : List ReleaseCall) (p : Proc) :
    (l.foldl exec p).world.mrs = p.world.mrs := by
  induction l generalizing p with
  | nil => rfl
  | cons c l ih => rw [List.foldl_cons, ih, exec_mrs]

namespace Equipped

variable {o : InitCalls} {d : HmpDevice} {pool : HmpMempool} {p : Proc}

/-- The region of the pool is there. -/
theorem region_live (h : Equipped o d pool p) : ∃ m, p.world.mrs.get m =
    some { pd := d.pd, addr := pool.baseAddr, length := pool.size } := by
  obtain ⟨m, -, hm⟩ := Option.bind_eq_some_iff.mp h.region
  exact ⟨m, hm⟩

/-- The first call is for the protection domain of the region. -/
theorem not_pdOrdered (h : Equipped o d pool p) : ¬ Ordered Proc.PdOk p (hmpNodeRelease p.node) := by
  obtain ⟨l, hl⟩ := List.head?_eq_some_iff.mp h.head
  obtain ⟨m, hm⟩ := h.region_live
  rw [hmpNodeRelease, hmpTransportRelease, hl]
  rintro ⟨hpd, -⟩
  exact hpd (.inl ⟨m, Heap.lt_next hm, by simp [hm]⟩)

/-- The block is freed under the region. -/
theorem not_bufferOrdered (h : Equipped o d pool p) :
    ¬ Ordered Proc.BufferOk p (hmpNodeRelease p.node) := by
  obtain ⟨m, hm⟩ := h.region_live
  rw [hmpNodeRelease, hmpMemDestroy, h.dramMempool]
  intro hok
  obtain ⟨-, ⟨hfree, -⟩, -⟩ := Ordered.append hok
  refine hfree ⟨m, { pd := d.pd, addr := pool.baseAddr, length := pool.size }, ?_,
    Nat.lt_add_of_pos_right h.size, Nat.lt_add_of_pos_right h.size⟩
  simp only [exec]
  rw [foldl_exec_mrs, hm]

end Equipped

/-- Whatever happens before, `hmp_node_release` deallocates a protection domain with a region in it
and frees the block that the region is registered on. -/
theorem release_out_of_order {o : InitCalls} {s : ProcRun}
    (h : (ProcRun.sys o).Reach Sys.Always s) :
    ¬ Ordered Proc.PdOk s.proc (hmpNodeRelease s.proc.node) ∧
      ¬ Ordered Proc.BufferOk s.proc (hmpNodeRelease s.proc.node) := by
  obtain ⟨d, pool, he⟩ := Equipped.reach h
  exact ⟨he.not_pdOrdered, he.not_bufferOrdered⟩

/-- Node 0 starts, and its connection to node 1 fails: the context stops, and the event thread
ends. -/
def sampleStop : List ProcEvent :=
  [.main {}, .main {}, .main {}, .main {}, .cm 0 (.addrResolved 1 0),
    .cm 0 (.routeResolved { connect := -1 }), .run .loopExit]

instance (s : ProcRun) : Decidable s.AtRelease := inferInstanceAs (Decidable (_ ∧ _ ∧ _))

theorem sampleStop_atRelease :
    ∃ s, (sys (sampleCalls 0 [1])).Reach Sys.Always s ∧ s.AtRelease := by
  obtain ⟨s, hr, hs⟩ := Sys.exists_run_of_replay (sys (sampleCalls 0 [1])) Sys.Always
    (first (sampleCalls 0 [1])) sampleStop (p := AtRelease) (by decide)
  exact ⟨s, ⟨_, first_begins (by decide), hr⟩, hs⟩

theorem sample_out_of_order : ∃ s : ProcRun,
    (sys (sampleCalls 0 [1])).Reach Sys.Always s ∧ s.AtRelease ∧
    ¬ Ordered Proc.PdOk s.proc (hmpNodeRelease s.proc.node) ∧
      ¬ Ordered Proc.BufferOk s.proc (hmpNodeRelease s.proc.node) := by
  obtain ⟨s, hr, hs⟩ := sampleStop_atRelease
  exact ⟨s, hr, hs, release_out_of_order hr⟩

/-- A run that reaches `hmp_node_release`. -/
theorem released_while_registered :
    ∃ s, (sys (sampleCalls 0 [1])).Reach Sys.Always s ∧ s.AtRelease ∧
      ¬ (Ordered Proc.PdOk s.proc (hmpNodeRelease s.proc.node) ∧
        Ordered Proc.BufferOk s.proc (hmpNodeRelease s.proc.node)) := by
  obtain ⟨s, hr, hs⟩ := sampleStop_atRelease
  obtain ⟨d, pool, he⟩ := Equipped.reach hr
  exact ⟨s, hr, hs, fun h => he.not_pdOrdered h.1⟩

end HMP
