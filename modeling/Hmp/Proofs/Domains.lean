import Hmp.Sanity.ProcRun

/-! A queue pair is in the protection domain of the pool exactly if its device is the first of the
device list, which is the last that startup has put there. -/

namespace HMP

/-! ## The device list -/

theorem devices_verbs (k : ℕ) (l : List IbvContext) :
    (devices k l).map (·.verbs) = l.map (·.verbs) := by
  induction l generalizing k with
  | nil => rfl
  | cons c l ih => simp [ih]

theorem devices_pd (k : ℕ) (l : List IbvContext) :
    (devices k l).map (·.pd) = List.range' k l.length := by
  induction l generalizing k with
  | nil => rfl
  | cons c l ih => simp [ih, List.range'_succ]

/-- Every device has a protection domain of its own. -/
theorem devices_pd_inj {k : ℕ} {l : List IbvContext} {d d' : HmpDevice} (hd : d ∈ devices k l)
    (hd' : d' ∈ devices k l) (h : d.pd = d'.pd) : d = d' := by
  have hnodup : ((devices k l).map (·.pd)).Nodup := by
    rw [devices_pd]
    exact List.nodup_range'
  exact List.inj_on_of_nodup_map hnodup hd hd' h

theorem devices_getLast {k : ℕ} {l : List IbvContext} {d : HmpDevice}
    (h : (devices k l).getLast? = some d) : l.getLast?.map (·.verbs) = some d.verbs := by
  rw [← List.getLast?_map, ← devices_verbs k, List.getLast?_map, h]
  rfl

namespace Equipped

variable {o : InitCalls} {d : HmpDevice} {pool : HmpMempool} {p : Proc}

theorem sharesPd_iff_pd (h : Equipped o d pool p) (q : IbvQp) : p.SharesPd q ↔ q.pd = d.pd := by
  simp [Proc.SharesPd, h.region, eq_comm]

theorem last_verbs (h : Equipped o d pool p) : o.usable.getLast?.map (·.verbs) = some d.verbs := by
  refine devices_getLast (k := 0) ?_
  rw [← List.head?_reverse, ← h.devList, h.head]

/-- The device of the pool is found first. -/
theorem finds_head (h : Equipped o d pool p) : p.node.Finds d := by
  obtain ⟨l, hl⟩ := List.head?_eq_some_iff.mp h.head
  simp [Node.Finds, hmpDeviceLookup, hl]

theorem pd_iff_verbs (h : Equipped o d pool p) {d' : HmpDevice} (hf : p.node.Finds d') :
    d'.pd = d.pd ↔ d'.verbs = d.verbs := by
  constructor
  · intro hpd
    have hmem {x : HmpDevice} (hx : p.node.Finds x) : x ∈ devices 0 o.usable := by
      rw [← List.mem_reverse, ← h.devList]
      exact List.mem_of_find?_eq_some hx
    rw [devices_pd_inj (hmem hf) (hmem h.finds_head) hpd]
  · intro hv
    have hd : some d' = some d := by rw [← hf, ← h.finds_head, hv]
    rw [Option.some.inj hd]

end Equipped

/-- In every run, the pool and the queue pair share their protection domain exactly if the queue
pair is on the last usable device of `rdma_get_devices`. -/
theorem sharesPd_iff {o : InitCalls} {s : ProcRun} (h : (ProcRun.sys o).Reach Sys.Always s)
    {i : ℕ} {q : IbvQp} (hq : s.proc.world.qps.get i = some q) :
    s.proc.SharesPd q ↔ o.usable.getLast?.map (·.verbs) = some q.verbs := by
  obtain ⟨d, pool, he⟩ := Equipped.reach h
  obtain ⟨d', hf, hverbs, hpd⟩ := he.qps i q hq
  rw [he.sharesPd_iff_pd, hverbs, hpd, he.pd_iff_verbs hf, he.last_verbs, Option.some.injEq]
  exact eq_comm

open ProcRun

/-- Node 0 connects to node 1 on the device with context `verbs`. -/
def sampleConnect (verbs : ℕ) : List ProcEvent :=
  [.main {}, .main {}, .cm 0 (.connectRequest ⟨7, false⟩ "192.168.31.182" { verbs := verbs })]

/-- With one device the keys of the pool are valid. -/
theorem sharesPd_one_device :
    ∃ (s : ProcRun) (q : IbvQp), (sys (sampleCalls 1 [1])).Reach Sys.Always s ∧
      s.proc.world.qps.get 0 = some q ∧ s.proc.SharesPd q := by
  obtain ⟨s, hr, hq⟩ := Sys.exists_run_of_replay (sys (sampleCalls 1 [1])) Sys.Always
    (first (sampleCalls 1 [1])) (sampleConnect 1)
    (p := fun s => s.proc.world.qps.get 0 = some ⟨1, 0, some 0⟩) (by decide)
  have hreach : (sys (sampleCalls 1 [1])).Reach Sys.Always s :=
    ⟨_, first_begins (by decide), hr⟩
  exact ⟨s, _, hreach, hq, (sharesPd_iff hreach hq).mpr (by decide)⟩

/-- Two devices, and the connection is on the first of `rdma_get_devices`: the pool is registered on
the other one. -/
theorem queue_pair_elsewhere : ∃ s, (sys (sampleCalls 1 [1, 2])).Reach Sys.Always s ∧
    ∃ i q, s.proc.world.qps.get i = some q ∧ ¬ s.proc.SharesPd q := by
  obtain ⟨s, hr, hq, hmr⟩ := Sys.exists_run_of_replay (sys (sampleCalls 1 [1, 2])) Sys.Always
    (first (sampleCalls 1 [1, 2])) (sampleConnect 1)
    (p := fun s => s.proc.world.qps.get 0 = some ⟨1, 0, some 0⟩ ∧
      ∀ mr ∈ s.proc.mr.bind s.proc.world.mrs.get, mr.pd ≠ 0) (by decide)
  refine ⟨s, ⟨_, first_begins (by decide), hr⟩, 0, _, hq, ?_⟩
  rintro ⟨mr, hmem, hpd⟩
  exact hmr mr hmem hpd

end HMP
