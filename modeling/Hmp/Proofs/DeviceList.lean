import Hmp.Proofs.Domains

/-! `hmp_device_init_handle` lists a device whose `ibv_query_device` has failed, since errors of verbs
are positive. -/

namespace HMP

namespace Proc

/-! ## The loop -/

/-- The counter goes down with every entry that does not become a device. -/
theorem deviceInit_numDevices (l : List (Option IbvContext)) (p : Proc) :
    (l.foldl deviceInitEntry p).numDevices + l.length =
      p.numDevices + ((l.filterMap id).filter (·.usable)).length := by
  induction l generalizing p with
  | nil => rfl
  | cons e l ih =>
    have hl := ih (p.deviceInitEntry e)
    rw [List.foldl_cons, List.length_cons]
    rcases usable_or_skipped e with ⟨c, rfl, hc⟩ | hskip
    · have hcount : (p.deviceInitEntry (some c)).numDevices = p.numDevices := by
        rw [deviceInitEntry_usable p hc]
        rfl
      have hrest : ((some c :: l).filterMap id).filter (·.usable) =
          c :: (l.filterMap id).filter (·.usable) := by simp [hc]
      rw [hcount] at hl
      rw [hrest, List.length_cons]
      omega
    · have hcount : (p.deviceInitEntry e).numDevices = p.numDevices - 1 := by
        rw [deviceInitEntry_skip p hskip]
        rfl
      have hrest : ((e :: l).filterMap id).filter (·.usable) = (l.filterMap id).filter (·.usable) := by
        cases e with
        | none => rfl
        | some c => simp [hskip c rfl]
      rw [hcount] at hl
      rw [hrest]
      omega

/-- Every listed device has a protection domain on its context. -/
theorem deviceInit_pds (l : List (Option IbvContext)) {p : Proc}
    (h : ∀ d ∈ p.node.devList, p.world.pds.get d.pd = some d.verbs) :
    ∀ d ∈ (l.foldl deviceInitEntry p).node.devList,
      (l.foldl deviceInitEntry p).world.pds.get d.pd = some d.verbs := by
  induction l generalizing p with
  | nil => exact h
  | cons e l ih =>
    rw [List.foldl_cons]
    apply ih
    rcases usable_or_skipped e with ⟨c, rfl, hc⟩ | hskip
    · rw [deviceInitEntry_usable p hc]
      intro d hd
      rcases List.mem_cons.mp hd with rfl | hd
      · exact Heap.alloc_get_self ..
      · exact Heap.alloc_get_of_some _ (h d hd)
    · rw [deviceInitEntry_skip p hskip]
      exact h

end Proc

theorem devices_recorded (k : ℕ) (l : List IbvContext) :
    (devices k l).map (fun d => (d.verbs, d.deviceAttr)) = l.map fun c => (c.verbs, c.attr) := by
  induction l generalizing k with
  | nil => rfl
  | cons c l ih => simp [ih]

theorem length_devices (k : ℕ) (l : List IbvContext) : (devices k l).length = l.length := by
  simp [devices]

/-- The contexts that are taken. -/
def taken (l : List (Option IbvContext)) : List IbvContext := (l.filterMap id).filter (·.usable)

section Handle

variable (p : Proc) (l : List (Option IbvContext))

theorem deviceInitHandle_devList :
    (p.hmpDeviceInitHandle (some l)).node.devList =
      (devices p.world.pds.next (taken l)).reverse := by
  let p₀ : Proc := { p.setNode { p.node with devList := [] } with numDevices := l.length }
  have hadd : (l.foldl Proc.deviceInitEntry p₀).node.devList =
      (devices p.world.pds.next (taken l)).reverse ++ [] := (Proc.deviceInit_foldl l p₀).devList
  rw [List.append_nil] at hadd
  exact hadd

theorem deviceInitHandle_pds :
    ∀ d ∈ (p.hmpDeviceInitHandle (some l)).node.devList,
      (p.hmpDeviceInitHandle (some l)).world.pds.get d.pd = some d.verbs :=
  Proc.deviceInit_pds l fun _ hd => absurd hd List.not_mem_nil

/-- The counter is right for any results of the calls. -/
theorem deviceInitHandle_numDevices :
    (p.hmpDeviceInitHandle (some l)).numDevices =
      (p.hmpDeviceInitHandle (some l)).node.devList.length := by
  have hcount : (p.hmpDeviceInitHandle (some l)).numDevices + l.length =
      l.length + (taken l).length :=
    Proc.deviceInit_numDevices l
      { p.setNode { p.node with devList := [] } with numDevices := l.length }
  rw [deviceInitHandle_devList, List.length_reverse, length_devices]
  omega

theorem deviceInitHandle_recorded :
    ((p.hmpDeviceInitHandle (some l)).node.devList.map fun d => (d.verbs, d.deviceAttr)).Perm
      ((taken l).map fun c => (c.verbs, c.attr)) := by
  rw [deviceInitHandle_devList, List.map_reverse, devices_recorded]
  exact List.reverse_perm _

theorem deviceInitHandle_distinct :
    ((p.hmpDeviceInitHandle (some l)).node.devList.map (·.pd)).Nodup := by
  rw [deviceInitHandle_devList, List.map_reverse, devices_pd, List.nodup_reverse]
  exact List.nodup_range'

end Handle

/-! ## Usable devices -/

/-- `hmp_device_init` takes the result of `ibv_query_device` for an error only if it is negative. -/
theorem usable_of_succeeds {c : IbvContext} (h : c.succeeds = true) : c.usable = true := by
  simp only [IbvContext.succeeds, IbvContext.usable, Bool.and_eq_true, decide_eq_true_eq] at h ⊢
  simp [h]

theorem mem_contexts {l : List (Option IbvContext)} {c : IbvContext} :
    c ∈ l.filterMap id ↔ some c ∈ l := by
  simp

/-- As many contexts are taken as should be only if they are the same. -/
theorem filter_usable_eq {l : List IbvContext}
    (h : (l.filter (·.usable)).length = (l.filter (·.succeeds)).length) :
    ∀ c ∈ l, c.usable = true → c.succeeds = true := by
  have hsub : (l.filter (·.succeeds)).Sublist (l.filter (·.usable)) :=
    List.monotone_filter_right l fun _ => usable_of_succeeds
  have heq := hsub.eq_of_length h.symm
  intro c hc hu
  have hmem : c ∈ l.filter (·.succeeds) := by
    rw [heq]
    exact List.mem_filter.mpr ⟨hc, hu⟩
  exact (List.mem_filter.mp hmem).2

/-- The device list is what it should be exactly if no `ibv_query_device` fails on a context that
gets a protection domain. -/
theorem lists_devices_iff (p : Proc) {l : List (Option IbvContext)}
    (hquery : ∀ c, some c ∈ l → 0 ≤ c.query) :
    (p.hmpDeviceInitHandle (some l)).ListsDevices l ↔
      ∀ c, some c ∈ l → c.name ≠ "siw_lo" → c.calloc = true → c.allocPd = true → c.query = 0 := by
  constructor
  · intro h c hc hname hcalloc hpd
    have hlen : (taken l).length = ((l.filterMap id).filter (·.succeeds)).length := by
      have := ((deviceInitHandle_recorded p l).symm.trans h.devices).length_eq
      simpa only [List.length_map] using this
    have hu : c.usable = true := by
      simp [IbvContext.usable, hname, hcalloc, hpd, hquery c hc]
    have hs := filter_usable_eq hlen c (mem_contexts.mpr hc) hu
    simp only [IbvContext.succeeds, Bool.and_eq_true, decide_eq_true_eq] at hs
    exact hs.1.2
  · intro h
    have heq : taken l = (l.filterMap id).filter (·.succeeds) := by
      refine List.filter_congr fun c hc => ?_
      rw [Bool.eq_iff_iff]
      refine ⟨fun hu => ?_, usable_of_succeeds⟩
      simp only [IbvContext.usable, Bool.and_eq_true, decide_eq_true_eq] at hu
      have hq := h c (mem_contexts.mp hc) hu.1.1.1 hu.1.1.2 hu.2
      simp [IbvContext.succeeds, hu, hq]
    exact ⟨heq ▸ deviceInitHandle_recorded p l, deviceInitHandle_pds p l,
      deviceInitHandle_distinct p l, deviceInitHandle_numDevices p l⟩

/-- Two devices can be used, one entry is `NULL`, one is the loopback device of siw, and one has no
protection domain. -/
def sampleContexts : List (Option IbvContext) :=
  [some { verbs := 1, name := "mlx5_0", attr := { maxCqe := 4096, maxSge := 30 } }, none,
    some { verbs := 2, name := "siw_lo" }, some { verbs := 3, name := "mlx5_1", allocPd := false },
    some { verbs := 4, name := "mlx5_2", attr := { maxCqe := 1024, maxSge := 16 } }]

theorem lists_devices_sample :
    (Init.start.proc.hmpDeviceInitHandle (some sampleContexts)).ListsDevices sampleContexts := by
  refine (lists_devices_iff Init.start.proc ?_).mpr ?_ <;> simp [sampleContexts]

/-- `ibv_query_device` has failed with `EIO`, and the device is listed. -/
theorem lists_failed_query :
    ¬ (Init.start.proc.hmpDeviceInitHandle
        (some [some { verbs := 1, name := "mlx5_0", query := 5 }])).ListsDevices
      [some { verbs := 1, name := "mlx5_0", query := 5 }] := by
  intro h
  have hlen := h.devices.length_eq
  revert hlen
  decide

end HMP
