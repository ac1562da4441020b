import Hmp.Proofs.Malloc
import Hmp.Sanity.Verbs
import Hmp.Spec.NodeInit

/-! The device list that `hmp_device_init_handle` builds, and where `hmp_node_init` stands when it
creates the pool. -/

namespace HMP

/-- The devices of `l`, when `k` is the next protection domain. -/
def devices (k : ℕ) (l : List IbvContext) : List HmpDevice :=
  (l.zipIdx k).map fun x => { verbs := x.1.verbs, pd := x.2, deviceAttr := x.1.attr }

@[simp] theorem devices_nil (k : ℕ) : devices k [] = [] := rfl

@[simp] theorem devices_cons (k : ℕ) (c : IbvContext) (l : List IbvContext) :
    devices k (c :: l) =
      { verbs := c.verbs, pd := k, deviceAttr := c.attr } :: devices (k + 1) l := by
  simp [devices, List.zipIdx_cons]

namespace Proc

/-! ## The device list -/

theorem hmpDeviceInit_usable (p : Proc) {c : IbvContext} (h : c.usable = true) :
    p.hmpDeviceInit c =
      (p.setWorld (p.world.ibvAllocPd c.verbs),
        some { verbs := c.verbs, pd := p.world.pds.next, deviceAttr := c.attr }) := by
  simp only [IbvContext.usable, Bool.and_eq_true, Bool.not_eq_true', decide_eq_false_iff_not] at h
  obtain ⟨⟨⟨-, hcalloc⟩, hquery⟩, hpd⟩ := h
  rw [hmpDeviceInit, if_pos hcalloc, if_neg hquery, if_pos hpd]

theorem usable_or_skipped (e : Option IbvContext) :
    (∃ c, e = some c ∧ c.usable = true) ∨ ∀ c ∈ e, c.usable = false := by
  cases e with
  | none => exact .inr fun _ h => by cases h
  | some c =>
    by_cases hc : c.usable = true
    · exact .inl ⟨c, rfl, hc⟩
    · refine .inr fun d hd => ?_
      obtain rfl := Option.some.inj hd
      simpa using hc

/-- An entry that is `NULL` or cannot be used. -/
theorem deviceInitEntry_skip (p : Proc) {e : Option IbvContext} (h : ∀ c ∈ e, c.usable = false) :
    p.deviceInitEntry e = p.skipDevice := by
  cases e with
  | none => rfl
  | some c =>
    have hc := h c rfl
    by_cases hname : c.name = "siw_lo"
    · rw [deviceInitEntry, if_pos hname]
    · have hinit : p.hmpDeviceInit c = (p, none) := by
        unfold hmpDeviceInit
        split_ifs with hcalloc hquery hpd
        · rfl
        · simp [IbvContext.usable, hname, hcalloc, hquery, hpd] at hc
        · rfl
        · rfl
      rw [deviceInitEntry, if_neg hname, hinit]

theorem deviceInitEntry_usable (p : Proc) {c : IbvContext} (h : c.usable = true) :
    p.deviceInitEntry (some c) = (p.setWorld (p.world.ibvAllocPd c.verbs)).setNode
      { p.node with
        devList := { verbs := c.verbs, pd := p.world.pds.next, deviceAttr := c.attr } ::
          p.node.devList } := by
  have hname : c.name ≠ "siw_lo" := by
    simp only [IbvContext.usable, Bool.and_eq_true, decide_eq_true_eq] at h
    exact h.1.1.1
  rw [deviceInitEntry, if_neg hname, hmpDeviceInit_usable p h]
  rfl

/-- The contexts `l` have become devices, and nothing else has changed. -/
structure Added (l : List IbvContext) (p p' : Proc) : Prop where
  devList : p'.node.devList = (devices p.world.pds.next l).reverse ++ p.node.devList
  next : p'.world.pds.next = p.world.pds.next + l.length
  rest : p' = { (p.setNode { p.node with devList := p'.node.devList }).setWorld
    { p.world with pds := p'.world.pds } with numDevices := p'.numDevices }

theorem Added.skip (p : Proc) : Added [] p p.skipDevice := ⟨rfl, rfl, rfl⟩

theorem Added.entry (p : Proc) (c : IbvContext) : Added [c] p
    ((p.setWorld (p.world.ibvAllocPd c.verbs)).setNode
      { p.node with
        devList := { verbs := c.verbs, pd := p.world.pds.next, deviceAttr := c.attr } ::
          p.node.devList }) :=
  ⟨rfl, rfl, rfl⟩

theorem devices_append (k : ℕ) (l l' : List IbvContext) :
    devices k (l ++ l') = devices k l ++ devices (k + l.length) l' := by
  induction l generalizing k with
  | nil => rfl
  | cons c l ih => simp [ih, Nat.add_assoc, Nat.add_comm 1]

theorem Added.trans {l l' : List IbvContext} {p p' p'' : Proc} (h : Added l p p')
    (h' : Added l' p' p'') : Added (l ++ l') p p'' where
  devList := by
    rw [h'.devList, h.devList, h.next, devices_append, List.reverse_append, List.append_assoc]
  next := by rw [h'.next, h.next, List.length_append, Nat.add_assoc]
  rest := by
    rw [h'.rest, h.rest]
    rfl

theorem deviceInit_foldl (l : List (Option IbvContext)) (p : Proc) :
    Added ((l.filterMap id).filter (·.usable)) p (l.foldl deviceInitEntry p) := by
  induction l generalizing p with
  | nil => exact ⟨rfl, rfl, rfl⟩
  | cons e l ih =>
    rw [List.foldl_cons]
    rcases usable_or_skipped e with ⟨c, rfl, hc⟩ | hskip
    · rw [deviceInitEntry_usable p hc]
      have := (Added.entry p c).trans (ih _)
      simpa [hc] using this
    · rw [deviceInitEntry_skip p hskip]
      have := (Added.skip p).trans (ih _)
      cases e with
      | none => simpa using this
      | some c => simpa [hskip c rfl] using this

/-- The list is in the reverse order of `rdma_get_devices`. -/
theorem hmpDeviceInitHandle_added (p : Proc) (o : InitCalls) :
    Added o.usable (p.setNode { p.node with devList := [] }) (p.hmpDeviceInitHandle o.ctxList) := by
  unfold hmpDeviceInitHandle InitCalls.usable
  cases o.ctxList with
  | none => exact ⟨rfl, rfl, rfl⟩
  | some l =>
    have := deviceInit_foldl l { p.setNode { p.node with devList := [] } with numDevices := l.length }
    exact ⟨this.devList, this.next, this.rest⟩

end Proc

namespace Init

/-! ## Steps -/

theorem andThen_of_running {s : Init} (f : Init → Init) (h : s.phase = .running) :
    s.andThen f = f s := if_pos h

theorem andThen_of_not_running {s : Init} (f : Init → Init) (h : s.phase ≠ .running) :
    s.andThen f = s := if_neg h

/-- A step that leaves the process running has been taken. -/
theorem andThen_running {s : Init} {f : Init → Init} (h : (s.andThen f).phase = .running) :
    s.phase = .running ∧ s.andThen f = f s ∧ (f s).phase = .running := by
  unfold andThen at h ⊢
  split_ifs at h ⊢ with hs
  · exact ⟨hs, rfl, h⟩
  · exact absurd h hs

theorem andThen_phase {s : Init} {f : Init → Init} (hs : s.phase = .running)
    (hf : ∀ s, s.phase = .running → (f s).phase = .running) : (s.andThen f).phase = .running := by
  rw [andThen_of_running f hs]
  exact hf s hs

@[simp] theorem use_phase (s : Init) (r : Needed) : (s.use r).phase = s.phase := rfl
@[simp] theorem use_proc (s : Init) (r : Needed) : (s.use r).proc = s.proc := rfl
@[simp] theorem use_has (s : Init) (r r' : Needed) : (s.use r).has r' = s.has r' := by cases r' <;> rfl
@[simp] theorem setProc_phase (s : Init) (p : Proc) : (s.setProc p).phase = s.phase := rfl
@[simp] theorem setProc_proc (s : Init) (p : Proc) : (s.setProc p).proc = p := rfl
@[simp] theorem exit_phase (s : Init) : s.exit.phase = .exited := rfl

variable {o : InitCalls} {s : Init}

theorem configInit_running (h : (configInit o start).phase = .running) :
    (o.config = .failed ∧ configInit o start = start) ∨
      ∃ config, o.config = .read config ∧ configInit o start =
        { start.setProc (start.proc.setNode { config := config }) with configRead := true } := by
  unfold configInit at h ⊢
  cases hc : o.config with
  | failed => exact .inl ⟨rfl, rfl⟩
  | exits =>
    rw [hc] at h
    cases h
  | read config => exact .inr ⟨config, rfl, rfl⟩

theorem hashInit_running (h : (hashInit o s).phase = .running) :
    (0 < s.proc.node.config.nodeCnt → o.hash = true) ∧ hashInit o s = s.use .config := by
  unfold hashInit at h ⊢
  dsimp only at h ⊢
  split_ifs at h ⊢ with hc
  · cases h
  · exact ⟨fun hpos => by_contra fun hh => hc ⟨hpos, hh⟩, rfl⟩

theorem contextCreate_running (h : (contextCreate o s).phase = .running) :
    o.context = true ∧ contextCreate o s = { s with context := true } := by
  unfold contextCreate at h ⊢
  split_ifs at h ⊢ with hc
  · exact ⟨hc, rfl⟩
  · cases h

/-- `hmp_event_channel_create` succeeds, whether or not the descriptor is added. -/
theorem hmpEventChannelCreate_some {w w' : World} {c : ChannelCalls} {fd : ℕ}
    (h : w.hmpEventChannelCreate c = (w', some fd)) :
    (c.create = true ∧ c.getFl = true ∧ c.setFl = true) ∧ w'.qps = w.qps := by
  unfold World.hmpEventChannelCreate at h
  dsimp only at h
  split_ifs at h with hn hf
  · obtain ⟨rfl, -⟩ := Prod.mk.inj h
    exact ⟨⟨hn, hf⟩, by simp⟩
  · cases (Prod.mk.inj h).2
  · cases (Prod.mk.inj h).2

theorem listenCreate_running (h : (listenCreate o s).phase = .running) :
    o.listenCreate.ok = true ∧ ∃ w fd, w.qps = s.proc.world.qps ∧
      listenCreate o s = { (s.use .context).setProc
        { s.proc.setWorld w with listenChannel := some fd } with listenTrans := true } := by
  unfold listenCreate at h ⊢
  dsimp only at h ⊢
  split_ifs at h ⊢ with hc
  · split at h
    · cases h
    · rename_i w fd hw
      obtain ⟨⟨hn, hg, hs⟩, hqps⟩ := hmpEventChannelCreate_some hw
      exact ⟨by simp [CreateCalls.ok, hc, hn, hg, hs], w, fd, hqps, rfl⟩
  · cases h

theorem listenDevice_proc (hs : s.proc.listenDevice = none) :
    (listenDevice s).proc = { s.proc with listenDevice := s.proc.node.devList.head? } := by
  unfold listenDevice
  cases s.proc.node.devList with
  | nil =>
    rw [List.head?_nil, ← hs]
  | cons d l => rfl

theorem listenDevice_frame : (listenDevice s).phase = s.phase ∧
    (listenDevice s).context = s.context ∧ (listenDevice s).listenTrans = s.listenTrans := by
  unfold listenDevice
  cases s.proc.node.devList with
  | nil => exact ⟨rfl, rfl, rfl⟩
  | cons d l => exact ⟨rfl, rfl, rfl⟩

/-! ## The pool -/

/-- The statements before `hmp_mem_init`. -/
def beforePool (o : InitCalls) : Init :=
  (((((start.andThen (configInit o)).andThen (hashInit o)).andThen (transportInit o)).andThen
    (contextCreate o)).andThen (listenCreate o)).andThen listenDevice

theorem untilPool_eq (o : InitCalls) : untilPool o = (beforePool o).andThen (memInit o) := rfl

/-- What there is when `hmp_mem_init` is called, and which calls have succeeded. -/
structure BeforePool (o : InitCalls) (s : Init) : Prop where
  config : o.config ≠ .exits
  hash : ∀ config, o.config = .read config → 0 < config.nodeCnt → o.hash = true
  context : o.context = true ∧ s.context = true
  listenTrans : o.listenCreate.ok = true ∧ s.listenTrans = true
  node : ∃ config, s.proc.node = { config := config, devList := (devices 0 o.usable).reverse }
  device : s.proc.listenDevice = s.proc.node.devList.head?
  qps : s.proc.world.qps = {}

/-- The configuration and the hash list. -/
theorem afterHash_running
    (h : ((start.andThen (configInit o)).andThen (hashInit o)).phase = .running) :
    let s := (start.andThen (configInit o)).andThen (hashInit o)
    o.config ≠ .exits ∧
      (∀ config, o.config = .read config → 0 < config.nodeCnt → o.hash = true) ∧
        ∃ config, s.proc = start.proc.setNode { config := config } := by
  obtain ⟨h₁, he₂, hr₂⟩ := andThen_running h
  obtain ⟨-, he₁, hr₁⟩ := andThen_running h₁
  obtain ⟨hhash, hs₂⟩ := hashInit_running hr₂
  simp only [he₂, hs₂]
  rw [he₁] at hhash ⊢
  rcases configInit_running hr₁ with ⟨hc, hs₁⟩ | ⟨config, hc, hs₁⟩
  · rw [hs₁, hc]
    exact ⟨by simp, by simp, _, rfl⟩
  · rw [hs₁] at hhash ⊢
    rw [hc]
    refine ⟨by simp, ?_, config, rfl⟩
    rintro _ ⟨rfl⟩ hpos
    exact hhash hpos

/-- The process with the device list. -/
theorem hmpDeviceInitHandle_start (o : InitCalls) (config : HmpConfig) :
    let p := (start.proc.setNode { config := config }).hmpDeviceInitHandle o.ctxList
    p.node = { config := config, devList := (devices 0 o.usable).reverse } ∧
      p.listenDevice = none ∧ p.world.qps = {} := by
  have h := (start.proc.setNode { config := config }).hmpDeviceInitHandle_added o
  have hlist : _ = (devices 0 o.usable).reverse := h.devList.trans (List.append_nil _)
  refine ⟨(congrArg Proc.node h.rest).trans ?_, congrArg Proc.listenDevice h.rest,
    congrArg (·.world.qps) h.rest⟩
  rw [hlist]
  rfl

theorem listenDevice_beforePool {config : HmpConfig} (hnone : s.proc.listenDevice = none)
    (hexits : o.config ≠ .exits)
    (hhash : ∀ config, o.config = .read config → 0 < config.nodeCnt → o.hash = true)
    (hctx : o.context = true ∧ s.context = true)
    (htrans : o.listenCreate.ok = true ∧ s.listenTrans = true)
    (hnode : s.proc.node = { config := config, devList := (devices 0 o.usable).reverse })
    (hqps : s.proc.world.qps = {}) :
    BeforePool o (listenDevice s) := by
  obtain ⟨-, hctx', htrans'⟩ := listenDevice_frame (s := s)
  have hproc := listenDevice_proc hnone
  refine ⟨hexits, hhash, by rwa [hctx'], by rwa [htrans'], ?_, ?_, ?_⟩
  · rw [hproc]
    exact ⟨config, hnode⟩
  · rw [hproc]
    rfl
  · rw [hproc]
    exact hqps

theorem beforePool_running (h : (beforePool o).phase = .running) : BeforePool o (beforePool o) := by
  obtain ⟨h₅, he₆, -⟩ := andThen_running h
  obtain ⟨h₄, he₅, hr₅⟩ := andThen_running h₅
  obtain ⟨h₃, he₄, hr₄⟩ := andThen_running h₄
  obtain ⟨h₂, he₃, -⟩ := andThen_running h₃
  obtain ⟨hexits, hhash, config, hproc⟩ := afterHash_running h₂
  obtain ⟨hctx, hs₄⟩ := contextCreate_running hr₄
  obtain ⟨hcreate, w, fd, hqps, hs₅⟩ := listenCreate_running hr₅
  obtain ⟨hnode, hnone, hqps₀⟩ := hmpDeviceInitHandle_start o config
  rw [beforePool, he₆, he₅, hs₅]
  rw [he₄, hs₄, he₃] at hqps ⊢
  rw [← hproc] at hnode hnone hqps₀
  exact listenDevice_beforePool hnone hexits hhash ⟨hctx, rfl⟩ ⟨hcreate, rfl⟩ hnode
    (hqps.trans hqps₀)

/-- The process when its pool is registered in the protection domain of `d`. -/
def withPool (p : Proc) (d : HmpDevice) (pool : HmpMempool) : Proc :=
  { p.setWorld (p.world.ibvRegMr { pd := d.pd, addr := pool.baseAddr, length := pool.size }) with
    mr := some p.world.mrs.next }.setNode (hmpMemInit p.node pool)

theorem hmpMempoolCreate_some {p p' : Proc} {c : PoolCalls} {pool : HmpMempool}
    (h : p.hmpMempoolCreate c = some (p', some pool)) : ∃ d, p.listenDevice = some d ∧
      0 < pool.size ∧ p'.setNode (hmpMemInit p'.node pool) = withPool p d pool := by
  unfold Proc.hmpMempoolCreate at h
  split_ifs at h
  · obtain ⟨d, hd, h⟩ := Option.map_eq_some_iff.mp h
    refine ⟨d, hd, ?_⟩
    split at h
    · cases (Prod.mk.inj h).2
    · rename_i pool' hpool'
      obtain ⟨rfl, hpool⟩ := Prod.mk.inj h
      obtain rfl := Option.some.inj hpool
      refine ⟨?_, rfl⟩
      rw [(HMP.hmpMempoolCreate_some hpool').1]
      decide
  · cases (Prod.mk.inj (Option.some.inj h)).2

theorem memInit_running (h : (memInit o s).phase = .running) :
    ∃ d pool, s.proc.listenDevice = some d ∧ 0 < pool.size ∧
      (memInit o s).proc = withPool s.proc d pool := by
  unfold memInit at h ⊢
  dsimp only at h ⊢
  have hproc : (if o.pool.registers then ((s.use .config).use .listenTrans).use .device
      else s.use .config).proc = s.proc := by split_ifs <;> rfl
  generalize (if o.pool.registers then ((s.use .config).use .listenTrans).use .device
    else s.use .config) = s' at h hproc ⊢
  split at h
  · cases h
  · cases h
  · rename_i p pool hp
    rw [hproc] at hp
    obtain ⟨d, hd, hsize, hw⟩ := hmpMempoolCreate_some hp
    exact ⟨d, pool, hd, hsize, hw⟩

/-- The process when startup gets behind `hmp_mem_init`. -/
theorem untilPool_running (h : (untilPool o).phase = .running) : ∃ s d pool, BeforePool o s ∧
    s.proc.node.devList.head? = some d ∧ 0 < pool.size ∧
      (untilPool o).proc = withPool s.proc d pool := by
  obtain ⟨hr, he, hm⟩ := andThen_running h
  obtain ⟨d, pool, hd, hsize, hw⟩ := memInit_running hm
  have hb := beforePool_running hr
  exact ⟨_, d, pool, hb, hb.device.symm.trans hd, hsize, (congrArg Init.proc he).trans hw⟩

/-- No call fails before `ibv_reg_mr`. -/
theorem beforePool_reached (h : o.reachesRegMr) : (beforePool o).phase = .running := by
  obtain ⟨⟨config, hconfig, hhash⟩, hctx, hcreate, -⟩ := h
  simp only [CreateCalls.ok, Bool.and_eq_true] at hcreate
  obtain ⟨⟨hcalloc, hchannel⟩, hflags⟩ := hcreate
  have h₁ : configInit o start =
      { start.setProc (start.proc.setNode { config := config }) with configRead := true } := by
    rw [configInit, hconfig]
    rfl
  have h₂ : (hashInit o (configInit o start)).phase = .running := by
    rw [h₁]
    unfold hashInit
    dsimp only
    rw [if_neg (by rintro ⟨hpos, hno⟩; exact hno (hhash hpos))]
    rfl
  have h₅ (s : Init) (hs : s.phase = .running) : (listenCreate o s).phase = .running := by
    unfold listenCreate
    dsimp only
    rw [if_pos hcalloc]
    simp [World.hmpEventChannelCreate, hchannel, hflags, hs]
  have h₄ (s : Init) (hs : s.phase = .running) : (contextCreate o s).phase = .running := by
    rw [contextCreate, if_pos hctx]
    exact hs
  have h₀ : (start.andThen (configInit o)).phase = .running := by
    rw [andThen_of_running _ rfl, h₁]
    rfl
  have hhash : ((start.andThen (configInit o)).andThen (hashInit o)).phase = .running := by
    rw [andThen_of_running _ h₀, andThen_of_running _ rfl]
    exact h₂
  exact andThen_phase (andThen_phase (andThen_phase (andThen_phase hhash fun _ hs => hs) h₄) h₅)
    fun s hs => listenDevice_frame.1.trans hs

end Init

end HMP
