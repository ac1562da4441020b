import Hmp.Sanity.ProcRun

/-! Startup reads nothing that is not there exactly if the configuration has been read and, when it
gets as far as registering the pool, some device can be used. -/

namespace HMP

namespace Init

variable {o : InitCalls} {s : Init}

/-! ## What has been read -/

@[simp] theorem mem_use (u : Needed × Bool) (s : Init) (r : Needed) :
    u ∈ (s.use r).uses ↔ u ∈ s.uses ∨ u = (r, s.has r) := by simp [use]

@[simp] theorem setProc_uses (s : Init) (p : Proc) : (s.setProc p).uses = s.uses := rfl

@[simp] theorem exit_uses (s : Init) : s.exit.uses = s.uses := rfl

/-- A step that only adds to what has been read. -/
def Grows (f : Init → Init) : Prop := ∀ s, ∀ u ∈ s.uses, u ∈ (f s).uses

theorem Grows.id : Grows fun s => s := fun _ _ hu => hu

theorem Grows.andThen {f g : Init → Init} (hf : Grows f) (hg : Grows g) :
    Grows fun s => (f s).andThen g := by
  intro s u hu
  dsimp only [Init.andThen]
  split_ifs
  · exact hg _ u (hf s u hu)
  · exact hf s u hu

theorem transportInit_grows (o : InitCalls) : Grows (transportInit o) := fun _ _ hu => hu

theorem contextCreate_grows (o : InitCalls) : Grows (contextCreate o) := by
  intro s u hu
  unfold contextCreate
  split_ifs <;> exact hu

theorem listenCreate_grows (o : InitCalls) : Grows (listenCreate o) := by
  intro s u hu
  unfold listenCreate
  dsimp only
  split_ifs
  · split <;> simp [hu]
  · simp [hu]

theorem listenDevice_grows : Grows listenDevice := by
  intro s u hu
  unfold listenDevice
  split
  · exact hu
  · simp [hu]

theorem memInit_grows (o : InitCalls) : Grows (memInit o) := by
  intro s u hu
  unfold memInit
  dsimp only
  split_ifs
  · split <;> simp [hu]
  · split <;> simp [hu]

theorem listen_grows (o : InitCalls) : Grows (listen o) := by
  intro s u hu
  simp [listen, hu]

theorem clear_grows : Grows clear := fun _ _ hu => hu

theorem peer_grows (o : InitCalls) (i : ℕ) : Grows (peer o i) := by
  intro s u hu
  unfold peer
  dsimp only
  split <;> simp [hu]

theorem peers_grows (o : InitCalls) : Grows (peers o) := by
  intro s u hu
  have hu' : u ∈ (s.use .config).uses := by simp [hu]
  unfold peers
  generalize s.use .config = s' at hu'
  induction peerIds s.proc.node.config generalizing s' with
  | nil => exact hu'
  | cons i l ih => exact ih _ (Grows.id.andThen (peer_grows o i) s' u hu')

/-- What follows the pool. -/
theorem afterPool_grows (o : InitCalls) :
    Grows fun s => ((s.andThen (listen o)).andThen clear).andThen (peers o) :=
  ((Grows.id.andThen (listen_grows o)).andThen clear_grows).andThen (peers_grows o)

/-- What follows the hash list, as far as the pool. -/
theorem afterHash_grows (o : InitCalls) :
    Grows fun s => ((((s.andThen (transportInit o)).andThen (contextCreate o)).andThen
      (listenCreate o)).andThen listenDevice).andThen (memInit o) :=
  ((((Grows.id.andThen (transportInit_grows o)).andThen (contextCreate_grows o)).andThen
    (listenCreate_grows o)).andThen listenDevice_grows).andThen (memInit_grows o)

/-! ## Reads of what is missing -/

/-- `hmp_hash_init` reads the configuration, whatever `hmp_config_init` returns. -/
theorem config_missing (h : o.config = .failed) : (Needed.config, false) ∈ (hmpNodeInit o).uses := by
  have hstart : start.andThen (configInit o) = start := by
    rw [andThen_of_running _ rfl, configInit, h]
  have huse : (Needed.config, false) ∈ ((start.andThen (configInit o)).andThen (hashInit o)).uses := by
    have huse : (Needed.config, false) ∈ (start.use .config).uses := by simp [has, start]
    rw [hstart, andThen_of_running _ rfl]
    unfold hashInit
    dsimp only
    split_ifs <;> exact huse
  exact afterPool_grows o _ _ (afterHash_grows o _ _ huse)

/-- `hmp_mempool_create` goes through the device of the listen transport. -/
theorem device_missing (h : BeforePool o (beforePool o)) (hr : (beforePool o).phase = .running)
    (hpool : o.pool.registers = true) (hnone : o.usable = []) :
    (Needed.device, false) ∈ (hmpNodeInit o).uses := by
  have hdev : (beforePool o).proc.listenDevice = none := by
    obtain ⟨config, hnode⟩ := h.node
    rw [h.device, hnode, hnone]
    rfl
  have huse : (Needed.device, false) ∈ (untilPool o).uses := by
    rw [untilPool_eq, andThen_of_running _ hr]
    have hcrash : (beforePool o).proc.hmpMempoolCreate o.pool = none := by
      rw [Proc.hmpMempoolCreate, if_pos hpool, hdev]
      rfl
    simp [memInit, hpool, hcrash, has, hdev]
  exact afterPool_grows o _ _ huse

/-! ## Reads of what is there -/

/-- Nothing that is missing has been read, and what `rs` names is there while the process runs. -/
structure Sound (rs : List Needed) (s : Init) : Prop where
  closed : s.FailsClosed
  there : s.phase = .running → ∀ r ∈ rs, s.has r = true

theorem FailsClosed.use {r : Needed} (h : s.FailsClosed) (hr : s.has r = true) :
    (s.use r).FailsClosed := by
  intro u hu
  rcases (mem_use u s r).mp hu with hu | rfl
  · exact h u hu
  · exact hr

/-- A process that has ended needs nothing. -/
theorem Sound.ended {rs : List Needed} (h : s.FailsClosed) (hs : s.phase ≠ .running) : Sound rs s :=
  ⟨h, fun hr => absurd hr hs⟩

theorem Sound.andThen {rs rs' : List Needed} {f : Init → Init} (h : Sound rs s)
    (hf : s.phase = .running → Sound rs s → Sound rs' (f s)) : Sound rs' (s.andThen f) := by
  by_cases hs : s.phase = .running
  · rw [andThen_of_running f hs]
    exact hf hs h
  · rw [andThen_of_not_running f hs]
    exact .ended h.closed hs

theorem Sound.use {rs : List Needed} {r : Needed} (h : Sound rs s) (hr : s.has r = true) :
    Sound rs (s.use r) :=
  ⟨h.closed.use hr, fun hs r' hr' => by rw [use_has, h.there hs r' hr']⟩

theorem Sound.exit {rs rs' : List Needed} (h : Sound rs s) : Sound rs' s.exit :=
  .ended h.closed (by simp)

theorem hashInit_sound (hs : s.phase = .running) (h : Sound [.config] s) :
    Sound [.config] (hashInit o s) := by
  have huse : Sound [.config] (s.use .config) := h.use (h.there hs _ (by simp))
  unfold hashInit
  dsimp only
  split_ifs
  · exact huse.exit
  · exact huse

theorem transportInit_sound (h : Sound [.config] s) : Sound [.config] (transportInit o s) := by
  refine ⟨h.closed, fun hs r hr => ?_⟩
  rw [List.mem_singleton.mp hr]
  exact h.there hs .config (by simp)

theorem contextCreate_sound (hs : s.phase = .running) (h : Sound [.config] s) :
    Sound [.config, .context] (contextCreate o s) := by
  unfold contextCreate
  split_ifs
  · refine ⟨h.closed, fun _ r hr => ?_⟩
    simp only [List.mem_cons, List.not_mem_nil, or_false] at hr
    rcases hr with rfl | rfl
    · exact h.there hs .config (by simp)
    · rfl
  · exact h.exit

theorem listenCreate_sound (hs : s.phase = .running) (h : Sound [.config, .context] s) :
    Sound [.config, .context, .listenTrans] (listenCreate o s) := by
  have huse : Sound [.config, .context] (s.use .context) := h.use (h.there hs _ (by simp))
  unfold listenCreate
  dsimp only
  split_ifs
  · split
    · exact .ended huse.closed (by simp)
    · refine ⟨huse.closed, fun _ r hr => ?_⟩
      simp only [List.mem_cons, List.not_mem_nil, or_false] at hr
      rcases hr with rfl | rfl | rfl
      · exact h.there hs .config (by simp)
      · exact h.there hs .context (by simp)
      · rfl
  · exact huse.exit

theorem listenDevice_sound (hs : s.phase = .running) (h : Sound [.config, .context, .listenTrans] s) :
    Sound [.config, .context, .listenTrans] (listenDevice s) := by
  unfold listenDevice
  split
  · exact h
  · have huse := h.use (h.there hs .listenTrans (by simp))
    refine ⟨huse.closed, fun _ r hr => ?_⟩
    have := h.there hs r hr
    simp only [List.mem_cons, List.not_mem_nil, or_false] at hr
    rcases hr with rfl | rfl | rfl <;> exact this

/-- What the statements behind `hmp_mem_init` read. -/
def poolNeeded : List Needed := [.config, .context, .listenTrans, .dramMempool]

theorem memInit_sound (hs : s.phase = .running) (h : Sound [.config, .context, .listenTrans] s)
    (hdev : o.pool.registers = true → s.has .device = true) : Sound poolNeeded (memInit o s) := by
  have hconfig : s.has .config = true := h.there hs _ (by simp)
  have hcontext : s.has .context = true := h.there hs _ (by simp)
  have htrans : s.has .listenTrans = true := h.there hs _ (by simp)
  unfold memInit
  dsimp only
  obtain ⟨s', hs', hclosed, hhas⟩ : ∃ s', s' = (if o.pool.registers then
      ((s.use .config).use .listenTrans).use .device else s.use .config) ∧ s'.FailsClosed ∧
        ∀ r, s'.has r = s.has r := by
    refine ⟨_, rfl, ?_⟩
    split_ifs with hreg
    · refine ⟨((h.closed.use hconfig).use ?_).use ?_, by simp⟩
      · simpa using htrans
      · simpa using hdev hreg
    · exact ⟨h.closed.use hconfig, by simp⟩
  rw [← hs']
  split
  · exact .ended hclosed (by simp)
  · exact .ended hclosed (by simp)
  · rename_i p pool _
    refine ⟨(FailsClosed.use (s := s'.setProc (p.setNode (hmpMemInit p.node pool))) hclosed rfl).use
      ((hhas .config).trans hconfig), fun _ r hr => ?_⟩
    simp only [poolNeeded, List.mem_cons, List.not_mem_nil, or_false] at hr
    rcases hr with rfl | rfl | rfl | rfl
    · exact (hhas .config).trans hconfig
    · exact (hhas .context).trans hcontext
    · exact (hhas .listenTrans).trans htrans
    · rfl

/-- The pool stays. -/
theorem Sound.setProc {p : Proc} (h : Sound poolNeeded s)
    (hpool : p.node.dramMempool = s.proc.node.dramMempool) : Sound poolNeeded (s.setProc p) := by
  refine ⟨h.closed, fun hs r hr => ?_⟩
  have := h.there hs r hr
  simp only [poolNeeded, List.mem_cons, List.not_mem_nil, or_false] at hr
  rcases hr with rfl | rfl | rfl | rfl
  · exact this
  · exact this
  · exact this
  · exact (congrArg Option.isSome hpool).trans this

theorem listen_sound (hs : s.phase = .running) (h : Sound poolNeeded s) :
    Sound poolNeeded (listen o s) := by
  have huse := h.use (h.there hs .listenTrans (by simp [poolNeeded]))
  refine (huse.use (huse.there hs _ (by simp [poolNeeded]))).setProc ?_
  unfold hmpTransportListen
  split_ifs <;> rfl

theorem clear_sound (h : Sound poolNeeded s) : Sound poolNeeded (clear s) := h.setProc rfl

/-! ## Peers -/

theorem peer_sound (i : ℕ) (hs : s.phase = .running) (h : Sound poolNeeded s) :
    Sound poolNeeded (peer o i s) := by
  have huse := h.use (h.there hs .context (by simp [poolNeeded]))
  unfold peer
  dsimp only
  split
  · exact .ended huse.closed (by simp)
  · rename_i p t hp
    obtain ⟨-, -, hpool⟩ := Proc.peerCreate_keeps (D := fun _ => True) hp
    have hset : Sound poolNeeded ((s.use .context).setProc p) := huse.setProc hpool
    have hconn : Sound poolNeeded (((s.use .context).setProc p).use (.connectTrans i)) :=
      hset.use (congrArg Option.isSome (Proc.peerCreate_entry hp))
    have hbase := hconn.use (hconn.there hs .dramMempool (by simp [poolNeeded]))
    refine (hbase.use (hbase.there hs .config (by simp [poolNeeded]))).setProc ?_
    exact (Proc.hmpTransportConnect_keeps (D := fun _ => True) ..).2.2

theorem peers_sound (hs : s.phase = .running) (h : Sound poolNeeded s) :
    Sound poolNeeded (peers o s) := by
  have huse := h.use (h.there hs .config (by simp [poolNeeded]))
  unfold peers
  generalize s.use .config = s' at huse
  induction peerIds s.proc.node.config generalizing s' with
  | nil => exact huse
  | cons i l ih => exact ih _ (huse.andThen fun hr h => peer_sound i hr h)

/-! ## Startup -/

theorem configInit_sound (h : o.config ≠ .failed) : Sound [.config] (start.andThen (configInit o)) := by
  have hclosed : start.FailsClosed := fun u hu => by cases hu
  rw [andThen_of_running _ rfl]
  unfold configInit
  cases hc : o.config with
  | failed => exact absurd hc h
  | exits => exact .ended hclosed (by simp)
  | read config =>
    refine ⟨hclosed, fun _ r hr => ?_⟩
    rw [List.mem_singleton.mp hr]
    rfl

theorem beforePool_sound (h : o.config ≠ .failed) :
    Sound [.config, .context, .listenTrans] (beforePool o) :=
  (((((configInit_sound h).andThen fun hs h => hashInit_sound hs h).andThen
    fun _ h => transportInit_sound h).andThen fun hs h => contextCreate_sound hs h).andThen
    fun hs h => listenCreate_sound hs h).andThen fun hs h => listenDevice_sound hs h

/-- The device is there when the pool is registered. -/
theorem device_there (hr : (beforePool o).phase = .running) (hpool : o.pool.registers = true)
    (hc : o.config ≠ .failed) (husable : o.reachesRegMr → o.usable ≠ []) :
    (beforePool o).has .device = true := by
  have h := beforePool_running hr
  have hreach : o.reachesRegMr := by
    refine ⟨?_, h.context.1, h.listenTrans.1, hpool⟩
    cases hconfig : o.config with
    | failed => exact absurd hconfig hc
    | exits => exact absurd hconfig h.config
    | read config => exact ⟨config, rfl, h.hash config hconfig⟩
  obtain ⟨config, hnode⟩ := h.node
  have hne : (beforePool o).proc.node.devList ≠ [] := by
    rw [hnode]
    simpa [devices] using husable hreach
  rw [has, h.device]
  simpa [List.isSome_head?] using hne

instance (s : Init) : Decidable s.FailsClosed := inferInstanceAs (Decidable (∀ u ∈ s.uses, _))

/-- One node, on a machine where `rdma_get_devices` gives an empty list. -/
def noDevice : InitCalls where
  config := .read { nodeInfos := fun _ => { addr := "10.0.0.1", port := 8000 }
                    curnodeId := 0, nodeCnt := 1 }
  ctxList := some []
  pool := { mempool := true, base := some ⟨64, by decide⟩, pageArray := true, keys := none }
  peers := fun _ => { connect := { cm := ⟨0, true⟩ } }

end Init

end HMP
