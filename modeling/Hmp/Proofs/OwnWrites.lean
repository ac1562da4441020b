import Hmp.Sanity.Transfer

/-! A node reads its own writes. The finished calls make a flat memory for every
node. A shared byte of another node is the byte of its flat memory once the
writes still queued for that node are done; a read is queued behind them. -/

namespace HMP

/-! ## Flat memories -/

/-- Memory `j` after the writes of `hist`, from the memories `init`. -/
def flat (init : ℕ → Mem) (hist : List Accessed) (j : ℕ) : Mem := fun x =>
  (lastStored hist j x).getD (init j x)

theorem lastStored_concat (hist : List Accessed) (e : Accessed) (j x : ℕ) :
    lastStored (hist ++ [e]) j x = (e.stored j x).or (lastStored hist j x) := by
  simp only [lastStored, List.reverse_append, List.reverse_singleton, List.singleton_append,
    List.findSome?_cons]
  cases e.stored j x <;> rfl

@[simp] theorem flat_nil (init : ℕ → Mem) (j : ℕ) : flat init [] j = init j := rfl

theorem flat_write (init : ℕ → Mem) (hist : List Accessed) (j a : ℕ) (bs : List UInt8) :
    flat init (hist ++ [⟨.write, j, a, bs⟩]) j = (flat init hist j).write a bs := by
  funext x
  simp only [flat, lastStored_concat, Accessed.stored, Mem.write]
  by_cases hx : a ≤ x
  · by_cases hlt : x < a + bs.length
    · have hget : bs[x - a]? = some bs[x - a] := List.getElem?_eq_getElem (by omega)
      simp [hx, hlt, hget, List.getD_eq_getElem?_getD]
    · have hget : bs[x - a]? = none := List.getElem?_eq_none (by omega)
      simp [hx, hlt, hget]
  · simp [hx]

theorem flat_other (init : ℕ → Mem) (hist : List Accessed) {e : Accessed} {j : ℕ}
    (h : e.op = .read ∨ e.nodeId ≠ j) : flat init (hist ++ [e]) j = flat init hist j := by
  funext x
  have hnone : e.stored j x = none := by
    unfold Accessed.stored
    rw [if_neg]
    rintro ⟨hw, hj, -⟩
    rcases h with h | h
    · rw [hw] at h
      exact absurd h (by decide)
    · exact h hj
  simp [flat, lastStored_concat, hnone]

/-- Every read of `hist` delivered what the flat memory of its node held. -/
def ReadsRight (init : ℕ → Mem) (hist : List Accessed) : Prop :=
  ∀ before e after, hist = before ++ e :: after → e.op = .read →
    e.bytes = (flat init before e.nodeId).read e.addr e.bytes.length

theorem ReadsRight.concat {init : ℕ → Mem} {hist : List Accessed} {e : Accessed}
    (h : ReadsRight init hist)
    (he : e.op = .read → e.bytes = (flat init hist e.nodeId).read e.addr e.bytes.length) :
    ReadsRight init (hist ++ [e]) := by
  intro before e' after heq hop
  rcases List.eq_nil_or_concat after with rfl | ⟨after', e'', rfl⟩
  · obtain ⟨rfl, hlast⟩ := List.append_inj' heq rfl
    obtain rfl : e = e' := by simpa using hlast
    exact he hop
  · rw [List.concat_eq_append, ← List.cons_append, ← List.append_assoc] at heq
    exact h before e' after' (List.append_inj' heq rfl).1 hop

namespace Transfer

/-! ## Queued writes -/

/-- What the requests of a queue will write at the other end. -/
def pendingPuts (m : Mem) (sq : List IbvSendWr) : List (ℕ × List UInt8) :=
  sq.filterMap fun wr =>
    if wr.opcode = .rdmaWrite then some (wr.remoteAddr, m.read wr.sge.addr wr.sge.length) else none

@[simp] theorem pendingPuts_append (m : Mem) (sq sq' : List IbvSendWr) :
    pendingPuts m (sq ++ sq') = pendingPuts m sq ++ pendingPuts m sq' :=
  List.filterMap_append

theorem pendingPuts_cons (m : Mem) (wr : IbvSendWr) (sq : List IbvSendWr) :
    pendingPuts m (wr :: sq) =
      (if wr.opcode = .rdmaWrite then [(wr.remoteAddr, m.read wr.sge.addr wr.sge.length)] else []) ++
        pendingPuts m sq := by
  by_cases h : wr.opcode = .rdmaWrite <;> simp [pendingPuts, h]

/-- Address `x` is in the source of a write that has not been executed. -/
def InSource (s : Transfer) (x : ℕ) : Prop :=
  ∃ t, ∃ wr ∈ (s.node.qp t).sq, wr.opcode = .rdmaWrite ∧ wr.sge.addr ≤ x ∧
    x < wr.sge.addr + wr.sge.length

theorem pendingPuts_congr {s : Transfer} {t : ℕ} {m : Mem}
    (h : ∀ x, InSource s x → m x = s.node.mem x) :
    pendingPuts m (s.node.qp t).sq = pendingPuts s.node.mem (s.node.qp t).sq := by
  unfold pendingPuts
  refine List.filterMap_congr fun wr hw => ?_
  by_cases hop : wr.opcode = .rdmaWrite
  · simp only [hop, if_true, Option.some.injEq, Prod.mk.injEq, true_and]
    exact Mem.read_congr fun x hx hx' => h x ⟨t, wr, hw, hop, hx, hx'⟩
  · simp [hop]

/-- The buffer of a read that has not returned. -/
def InBuffer (s : Transfer) (x : ℕ) : Prop :=
  ∃ c, (s.app = .checking c ∨ ∃ p, s.app = .waiting c p) ∧ c.op = .read ∧ c.localAddr ≤ x ∧
    x < c.localAddr + c.length.toNat

/-! ## The simulation -/

/-- No read is queued, apart from those on `t`. -/
def NoReads (s : Transfer) (t : Option ℕ) : Prop :=
  ∀ u, some u ≠ t → ∀ wr ∈ (s.node.qp u).sq, wr.opcode ≠ .rdmaRead

/-- A call that takes the remote path, with what its caller provides. -/
structure CallOk (shared : ℕ → ℕ → Bool) (s : Transfer) (c : RemoteCall) : Prop where
  lt : c.nodeId < s.node.config.nodeCnt
  ne : c.nodeId ≠ s.node.config.curnodeId
  table : s.node.connectTrans c.nodeId = some c.t
  pos : 0 < c.length
  small : c.length < 2 ^ 31
  range : ∀ x, c.addr ≤ x → x < c.addr + c.length.toNat → shared c.nodeId x = true
  buffer : ∀ x, c.localAddr ≤ x → x < c.localAddr + c.length.toNat →
    shared s.node.config.curnodeId x = false
  source : c.op = .read → ∀ x, c.localAddr ≤ x → x < c.localAddr + c.length.toNat → ¬ InSource s x

/-- The request of read `p` is the last one on its queue pair, and its task is not done. -/
structure Posted (s : Transfer) (c : RemoteCall) (p : ℕ) : Prop where
  last : ∃ before wr, (s.node.qp c.t).sq = before ++ [wr] ∧ (∀ w ∈ before, w.opcode ≠ .rdmaRead) ∧
    wr.opcode = .rdmaRead ∧ wr.sge.addr = c.localAddr ∧ wr.sge.length = c.length.toNat ∧
    wr.remoteAddr = c.addr
  alone : NoReads s (some c.t)
  task : (s.node.task p).type ≠ .done
  cq : ∀ t, ∀ wc ∈ (s.node.qp t).cq, wc.wrId = p → wc.opcode ≠ .rdmaRead

/-- The buffer of the read holds what the flat memory of the node holds. -/
structure Delivered (init : ℕ → Mem) (s : Transfer) (c : RemoteCall) : Prop where
  noReads : NoReads s none
  bytes : s.node.mem.read c.localAddr c.length.toNat =
    (flat init s.hist c.nodeId).read c.addr c.length.toNat

/-- Where the calling thread stands. -/
def AppOk (shared : ℕ → ℕ → Bool) (init : ℕ → Mem) (s : Transfer) : Prop :=
  match s.app with
  | .idle => NoReads s none
  | .checking c => CallOk shared s c ∧ NoReads s none
  | .waiting c p => CallOk shared s c ∧ c.op = .read ∧ p < s.node.nextTask ∧
      (Posted s c p ∨ Delivered init s c)

/-- What no step changes: the wiring of the cluster. -/
structure SameWiring (s₀ s : Transfer) : Prop where
  nodeCnt : s.node.config.nodeCnt = s₀.node.config.nodeCnt
  curnodeId : s.node.config.curnodeId = s₀.node.config.curnodeId
  table : s.node.connectTrans = s₀.node.connectTrans
  nextTrans : s.node.nextTrans = s₀.node.nextTrans
  far : s.far = s₀.far

/-- The queues hold the requests of the calls. -/
structure QueuesOk (shared : ℕ → ℕ → Bool) (s : Transfer) : Prop where
  table : s.node.TableOk
  far : ∀ j < s.node.config.nodeCnt, j ≠ s.node.config.curnodeId →
    ∀ t, s.node.connectTrans j = some t → s.far t = j
  tasks : ∀ t, s.node.TasksOk t
  beyond : ∀ t, s.node.nextTrans ≤ t → (s.node.qp t).sq = []
  routed : ∀ t, ∀ wr ∈ (s.node.qp t).sq, wr.opcode = .rdmaWrite →
    ∃ j < s.node.config.nodeCnt, j ≠ s.node.config.curnodeId ∧ s.node.connectTrans j = some t
  source : ∀ x, InSource s x → shared s.node.config.curnodeId x = false

/-- The shared bytes of this node are those of its flat memory; those of another node will be
once the queued writes are executed. -/
structure Flat (shared : ℕ → ℕ → Bool) (init : ℕ → Mem) (s : Transfer) : Prop where
  own : ∀ x, shared s.node.config.curnodeId x = true →
    s.node.mem x = flat init s.hist s.node.config.curnodeId x
  remote : ∀ j < s.node.config.nodeCnt, j ≠ s.node.config.curnodeId →
    ∀ t, s.node.connectTrans j = some t → ∀ x, shared j x = true →
      (s.remote j).puts (pendingPuts s.node.mem (s.node.qp t).sq) x = flat init s.hist j x

structure Sim (shared : ℕ → ℕ → Bool) (init : ℕ → Mem) (s : Transfer) : Prop where
  queues : QueuesOk shared s
  flat : Flat shared init s
  log : ReadsRight init s.hist
  app : AppOk shared init s

variable {shared : ℕ → ℕ → Bool} {init : ℕ → Mem} {s s' : Transfer}

theorem reserved_eq_false (hq : QueuesOk shared s) {x : ℕ} (h : s.reserved x = false) :
    ¬ InSource s x ∧ ¬ InBuffer s x := by
  obtain ⟨h1, h2⟩ := Bool.or_eq_false_iff.mp h
  constructor
  · rintro ⟨t, wr, hw, hop, hx, hx'⟩
    have ht : t < s.node.nextTrans := by
      by_contra hge
      simp [hq.beyond t (by omega)] at hw
    rw [List.any_eq_false] at h1
    have hn := h1 t (List.mem_range.mpr ht)
    rw [Bool.not_eq_true, List.any_eq_false] at hn
    exact hn wr hw (by simp [hop, hx, hx'])
  · rintro ⟨c, happ | ⟨p, happ⟩, hop, hx, hx'⟩ <;> rw [happ] at h2 <;>
      simp [hop, hx] at h2 <;> omega

theorem free_spec (hq : QueuesOk shared s) {addr n : ℕ} (h : free shared s addr n = true) {x : ℕ}
    (hx : addr ≤ x) (hx' : x < addr + n) :
    shared s.node.config.curnodeId x = false ∧ ¬ InSource s x ∧ ¬ InBuffer s x := by
  have hk := List.all_eq_true.mp h (x - addr) (List.mem_range.mpr (by omega))
  rw [show addr + (x - addr) = x by omega, Bool.and_eq_true, Bool.not_eq_true',
    Bool.not_eq_true'] at hk
  exact ⟨hk.1, reserved_eq_false hq hk.2⟩

theorem inSource_congr (hsq : ∀ t, (s'.node.qp t).sq = (s.node.qp t).sq) (x : ℕ) :
    InSource s' x ↔ InSource s x := by
  simp only [InSource, hsq]

theorem noReads_congr (hsq : ∀ t, (s'.node.qp t).sq = (s.node.qp t).sq) (t : Option ℕ) :
    NoReads s' t ↔ NoReads s t := by
  simp only [NoReads, hsq]

theorem CallOk.congr {c : RemoteCall} (h : CallOk shared s c) (hw : SameWiring s s')
    (hsrc : ∀ x, InSource s' x → InSource s x) : CallOk shared s' c where
  lt := hw.nodeCnt ▸ h.lt
  ne := hw.curnodeId ▸ h.ne
  table := hw.table ▸ h.table
  pos := h.pos
  small := h.small
  range := h.range
  buffer := hw.curnodeId ▸ h.buffer
  source := fun hop x hx hx' hin => h.source hop x hx hx' (hsrc x hin)

theorem QueuesOk.congr (h : QueuesOk shared s) (hw : SameWiring s s')
    (hsq : ∀ t, (s'.node.qp t).sq = (s.node.qp t).sq) (htasks : ∀ t, s'.node.TasksOk t) :
    QueuesOk shared s' where
  table := h.table.congr hw.table hw.nextTrans
  far := by rw [hw.nodeCnt, hw.curnodeId, hw.table, hw.far]; exact h.far
  tasks := htasks
  beyond := by rw [hw.nextTrans]; intro t ht; rw [hsq]; exact h.beyond t ht
  routed := by
    intro t wr hwr
    rw [hsq] at hwr
    rw [hw.nodeCnt, hw.curnodeId, hw.table]
    exact h.routed t wr hwr
  source := by
    intro x hx
    rw [hw.curnodeId]
    exact h.source x ((inSource_congr hsq x).mp hx)

/-- A step that leaves the calls and the posted requests alone and stores at most to bytes that
are neither shared nor reserved. -/
theorem Sim.frame (h : Sim shared init s) (hw : SameWiring s s') (happ : s'.app = s.app)
    (hhist : s'.hist = s.hist) (hsq : ∀ t, (s'.node.qp t).sq = (s.node.qp t).sq)
    (hmem : ∀ x, s'.node.mem x = s.node.mem x ∨
      shared s.node.config.curnodeId x = false ∧ ¬ InSource s x ∧ ¬ InBuffer s x)
    (hremote : ∀ j x, shared j x = true → s'.remote j x = s.remote j x)
    (hnext : s.node.nextTask ≤ s'.node.nextTask) (htasks : ∀ t, s'.node.TasksOk t)
    (hposted : ∀ c p, s.app = .waiting c p → Posted s c p → (s'.node.task p).type ≠ .done ∧
      ∀ t, ∀ wc ∈ (s'.node.qp t).cq, wc.wrId = p → wc.opcode ≠ .rdmaRead) :
    Sim shared init s' := by
  refine ⟨h.queues.congr hw hsq htasks, ⟨fun x hx => ?_, fun j hj hne t ht x hx => ?_⟩,
    hhist ▸ h.log, ?_⟩
  · rw [hw.curnodeId] at hx ⊢
    rw [hhist, ← h.flat.own x hx]
    refine (hmem x).resolve_right fun hf => ?_
    rw [hf.1] at hx
    exact absurd hx (by decide)
  · rw [hw.nodeCnt] at hj
    rw [hw.curnodeId] at hne
    rw [hw.table] at ht
    rw [hhist, ← h.flat.remote j hj hne t ht x hx, hsq, pendingPuts_congr]
    · exact Mem.puts_apply_congr _ (hremote j x hx)
    · exact fun y hy => (hmem y).resolve_right fun hf => hf.2.1 hy
  · have happok := h.app
    unfold AppOk at happok ⊢
    rw [happ]
    cases hc : s.app with
    | idle =>
      rw [hc] at happok
      exact (noReads_congr hsq none).mpr happok
    | checking c =>
      rw [hc] at happok
      exact ⟨happok.1.congr hw fun x => (inSource_congr hsq x).mp,
        (noReads_congr hsq none).mpr happok.2⟩
    | waiting c p =>
      rw [hc] at happok
      obtain ⟨hcall, hop, hp, hcase⟩ := happok
      refine ⟨hcall.congr hw fun x => (inSource_congr hsq x).mp, hop, hp.trans_le hnext, ?_⟩
      rcases hcase with hposted' | hdel
      · left
        obtain ⟨hd, hcq⟩ := hposted c p hc hposted'
        exact ⟨by simpa only [hsq] using hposted'.last, (noReads_congr hsq _).mpr hposted'.alone,
          hd, hcq⟩
      · right
        refine ⟨(noReads_congr hsq none).mpr hdel.noReads, ?_⟩
        rw [hhist, ← hdel.bytes]
        refine Mem.read_congr fun x hx hx' => (hmem x).resolve_right fun hf => ?_
        exact hf.2.2 ⟨c, .inr ⟨p, hc⟩, hop, hx, hx'⟩

theorem sim_store {addr : ℕ} {bytes : List UInt8} (h : Sim shared init s)
    (hv : Undisturbed shared s (.store addr bytes)) (hs : s.step (.store addr bytes) = some s') :
    Sim shared init s' := by
  obtain rfl := Option.some.inj hs
  refine h.frame ⟨rfl, rfl, rfl, rfl, rfl⟩ rfl rfl (fun _ => rfl) (fun x => ?_)
    (fun _ _ _ => rfl) le_rfl (fun t => (h.queues.tasks t).congr rfl rfl rfl)
    (fun _ _ _ hp => ⟨hp.task, hp.cq⟩)
  by_cases hx : addr ≤ x ∧ x < addr + bytes.length
  · exact .inr (free_spec h.queues hv hx.1 hx.2)
  · left
    simp only [Mem.write]
    rw [if_neg hx]

theorem sim_storeRemote {j addr : ℕ} {bytes : List UInt8} (h : Sim shared init s)
    (hv : Undisturbed shared s (.storeRemote j addr bytes))
    (hs : s.step (.storeRemote j addr bytes) = some s') : Sim shared init s' := by
  obtain rfl := Option.some.inj hs
  refine h.frame ⟨rfl, rfl, rfl, rfl, rfl⟩ rfl rfl (fun _ => rfl) (fun _ => .inl rfl)
    (fun i x hx => ?_) le_rfl (fun t => (h.queues.tasks t).congr rfl rfl rfl)
    (fun _ _ _ hp => ⟨hp.task, hp.cq⟩)
  by_cases hi : i = j
  · subst hi
    simp only [Function.update_self, Mem.write]
    rw [if_neg]
    rintro ⟨hx1, hx2⟩
    have hk := List.all_eq_true.mp hv (x - addr) (List.mem_range.mpr (by omega))
    rw [show addr + (x - addr) = x by omega, hx] at hk
    exact absurd hk (by decide)
  · simp [hi]

theorem sim_recv {t : ℕ} {status : IbvWcStatus} {bytes : List UInt8} (h : Sim shared init s)
    (hv : Undisturbed shared s (.recv t status bytes))
    (hs : s.step (.recv t status bytes) = some s') : Sim shared init s' := by
  obtain ⟨wr, rest, hrq, rfl⟩ := recvStep_some hs
  have hfree : free shared s wr.sge.addr bytes.length = true := by
    simpa [Undisturbed, undisturbed, hrq] using hv
  refine h.frame ⟨rfl, rfl, rfl, rfl, rfl⟩ rfl rfl (fun u => ?_) (fun x => ?_)
    (fun _ _ _ => rfl) le_rfl (fun u => ?_) (fun c p _ hp => ⟨hp.task, fun u wc hw hid => ?_⟩)
  · by_cases hut : u = t
    · subst hut; simp
    · simp [hut]
  · by_cases hx : wr.sge.addr ≤ x ∧ x < wr.sge.addr + bytes.length
    · exact .inr (free_spec h.queues hfree hx.1 hx.2)
    · left
      simp only [Mem.write]
      rw [if_neg hx]
  · by_cases hut : u = t
    · subst hut
      have hown := (h.queues.tasks u).rq wr (by simp [hrq])
      have hk : s.node.KeepsTasks { s.node.setQp u { s.node.qp u with
          rq := rest
          cq := (s.node.qp u).cq ++ [{ wrId := wr.wrId, status := status, opcode := .recv
                                       byteLen := bytes.length }] } with
          mem := s.node.mem.write wr.sge.addr bytes } := .same rfl rfl
      refine hk.tasksOk_of (h.queues.tasks u) (fun w hw => .inl ?_) (fun w hw => .inl ?_)
        (fun wc hw => ?_)
      · simp at hw; simp [hrq, hw]
      · simpa using hw
      · simp only [Node.setQp_qp, Function.update_self, List.mem_append, List.mem_singleton] at hw
        rcases hw with hw | rfl
        · exact .inl hw
        · exact .inr hown
    · exact (h.queues.tasks u).congr rfl rfl (by simp [hut])
  · by_cases hut : u = t
    · subst hut
      simp only [Node.setQp_qp, Function.update_self, List.mem_append, List.mem_singleton] at hw
      rcases hw with hw | rfl
      · exact hp.cq u wc hw hid
      · simp
    · exact hp.cq u wc (by simpa [hut] using hw) hid

theorem sim_poll {t : ℕ} (h : Sim shared init s) (hs : s.step (.poll t) = some s') :
    Sim shared init s' := by
  obtain ⟨wc, rest, hcq, -, -, rfl⟩ := pollStep_some hs
  obtain ⟨hfqp, hfnext, hftrans, hftable, hfmem, -⟩ :=
    dispatchWc_frame (s.node.setQp t { s.node.qp t with cq := rest }) wc
  have hsub : ∀ u, ∀ w ∈ ((s.node.setQp t { s.node.qp t with cq := rest }).qp u).cq,
      w ∈ (s.node.qp u).cq := by
    intro u w hw
    by_cases hut : u = t
    · subst hut
      simp at hw
      simp [hcq, hw]
    · simpa [hut] using hw
  have hsq : ∀ u, ((s.node.setQp t { s.node.qp t with cq := rest }).qp u).sq = (s.node.qp u).sq := by
    intro u
    by_cases hut : u = t
    · subst hut; simp
    · simp [hut]
  refine h.frame ⟨?_, dispatchWc_curnodeId _ wc, hftable, hftrans, rfl⟩ rfl rfl
    (fun u => by simp only [hfqp, hsq]) (fun x => .inl (by simp only [hfmem]; rfl))
    (fun _ _ _ => rfl) hfnext.ge (fun u => ?_)
    (fun c p _ hp => ⟨?_, fun u w hw hid => hp.cq u w (hsub u w (by simpa only [hfqp] using hw)) hid⟩)
  · rcases dispatchWc_cases (s.node.setQp t { s.node.qp t with cq := rest }) wc with
      he | ⟨-, -, he⟩ | ⟨-, -, he⟩ <;> simp only [he] <;> rfl
  · refine (dispatchWc_keepsTasks _ wc).tasksOk (by rw [hfqp]) ?_
    have hk : s.node.KeepsTasks (s.node.setQp t { s.node.qp t with cq := rest }) := .same rfl rfl
    refine hk.tasksOk_of (h.queues.tasks u) (fun w hw => .inl ?_) (fun w hw => .inl ?_)
      (fun w hw => .inl (hsub u w hw))
    · by_cases hut : u = t
      · subst hut; simpa using hw
      · simpa [hut] using hw
    · rwa [hsq] at hw
  · rcases dispatchWc_cases (s.node.setQp t { s.node.qp t with cq := rest }) wc with
      he | ⟨-, -, he⟩ | ⟨-, hop, he⟩ <;> simp only [he]
    · exact hp.task
    · exact hp.task
    · have hne : p ≠ wc.wrId := fun heq => hp.cq t wc (by simp [hcq]) heq.symm hop
      simpa [hne] using hp.task

theorem sim_ret (h : Sim shared init s) (hs : s.step .ret = some s') : Sim shared init s' := by
  obtain ⟨c, p, happ, hd, rfl⟩ := retStep_some hs
  have happok := h.app
  simp only [AppOk, happ] at happok
  obtain ⟨hcall, hop, -, hcase⟩ := happok
  have hdel : Delivered init s c := hcase.resolve_left fun hp => hp.task hd
  have hlen : (c.length % 2 ^ 32).toNat = c.length.toNat := by
    have := hcall.pos
    have := hcall.small
    omega
  have hflat : ∀ j, flat init (s.hist ++ [⟨.read, c.nodeId, c.addr, localBytes s.node c⟩]) j =
      flat init s.hist j := fun j => flat_other init s.hist (.inl rfl)
  refine ⟨h.queues.congr ⟨rfl, rfl, rfl, rfl, rfl⟩ (fun _ => rfl) h.queues.tasks,
    ⟨fun x hx => ?_, fun j hj hne t ht x hx => ?_⟩, h.log.concat fun _ => ?_, hdel.noReads⟩
  · rw [hflat]
    exact h.flat.own x hx
  · rw [hflat]
    exact h.flat.remote j hj hne t ht x hx
  · simp only [localBytes, hlen, Mem.read_length]
    exact hdel.bytes

/-! The adapter finishes the oldest request of `t`. -/

/-- The state behind a request of `t` that has been finished. -/
structure Finished (s s' : Transfer) (t : ℕ) (wr : IbvSendWr) (rest : List IbvSendWr) : Prop where
  wiring : SameWiring s s'
  app : s'.app = s.app
  hist : s'.hist = s.hist
  task : s'.node.task = s.node.task
  nextTask : s'.node.nextTask = s.node.nextTask
  before : (s.node.qp t).sq = wr :: rest
  sq : (s'.node.qp t).sq = rest
  cq : ∃ wc : IbvWc, wc.wrId = wr.wrId ∧ wc.opcode = wr.opcode.wc ∧
    (s'.node.qp t).cq = (s.node.qp t).cq ++ [wc]
  rq : (s'.node.qp t).rq = (s.node.qp t).rq
  others : ∀ u, u ≠ t → s'.node.qp u = s.node.qp u

theorem Finished.subset {t : ℕ} {wr : IbvSendWr} {rest : List IbvSendWr}
    (h : Finished s s' t wr rest) (u : ℕ) {w : IbvSendWr} (hw : w ∈ (s'.node.qp u).sq) :
    w ∈ (s.node.qp u).sq := by
  by_cases hut : u = t
  · subst hut
    rw [h.sq] at hw
    rw [h.before]
    exact List.mem_cons_of_mem _ hw
  · rwa [h.others u hut] at hw

theorem Finished.inSource {t : ℕ} {wr : IbvSendWr} {rest : List IbvSendWr}
    (h : Finished s s' t wr rest) {x : ℕ} : InSource s' x → InSource s x := by
  rintro ⟨u, w, hw, hx⟩
  exact ⟨u, w, h.subset u hw, hx⟩

theorem Finished.noReads {t : ℕ} {wr : IbvSendWr} {rest : List IbvSendWr}
    (h : Finished s s' t wr rest) {v : Option ℕ} (hn : NoReads s v) : NoReads s' v :=
  fun u hu w hw => hn u hu w (h.subset u hw)

theorem Finished.queues {t : ℕ} {wr : IbvSendWr} {rest : List IbvSendWr}
    (h : Finished s s' t wr rest) (hq : QueuesOk shared s) : QueuesOk shared s' where
  table := hq.table.congr h.wiring.table h.wiring.nextTrans
  far := by
    rw [h.wiring.nodeCnt, h.wiring.curnodeId, h.wiring.table, h.wiring.far]
    exact hq.far
  tasks := by
    intro u
    have hk : s.node.KeepsTasks s'.node := .same h.nextTask h.task
    by_cases hut : u = t
    · subst hut
      obtain ⟨wc, hid, -, hcq⟩ := h.cq
      refine hk.tasksOk_of (hq.tasks u) (fun w hw => .inl (h.rq ▸ hw))
        (fun w hw => .inl (h.subset u hw)) (fun w hw => ?_)
      rw [hcq, List.mem_append, List.mem_singleton] at hw
      rcases hw with hw | rfl
      · exact .inl hw
      · exact .inr (hid ▸ hk.owns ((hq.tasks u).sq wr (by simp [h.before])))
    · exact hk.tasksOk (h.others u hut) (hq.tasks u)
  beyond := by
    intro u hu
    rw [h.wiring.nextTrans] at hu
    have hnil := hq.beyond u hu
    have hut : u ≠ t := by
      rintro rfl
      simp [h.before] at hnil
    rw [h.others u hut, hnil]
  routed := by
    intro u w hw
    rw [h.wiring.nodeCnt, h.wiring.curnodeId, h.wiring.table]
    exact hq.routed u w (h.subset u hw)
  source := by
    intro x hx
    rw [h.wiring.curnodeId]
    exact hq.source x (h.inSource hx)

/-- A request that is no read keeps the call of the thread as it is. -/
theorem Finished.appOk {t : ℕ} {wr : IbvSendWr} {rest : List IbvSendWr}
    (h : Finished s s' t wr rest) (hop : wr.opcode ≠ .rdmaRead) (hmem : s'.node.mem = s.node.mem)
    (hi : AppOk shared init s) : AppOk shared init s' := by
  unfold AppOk at hi ⊢
  rw [h.app]
  cases hc : s.app with
  | idle =>
    rw [hc] at hi
    exact h.noReads hi
  | checking c =>
    rw [hc] at hi
    exact ⟨hi.1.congr h.wiring fun x => h.inSource, h.noReads hi.2⟩
  | waiting c p =>
    rw [hc] at hi
    obtain ⟨hcall, hread, hp, hcase⟩ := hi
    refine ⟨hcall.congr h.wiring fun x => h.inSource, hread, h.nextTask ▸ hp, ?_⟩
    rcases hcase with hpost | hdel
    · left
      obtain ⟨before, wr', hsq, hbefore, hwr'⟩ := hpost.last
      refine ⟨?_, h.noReads hpost.alone, h.task ▸ hpost.task, fun u wc hw hid => ?_⟩
      · by_cases hct : c.t = t
        · subst hct
          rw [h.before] at hsq
          cases before with
          | nil =>
            obtain ⟨rfl, -⟩ := List.cons.inj hsq
            exact absurd hwr'.1 hop
          | cons w before =>
            obtain ⟨rfl, hrest⟩ := List.cons.inj hsq
            exact ⟨before, wr', h.sq.trans hrest,
              fun w hw => hbefore w (List.mem_cons_of_mem _ hw), hwr'⟩
        · exact ⟨before, wr', by rw [h.others _ hct, hsq], hbefore, hwr'⟩
      · by_cases hut : u = t
        · subst hut
          obtain ⟨wc', -, hwc, hcq⟩ := h.cq
          rw [hcq, List.mem_append, List.mem_singleton] at hw
          rcases hw with hw | rfl
          · exact hpost.cq u wc hw hid
          · rw [hwc]
            cases ho : wr.opcode <;> simp [ho, IbvWrOpcode.wc] at hop ⊢
        · rw [h.others u hut] at hw
          exact hpost.cq u wc hw hid
    · right
      refine ⟨h.noReads hdel.noReads, ?_⟩
      rw [hmem, h.hist]
      exact hdel.bytes

/-- The writes queued for node `j`, on `u`, when the request has not changed what they read. -/
theorem Finished.pending_others {t : ℕ} {wr : IbvSendWr} {rest : List IbvSendWr}
    (h : Finished s s' t wr rest) (hmem : ∀ x, InSource s x → s'.node.mem x = s.node.mem x) {u : ℕ}
    (hut : u ≠ t) :
    pendingPuts s'.node.mem (s'.node.qp u).sq = pendingPuts s.node.mem (s.node.qp u).sq := by
  rw [h.others u hut]
  exact pendingPuts_congr hmem

theorem Finished.sim_send {t : ℕ} {wr : IbvSendWr} {rest : List IbvSendWr}
    (h : Finished s s' t wr rest) (hs : Sim shared init s) (hop : wr.opcode = .send)
    (hmem : s'.node.mem = s.node.mem) (hremote : s'.remote = s.remote) : Sim shared init s' := by
  refine ⟨h.queues hs.queues, ⟨fun x hx => ?_, fun j hj hne u hu x hx => ?_⟩, h.hist ▸ hs.log,
    h.appOk (by simp [hop]) hmem hs.app⟩
  · rw [h.wiring.curnodeId] at hx ⊢
    rw [hmem, h.hist]
    exact hs.flat.own x hx
  · rw [h.wiring.nodeCnt] at hj
    rw [h.wiring.curnodeId] at hne
    rw [h.wiring.table] at hu
    rw [h.hist, ← hs.flat.remote j hj hne u hu x hx, hremote]
    by_cases hut : u = t
    · subst hut
      rw [h.sq, h.before, pendingPuts_cons, hmem, if_neg (by simp [hop]), List.nil_append]
    · rw [h.pending_others (fun x _ => by rw [hmem]) hut]

/-- A write moves from the queue into the memory at the other end. -/
theorem Finished.sim_write {t : ℕ} {wr : IbvSendWr} {rest : List IbvSendWr}
    (h : Finished s s' t wr rest) (hs : Sim shared init s) (hop : wr.opcode = .rdmaWrite)
    (hmem : s'.node.mem = s.node.mem)
    (hremote : s'.remote = Function.update s.remote (s.far t) ((s.remote (s.far t)).write
      wr.remoteAddr (s.node.mem.read wr.sge.addr wr.sge.length))) : Sim shared init s' := by
  refine ⟨h.queues hs.queues, ⟨fun x hx => ?_, fun j hj hne u hu x hx => ?_⟩, h.hist ▸ hs.log,
    h.appOk (by simp [hop]) hmem hs.app⟩
  · rw [h.wiring.curnodeId] at hx ⊢
    rw [hmem, h.hist]
    exact hs.flat.own x hx
  · rw [h.wiring.nodeCnt] at hj
    rw [h.wiring.curnodeId] at hne
    rw [h.wiring.table] at hu
    rw [h.hist, ← hs.flat.remote j hj hne u hu x hx, hremote]
    by_cases hut : u = t
    · subst hut
      have hfar : s.far u = j := hs.queues.far j hj hne u hu
      rw [hfar, Function.update_self, h.sq, h.before, pendingPuts_cons, hmem, if_pos hop,
        List.singleton_append, Mem.puts_cons]
    · have hfar : j ≠ s.far t := by
        obtain ⟨j', hj', hne', ht⟩ := hs.queues.routed t wr (by simp [h.before]) hop
        rw [hs.queues.far j' hj' hne' t ht]
        rintro rfl
        exact hut (Option.some.inj (hu.symm.trans ht))
      rw [Function.update_of_ne hfar, h.pending_others (fun x _ => by rw [hmem]) hut]

/-- The oldest request of a queue is a read only if the thread waits for it, and it is alone there. -/
theorem Sim.oldest_read {t : ℕ} {wr : IbvSendWr} {rest : List IbvSendWr}
    (hs : Sim shared init s) (hsq : (s.node.qp t).sq = wr :: rest) (hop : wr.opcode = .rdmaRead) :
    ∃ c p, s.app = .waiting c p ∧ CallOk shared s c ∧ c.op = .read ∧ p < s.node.nextTask ∧
      Posted s c p ∧ t = c.t ∧ rest = [] ∧ wr.sge.addr = c.localAddr ∧
      wr.sge.length = c.length.toNat ∧ wr.remoteAddr = c.addr := by
  have hw : wr ∈ (s.node.qp t).sq := by simp [hsq]
  have hi := hs.app
  unfold AppOk at hi
  cases hc : s.app with
  | idle =>
    rw [hc] at hi
    exact absurd hop (hi t (by simp) wr hw)
  | checking c =>
    rw [hc] at hi
    exact absurd hop (hi.2 t (by simp) wr hw)
  | waiting c p =>
    rw [hc] at hi
    obtain ⟨hcall, hread, hp, hpost | hdel⟩ := hi
    · obtain rfl : t = c.t := by
        by_contra htc
        exact hpost.alone t (by simpa using htc) wr hw hop
      obtain ⟨before, wr', hlast, hbefore, -, hrest⟩ := hpost.last
      rw [hsq] at hlast
      cases before with
      | nil =>
        obtain ⟨rfl, hnil⟩ := List.cons.inj hlast
        exact ⟨c, p, rfl, hcall, hread, hp, hpost, rfl, hnil, hrest⟩
      | cons w before =>
        obtain ⟨rfl, -⟩ := List.cons.inj hlast
        exact absurd hop (hbefore wr (by simp))
    · exact absurd hop (hdel.noReads t (by simp) wr hw)

/-- A read is executed behind all writes to its node, and delivers what the flat memory holds. -/
theorem Finished.sim_read {t : ℕ} {wr : IbvSendWr} {rest : List IbvSendWr}
    (h : Finished s s' t wr rest) (hs : Sim shared init s) (hop : wr.opcode = .rdmaRead)
    (hmem : s'.node.mem = s.node.mem.write wr.sge.addr
      ((s.remote (s.far t)).read wr.remoteAddr wr.sge.length))
    (hremote : s'.remote = s.remote) : Sim shared init s' := by
  obtain ⟨c, p, happ, hcall, hread, hp, hpost, rfl, hrest, haddr, hlen, hraddr⟩ :=
    hs.oldest_read h.before hop
  have hfar : s.far c.t = c.nodeId := hs.queues.far _ hcall.lt hcall.ne _ hcall.table
  rw [haddr, hlen, hraddr, hfar] at hmem
  have hout : ∀ x, ¬ (c.localAddr ≤ x ∧ x < c.localAddr + c.length.toNat) →
      s'.node.mem x = s.node.mem x := by
    intro x hx
    rw [hmem]
    simp only [Mem.write, Mem.read_length]
    rw [if_neg hx]
  have hsrc : ∀ x, InSource s x → s'.node.mem x = s.node.mem x :=
    fun x hx => hout x fun hb => hcall.source hread x hb.1 hb.2 hx
  -- nothing is queued in front of the read
  have hflat : ∀ x, shared c.nodeId x = true →
      s.remote c.nodeId x = flat init s.hist c.nodeId x := by
    intro x hx
    rw [← hs.flat.remote _ hcall.lt hcall.ne _ hcall.table x hx, h.before, hrest, pendingPuts_cons,
      if_neg (by simp [hop])]
    rfl
  refine ⟨h.queues hs.queues, ⟨fun x hx => ?_, fun j hj hne u hu x hx => ?_⟩, h.hist ▸ hs.log, ?_⟩
  · rw [h.wiring.curnodeId] at hx ⊢
    rw [h.hist, ← hs.flat.own x hx]
    refine hout x fun hb => ?_
    rw [hcall.buffer x hb.1 hb.2] at hx
    exact absurd hx (by decide)
  · rw [h.wiring.nodeCnt] at hj
    rw [h.wiring.curnodeId] at hne
    rw [h.wiring.table] at hu
    rw [h.hist, ← hs.flat.remote j hj hne u hu x hx, hremote]
    by_cases hut : u = c.t
    · subst hut
      rw [h.sq, h.before, pendingPuts_cons, if_neg (by simp [hop]), hrest]
      rfl
    · rw [h.pending_others hsrc hut]
  · unfold AppOk
    rw [h.app, happ]
    refine ⟨hcall.congr h.wiring fun x => h.inSource, hread, h.nextTask ▸ hp, .inr ⟨?_, ?_⟩⟩
    · intro u _ w hw'
      by_cases hut : u = c.t
      · subst hut
        rw [h.sq, hrest] at hw'
        exact absurd hw' (by simp)
      · exact hpost.alone u (by simpa using hut) w (h.subset u hw')
    · have hself := Mem.read_write_self s.node.mem c.localAddr
        ((s.remote c.nodeId).read c.addr c.length.toNat)
      rw [Mem.read_length] at hself
      rw [hmem, hself, h.hist]
      exact Mem.read_congr fun x hx hx' => hflat x (hcall.range x hx hx')

theorem completeStep_finished {t : ℕ} {status : IbvWcStatus}
    (h : s.completeStep t status = some s') :
    ∃ wr rest, Finished s s' t wr rest ∧
      (status = .success → s'.node.mem = (s.transferData t wr).node.mem ∧
        s'.remote = (s.transferData t wr).remote) := by
  obtain ⟨wr, rest, mem, remote, hsq, hdata, -, rfl⟩ := completeStep_some h
  exact ⟨wr, rest, ⟨⟨rfl, rfl, rfl, rfl, rfl⟩, rfl, rfl, rfl, rfl, hsq, by simp,
    ⟨⟨wr.wrId, status, wr.opcode.wc, 0⟩, rfl, rfl, by simp⟩, by simp, fun u hu => by simp [hu]⟩,
    hdata⟩

theorem sim_complete {t : ℕ} {status : IbvWcStatus} (h : Sim shared init s)
    (hv : Undisturbed shared s (.complete t status)) (hs : s.step (.complete t status) = some s') :
    Sim shared init s' := by
  have hst : status = .success := by simpa [Undisturbed, undisturbed] using hv
  obtain ⟨wr, rest, hf, hdata⟩ := completeStep_finished hs
  obtain ⟨hmem, hremote⟩ := hdata hst
  cases hop : wr.opcode with
  | send =>
    exact hf.sim_send h hop (by rw [hmem]; simp [transferData, hop])
      (by rw [hremote]; simp [transferData, hop])
  | rdmaWrite =>
    exact hf.sim_write h hop (by rw [hmem]; simp [transferData, hop])
      (by rw [hremote]; simp [transferData, hop])
  | rdmaRead =>
    exact hf.sim_read h hop (by rw [hmem]; simp [transferData, hop])
      (by rw [hremote]; simp [transferData, hop])

/-! The thread posts a request on `t`. -/

/-- The state behind a request that has been posted. -/
structure Appended (s s' : Transfer) (t : ℕ) (wr : IbvSendWr) : Prop where
  wiring : SameWiring s s'
  mem : s'.node.mem = s.node.mem
  remote : s'.remote = s.remote
  adds : s.node.AddsTasks s'.node
  owns : s'.node.Owns t wr.wrId
  sq : (s'.node.qp t).sq = (s.node.qp t).sq ++ [wr]
  rq : ∀ u, (s'.node.qp u).rq = (s.node.qp u).rq
  cq : ∀ u, (s'.node.qp u).cq = (s.node.qp u).cq
  others : ∀ u, u ≠ t → (s'.node.qp u).sq = (s.node.qp u).sq

theorem Appended.cases {t : ℕ} {wr : IbvSendWr} (h : Appended s s' t wr) {u : ℕ} {w : IbvSendWr}
    (hw : w ∈ (s'.node.qp u).sq) : w ∈ (s.node.qp u).sq ∨ u = t ∧ w = wr := by
  by_cases hut : u = t
  · subst hut
    rw [h.sq, List.mem_append, List.mem_singleton] at hw
    exact hw.imp_right fun hw => ⟨rfl, hw⟩
  · rw [h.others u hut] at hw
    exact .inl hw

theorem Appended.queues {t : ℕ} {wr : IbvSendWr} (h : Appended s s' t wr)
    (hq : QueuesOk shared s) (ht : t < s.node.nextTrans)
    (hroute : ∃ j < s.node.config.nodeCnt, j ≠ s.node.config.curnodeId ∧
      s.node.connectTrans j = some t)
    (hsrc : ∀ x, wr.sge.addr ≤ x → x < wr.sge.addr + wr.sge.length →
      shared s.node.config.curnodeId x = false) : QueuesOk shared s' where
  table := hq.table.congr h.wiring.table h.wiring.nextTrans
  far := by
    rw [h.wiring.nodeCnt, h.wiring.curnodeId, h.wiring.table, h.wiring.far]
    exact hq.far
  tasks := by
    intro u
    refine h.adds.keeps.tasksOk_of (hq.tasks u) (fun w hw => .inl (h.rq u ▸ hw)) (fun w hw => ?_)
      (fun w hw => .inl (h.cq u ▸ hw))
    rcases h.cases hw with hw | ⟨rfl, rfl⟩
    · exact .inl hw
    · exact .inr h.owns
  beyond := by
    intro u hu
    rw [h.wiring.nextTrans] at hu
    rw [h.others u (by omega)]
    exact hq.beyond u hu
  routed := by
    intro u w hw hop
    rw [h.wiring.nodeCnt, h.wiring.curnodeId, h.wiring.table]
    rcases h.cases hw with hw | ⟨rfl, rfl⟩
    · exact hq.routed u w hw hop
    · exact hroute
  source := by
    rintro x ⟨u, w, hw, hop, hx⟩
    rw [h.wiring.curnodeId]
    rcases h.cases hw with hw | ⟨rfl, rfl⟩
    · exact hq.source x ⟨u, w, hw, hop, hx⟩
    · exact hsrc x hx.1 hx.2

/-- The queue of `t` gets the writes of the request, the others are as before. -/
theorem Appended.pending {t : ℕ} {wr : IbvSendWr} (h : Appended s s' t wr) (u : ℕ) :
    pendingPuts s'.node.mem (s'.node.qp u).sq =
      pendingPuts s.node.mem (s.node.qp u).sq ++
        if u = t then pendingPuts s.node.mem [wr] else [] := by
  rw [h.mem]
  by_cases hut : u = t
  · subst hut
    rw [h.sq, pendingPuts_append, if_pos rfl]
  · rw [h.others u hut, if_neg hut, List.append_nil]

theorem CallOk.length_mod {c : RemoteCall} (h : CallOk shared s c) :
    (c.length % 2 ^ 32).toNat = c.length.toNat := by
  have := h.pos
  have := h.small
  omega

theorem CallOk.lt_nextTrans {c : RemoteCall} (h : CallOk shared s c) (hq : QueuesOk shared s) :
    c.t < s.node.nextTrans := hq.table _ _ h.table

theorem appended_withPosted {c : RemoteCall} {type : TaskType} {opcode : IbvWrOpcode}
    (hnode : s'.node = withPosted s.node type opcode c.t c.localAddr c.addr c.length)
    (hremote : s'.remote = s.remote) (hfar : s'.far = s.far) :
    Appended s s' c.t (transferWr s.node opcode c.t c.localAddr c.addr c.length) := by
  have hadds := withTask_adds s.node type c.t c.localAddr c.length
  refine ⟨⟨by rw [hnode]; rfl, by rw [hnode]; rfl, by rw [hnode]; rfl, by rw [hnode]; rfl, hfar⟩,
    by rw [hnode]; rfl, hremote, by rw [hnode]; exact ⟨hadds.nextTask, hadds.task⟩, ?_, ?_, ?_, ?_,
    ?_⟩ <;> rw [hnode]
  · exact ⟨Nat.lt_succ_self _, by simp [withPosted, transferWr]⟩
  · simp [withPosted]
  all_goals
    intro u
    by_cases hu : u = c.t
    · subst hu; simp [withPosted]
    · simp [withPosted, hu]

/-- Where the thread stands after it has posted a read. -/
theorem sim_check_read {c : RemoteCall} (h : Sim shared init s) (happ : s.app = .checking c)
    (hop : c.op = .read) (hnode : s'.node = withPosted s.node .read .rdmaRead c.t c.localAddr c.addr
      c.length) (hremote : s'.remote = s.remote) (hfar : s'.far = s.far)
    (happ' : s'.app = .waiting c s.node.nextTask) (hhist : s'.hist = s.hist) :
    Sim shared init s' := by
  have hi := h.app
  simp only [AppOk, happ] at hi
  obtain ⟨hcall, hno⟩ := hi
  have ha := appended_withPosted hnode hremote hfar
  have hlen := hcall.length_mod
  refine ⟨ha.queues h.queues (hcall.lt_nextTrans h.queues) ⟨_, hcall.lt, hcall.ne, hcall.table⟩
      (fun x hx hx' => hcall.buffer x hx (hlen ▸ hx')), ⟨?_, ?_⟩, hhist ▸ h.log, ?_⟩
  · rw [ha.mem, ha.wiring.curnodeId, hhist]
    exact h.flat.own
  · rw [ha.wiring.nodeCnt, ha.wiring.curnodeId, ha.wiring.table, ha.remote, hhist]
    intro j hj hne t ht x hx
    rw [ha.pending, ← h.flat.remote j hj hne t ht x hx]
    split_ifs <;> simp [pendingPuts, transferWr]
  · have hsrc : ∀ x, InSource s' x → InSource s x := by
      rintro x ⟨u, w, hw, hwop, hx⟩
      rcases ha.cases hw with hw | ⟨rfl, rfl⟩
      · exact ⟨u, w, hw, hwop, hx⟩
      · exact absurd hwop (by simp [transferWr])
    unfold AppOk
    rw [happ']
    refine ⟨hcall.congr ha.wiring hsrc, hop, ha.owns.1, .inl ⟨⟨_, _, ha.sq, ?_, rfl, rfl, hlen, rfl⟩,
      ?_, ?_, ?_⟩⟩
    · exact fun w hw => hno c.t (by simp) w hw
    · intro u hu w hw
      rcases ha.cases hw with hw | ⟨rfl, rfl⟩
      · exact hno u (by simp) w hw
      · exact absurd rfl hu
    · rw [hnode]
      simp [withPosted]
    · intro u wc hw hid
      rw [ha.cq] at hw
      have := ((h.queues.tasks u).cq wc hw).1
      omega

/-- A posted write is in the flat memory at once. -/
theorem sim_check_write {c : RemoteCall} (h : Sim shared init s) (happ : s.app = .checking c)
    (hnode : s'.node = withPosted s.node .write .rdmaWrite c.t c.localAddr c.addr
      c.length) (hremote : s'.remote = s.remote) (hfar : s'.far = s.far)
    (happ' : s'.app = .idle)
    (hhist : s'.hist = s.hist ++ [⟨.write, c.nodeId, c.addr, localBytes s.node c⟩]) :
    Sim shared init s' := by
  have hi := h.app
  simp only [AppOk, happ] at hi
  obtain ⟨hcall, hno⟩ := hi
  have ha := appended_withPosted hnode hremote hfar
  have hlen := hcall.length_mod
  refine ⟨ha.queues h.queues (hcall.lt_nextTrans h.queues) ⟨_, hcall.lt, hcall.ne, hcall.table⟩
      (fun x hx hx' => hcall.buffer x hx (hlen ▸ hx')), ⟨?_, ?_⟩,
    hhist ▸ h.log.concat (fun hr => absurd hr (by simp)), ?_⟩
  · rw [ha.mem, ha.wiring.curnodeId, hhist, flat_other _ _ (.inr hcall.ne)]
    exact h.flat.own
  · rw [ha.wiring.nodeCnt, ha.wiring.curnodeId, ha.wiring.table, ha.remote, hhist]
    intro j hj hne t ht x hx
    have hx' := h.flat.remote j hj hne t ht x hx
    rw [ha.pending]
    by_cases hjc : j = c.nodeId
    · subst hjc
      obtain rfl : t = c.t := Option.some.inj (ht.symm.trans hcall.table)
      rw [if_pos rfl, Mem.puts_append, flat_write]
      have hone : pendingPuts s.node.mem
          [transferWr s.node .rdmaWrite c.t c.localAddr c.addr c.length] =
          [(c.addr, localBytes s.node c)] := by
        simp [pendingPuts, transferWr, localBytes]
      rw [hone, Mem.puts_cons, Mem.puts_nil]
      exact Mem.write_apply_congr _ _ hx'
    · have htc : t ≠ c.t := by
        rintro rfl
        exact hjc ((h.queues.far j hj hne _ ht).symm.trans
          (h.queues.far _ hcall.lt hcall.ne _ hcall.table))
      rw [if_neg htc, List.append_nil, hx', flat_other _ _ (.inr (Ne.symm hjc))]
  · unfold AppOk
    rw [happ']
    intro u hu w hw
    rcases ha.cases hw with hw | ⟨rfl, rfl⟩
    · exact hno u hu w hw
    · simp [transferWr]

theorem sim_check {o : PostOutcome} (h : Sim shared init s)
    (hv : Undisturbed shared s (.check o)) (hs : s.step (.check o) = some s') :
    Sim shared init s' := by
  have he : o.err = 0 := by simpa [Undisturbed, undisturbed] using hv
  obtain ⟨c, happ, hcase⟩ := checkStep_some hs
  have hi := h.app
  simp only [AppOk, happ] at hi
  -- the call gives up before it has a task
  have hgone : ∀ s₁ : Transfer, s₁ = { s with app := .idle } → Sim shared init s₁ := by
    rintro _ rfl
    exact ⟨h.queues.congr ⟨rfl, rfl, rfl, rfl, rfl⟩ (fun _ => rfl) h.queues.tasks,
      ⟨h.flat.own, h.flat.remote⟩, h.log, hi.2⟩
  rcases hcase with rfl | ⟨-, ⟨hop, hs'⟩ | ⟨hop, hs'⟩⟩
  · exact hgone _ rfl
  · cases ho : o.task
    · refine hgone s' ?_
      rw [hs', hmpRdmaReadPost_eq]
      simp [ho]
    · obtain rfl : o = {} := by cases o; simp_all
      rw [hmpRdmaReadPost_ok] at hs'
      exact sim_check_read h happ hop (by rw [hs']) (by rw [hs']) (by rw [hs']) (by rw [hs']; rfl)
        (by rw [hs'])
  · cases ho : o.task
    · refine hgone s' ?_
      rw [hs', hmpRdmaWritePost_eq]
      simp [ho]
    · obtain rfl : o = {} := by cases o; simp_all
      rw [hmpRdmaWritePost_ok] at hs'
      exact sim_check_write h happ (by rw [hs']) (by rw [hs']) (by rw [hs']) (by rw [hs'])
        (by rw [hs']; rfl)

/-! A call begins. -/

/-- What the caller provides. -/
structure CallArgs (shared : ℕ → ℕ → Bool) (s : Transfer) (op : TransferOp) (localAddr nodeId
    addr : ℕ) (length : ℤ) : Prop where
  pos : 0 < length
  small : length < 2 ^ 31
  range : ∀ x, addr ≤ x → x < addr + length.toNat → shared nodeId x = true
  buffer : ∀ x, localAddr ≤ x → x < localAddr + length.toNat →
    shared s.node.config.curnodeId x = false
  free : op = .read → free shared s localAddr length.toNat = true

theorem callArgs_of_undisturbed {op : TransferOp} {localAddr : ℕ} {hmAddr : BitVec 64} {length : ℤ}
    {r : ℕ × BitVec 64} (hv : Undisturbed shared s (.call op localAddr hmAddr length))
    (hr : hmpGetHmNodeId s.node.config.nodeCnt hmAddr = some r) :
    CallArgs shared s op localAddr r.1 r.2.toNat length := by
  have hv' := of_decide_eq_true hv
  rw [hr, Option.all_some, List.all_eq_true] at hv'
  obtain ⟨hpos, hsmall, hrange, hbuffer, hfree⟩ := hv'
  rw [List.all_eq_true] at hbuffer
  refine ⟨hpos, hsmall, fun x hx hx' => ?_, fun x hx hx' => ?_, hfree⟩
  · have hk := hrange (x - r.2.toNat) (List.mem_range.mpr (by omega))
    rwa [show r.2.toNat + (x - r.2.toNat) = x by omega] at hk
  · have hk := hbuffer (x - localAddr) (List.mem_range.mpr (by omega))
    rwa [show localAddr + (x - localAddr) = x by omega, Bool.not_eq_true'] at hk

theorem CallArgs.length_mod {op : TransferOp} {localAddr nodeId addr : ℕ} {length : ℤ}
    (h : CallArgs shared s op localAddr nodeId addr length) :
    (length % 2 ^ 64).toNat = length.toNat := by
  have := h.pos
  have := h.small
  omega

/-- The copy of a read of the own pool. -/
theorem sim_copy_read {localAddr addr : ℕ} {length : ℤ} (h : Sim shared init s)
    (happ : s.app = .idle)
    (ha : CallArgs shared s .read localAddr s.node.config.curnodeId addr length)
    {m : Mem} (hm : m = s.node.mem.write localAddr (s.node.mem.read addr length.toNat))
    (hs : s' = { s with
      node := { s.node with mem := m }
      hist := s.hist ++ [⟨.read, s.node.config.curnodeId, addr, m.read localAddr length.toNat⟩] }) :
    Sim shared init s' := by
  have hout : ∀ x, ¬ (localAddr ≤ x ∧ x < localAddr + length.toNat) → m x = s.node.mem x := by
    intro x hx
    rw [hm]
    simp only [Mem.write, Mem.read_length]
    rw [if_neg hx]
  have hsrc : ∀ x, InSource s x → m x = s.node.mem x :=
    fun x hx => hout x fun hb => (free_spec h.queues (ha.free rfl) hb.1 hb.2).2.1 hx
  have hflat : ∀ j, flat init s'.hist j = flat init s.hist j := by
    intro j
    rw [hs]
    exact flat_other init s.hist (.inl rfl)
  have hno : NoReads s none := by
    have hi := h.app
    simpa only [AppOk, happ] using hi
  subst hs
  refine ⟨h.queues.congr ⟨rfl, rfl, rfl, rfl, rfl⟩ (fun _ => rfl)
      (fun t => (h.queues.tasks t).congr rfl rfl rfl),
    ⟨fun x hx => ?_, fun j hj hne t ht x hx => ?_⟩, h.log.concat fun _ => ?_, ?_⟩
  · rw [hflat, ← h.flat.own x hx]
    refine hout x fun hb => ?_
    rw [ha.buffer x hb.1 hb.2] at hx
    exact absurd hx (by decide)
  · rw [hflat, ← h.flat.remote j hj hne t ht x hx]
    dsimp only
    rw [pendingPuts_congr hsrc]
  · have hself := Mem.read_write_self s.node.mem localAddr (s.node.mem.read addr length.toNat)
    rw [Mem.read_length] at hself
    simp only [Mem.read_length]
    rw [hm, hself]
    exact Mem.read_congr fun x hx hx' => h.flat.own x (ha.range x hx hx')
  · simp only [AppOk, happ]
    exact hno

/-- The copy of a write to the own pool. -/
theorem sim_copy_write {localAddr addr : ℕ} {length : ℤ} (h : Sim shared init s)
    (happ : s.app = .idle)
    (ha : CallArgs shared s .write localAddr s.node.config.curnodeId addr length)
    (hdis : addr + length.toNat ≤ localAddr ∨ localAddr + length.toNat ≤ addr)
    {m : Mem} (hm : m = s.node.mem.write addr (s.node.mem.read localAddr length.toNat))
    (hs : s' = { s with
      node := { s.node with mem := m }
      hist := s.hist ++ [⟨.write, s.node.config.curnodeId, addr,
        m.read localAddr length.toNat⟩] }) :
    Sim shared init s' := by
  have hsrc : ∀ x, InSource s x → m x = s.node.mem x := by
    intro x hx
    rw [hm]
    simp only [Mem.write, Mem.read_length]
    rw [if_neg]
    intro hb
    have hshared := ha.range x hb.1 hb.2
    rw [h.queues.source x hx] at hshared
    exact absurd hshared (by decide)
  have hbytes : m.read localAddr length.toNat = s.node.mem.read localAddr length.toNat := by
    rw [hm]
    exact Mem.read_write_of_disjoint _ _ (by simpa using hdis.symm)
  have hno : NoReads s none := by
    have hi := h.app
    simpa only [AppOk, happ] using hi
  subst hs
  refine ⟨h.queues.congr ⟨rfl, rfl, rfl, rfl, rfl⟩ (fun _ => rfl)
      (fun t => (h.queues.tasks t).congr rfl rfl rfl),
    ⟨fun x hx => ?_, fun j hj hne t ht x hx => ?_⟩, h.log.concat fun hr => absurd hr (by simp), ?_⟩
  · dsimp only
    rw [flat_write, hbytes, hm]
    exact Mem.write_apply_congr _ _ (h.flat.own x hx)
  · dsimp only
    rw [flat_other init s.hist (.inr (Ne.symm hne)), ← h.flat.remote j hj hne t ht x hx,
      pendingPuts_congr hsrc]
  · simp only [AppOk, happ]
    exact hno

theorem sim_call {op : TransferOp} {localAddr : ℕ} {hmAddr : BitVec 64} {length : ℤ}
    (h : Sim shared init s) (hv : Undisturbed shared s (.call op localAddr hmAddr length))
    (hs : s.step (.call op localAddr hmAddr length) = some s') : Sim shared init s' := by
  obtain ⟨happ, r, hr, ⟨mem, hacc, hs'⟩ | ⟨t, addr, hacc, hs'⟩⟩ := callStep_some hs
  · have ha := callArgs_of_undisturbed hv hr
    obtain ⟨r', hr', hcur, hcopy⟩ := access_copied hacc
    obtain rfl : r = r' := Option.some.inj (hr.symm.trans hr')
    rw [ha.length_mod, hcur] at hs'
    rw [hcur] at ha
    cases op with
    | read =>
      obtain ⟨-, hm⟩ := memcpy_some hcopy
      rw [ha.length_mod] at hm
      exact sim_copy_read h happ ha hm hs'
    | write =>
      obtain ⟨hdis, hm⟩ := memcpy_some hcopy
      rw [ha.length_mod] at hm hdis
      exact sim_copy_write h happ ha hdis hm hs'
  · have ha := callArgs_of_undisturbed hv hr
    obtain ⟨r', hr', hne, ht, rfl⟩ := access_remote hacc
    obtain rfl : r = r' := Option.some.inj (hr.symm.trans hr')
    have hno : NoReads s none := by
      have hi := h.app
      simpa only [AppOk, happ] using hi
    subst hs'
    refine ⟨h.queues.congr ⟨rfl, rfl, rfl, rfl, rfl⟩ (fun _ => rfl) h.queues.tasks,
      ⟨h.flat.own, h.flat.remote⟩, h.log, ⟨hmpGetHmNodeId_lt hr, hne, ht, ha.pos, ha.small,
        ha.range, ha.buffer, fun hop x hx hx' => ?_⟩, hno⟩
    exact (free_spec h.queues (ha.free hop) hx hx').2.1

theorem sim_step {e : TransferEvent} (h : Sim shared init s) (hv : Undisturbed shared s e)
    (hs : s.step e = some s') : Sim shared init s' := by
  cases e with
  | call op localAddr hmAddr length => exact sim_call h hv hs
  | check o => exact sim_check h hv hs
  | ret => exact sim_ret h hs
  | complete t status => exact sim_complete h hv hs
  | recv t status bytes => exact sim_recv h hv hs
  | poll t => exact sim_poll h hs
  | cm t e => exact absurd hv (by simp [Undisturbed, undisturbed])
  | loopExit =>
    obtain ⟨-, hs⟩ := Option.ite_none_right_eq_some.mp hs
    obtain rfl := Option.some.inj hs
    exact h.frame ⟨rfl, rfl, rfl, rfl, rfl⟩ rfl rfl (fun _ => rfl) (fun _ => .inl rfl)
      (fun _ _ _ => rfl) le_rfl h.queues.tasks (fun _ _ _ hp => ⟨hp.task, hp.cq⟩)
  | store addr bytes => exact sim_store h hv hs
  | storeRemote j addr bytes => exact sim_storeRemote h hv hs

theorem sim_start (h : Ready s) : Sim shared s.memOf s := by
  obtain ⟨happ, hhist, htable, hbeyond, htasks⟩ := h.start
  have hsends : ∀ t, pendingPuts s.node.mem (s.node.qp t).sq = [] := by
    intro t
    unfold pendingPuts
    rw [List.filterMap_eq_nil_iff]
    intro wr hw
    simp [h.sends t wr hw]
  have hsrc : ∀ x, ¬ InSource s x := by
    rintro x ⟨t, wr, hw, hop, -⟩
    rw [h.sends t wr hw] at hop
    exact absurd hop (by decide)
  refine ⟨⟨htable, fun j hj hne t ht => ?_, htasks, fun t ht => by simp [hbeyond t ht],
    fun t wr hw hop => ?_, fun x hx => absurd hx (hsrc x)⟩, ⟨fun x _ => ?_, fun j hj hne t ht x _ => ?_⟩,
    ?_, ?_⟩
  · obtain ⟨t', ht', hfar, -⟩ := h.conn j hj hne
    rwa [Option.some.inj (ht.symm.trans ht')]
  · rw [h.sends t wr hw] at hop
    exact absurd hop (by decide)
  · rw [hhist, flat_nil, memOf, if_pos rfl]
  · rw [hhist, flat_nil, memOf, if_neg hne, hsends, Mem.puts_nil]
  · rw [hhist]
    intro before e after heq
    exact absurd heq (by simp)
  · simp only [AppOk, happ]
    intro t _ wr hw
    rw [h.sends t wr hw]
    decide

/-- Every byte a finished read delivered is the last one that an earlier write of the same
sequence stored at its address, or the initial one. -/
theorem read_own_writes {s₀ s : Transfer} (h : Ready s₀)
    (hr : sys.Run (Undisturbed shared) s₀ s) {before after : List Accessed} {e : Accessed}
    (hhist : s.hist = before ++ e :: after) (hop : e.op = .read) {k : ℕ} {b : UInt8}
    (hb : e.bytes[k]? = some b) :
    b = (lastStored before e.nodeId (e.addr + k)).getD (s₀.memOf e.nodeId (e.addr + k)) := by
  have hsim : Sim shared s₀.memOf s :=
    hr.keeps (fun _ _ _ hi hv hst => sim_step hi hv hst) (sim_start h)
  have hbytes := congrArg (fun l : List UInt8 => l[k]?) (hsim.log before e after hhist hop)
  have hk := (List.getElem?_eq_some_iff.mp hb).1
  have hread := hbytes.symm.trans hb
  simp only [Mem.read, List.getElem?_map, List.getElem?_range hk, Option.map_some,
    Option.some.injEq] at hread
  exact hread.symm

instance (s : Transfer) (e : TransferEvent) : Decidable (Undisturbed shared s e) :=
  inferInstanceAs (Decidable (s.undisturbed shared e = true))

/-- Node 0 writes a byte to node 1 and reads it back. -/
theorem read_own_writes_run :
    ∃ s : Transfer, sys.Run (Undisturbed fun j x => j = 1 ∧ x = 4096) sampleTransfer s ∧
      s.hist = [⟨.write, 1, 4096, [7]⟩] ++ ⟨.read, 1, 4096, [7]⟩ :: [] ∧
      (7 : UInt8) = (lastStored [⟨.write, 1, 4096, [7]⟩] 1 4096).getD
        (sampleTransfer.memOf 1 4096) := by
  obtain ⟨s, hr, hhist⟩ := Sys.exists_run_of_replay sys
    (Undisturbed fun j x => j = 1 ∧ x = 4096) sampleTransfer
    [.store 4416 [7], .call .write 4416 (hmpGetHybridMempoolAddr 1 + BitVec.ofNat 64 4096) 1,
      .check {}, .call .read 4480 (hmpGetHybridMempoolAddr 1 + BitVec.ofNat 64 4096) 1,
      .check {}, .complete 0 .success, .complete 0 .success, .poll 0, .poll 0, .ret]
    (p := fun s => s.hist = [⟨.write, 1, 4096, [7]⟩] ++ ⟨.read, 1, 4096, [7]⟩ :: [])
    (by decide +kernel)
  exact ⟨s, hr, hhist, read_own_writes sampleTransfer_ready hr hhist rfl (k := 0) rfl⟩

end Transfer

end HMP
