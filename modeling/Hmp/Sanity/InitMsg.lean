import Hmp.Sanity.Steady

/-! The INIT message: its bytes, what `hmp_handle_mr_msg` reads from them, and the
slots that the handlers hand to the adapter. -/

namespace HMP

/-- The bytes of the INIT message of a process with this pool. -/
def initFrame (pool : HmpMempool) : List UInt8 :=
  le 4 MsgType.init.val ++ le 4 (8 + 8 + 4) ++ initPayload pool

def INIT_SIZE : ℕ := 28

/-- What the INIT message says about a pool. -/
def mrOf (pool : HmpMempool) : HmpMrInfo :=
  { addr := pool.baseAddr, length := pool.mr.length, rkey := pool.mr.rkey }

@[simp] theorem initPayload_length (pool : HmpMempool) : (initPayload pool).length = 20 := by
  simp [initPayload]

@[simp] theorem initFrame_length (pool : HmpMempool) : (initFrame pool).length = INIT_SIZE := by
  simp [initFrame, INIT_SIZE]

theorem frameBytes_init {nd : Node} {pool : HmpMempool} (h : nd.dramMempool = some pool) :
    frameBytes (hmpBuildInitMsg nd) = initFrame pool := by
  have hd : (List.range 20).map (fun k => (initPayload pool).getD k 0) = initPayload pool := by
    apply List.ext_getElem
    · simp
    · intro k h₁ h₂
      simp [List.getElem?_eq_getElem h₂]
  have h₁ : (((8 : ℤ) + 8 + 4) % 2 ^ 32).toNat = 8 + 8 + 4 := by decide
  have h₂ : (((8 : ℤ) + 8 + 4) % 2 ^ 64).toNat = 20 := by decide
  simp only [frameBytes, hmpBuildInitMsg, initFrame, h, Option.elim, h₁, h₂, hd]

/-- A received INIT message is taken for one, and its fields are those of the pool. -/
theorem initFrame_words {m : Mem} {a : ℕ} {pool : HmpMempool}
    (h : m.read a INIT_SIZE = initFrame pool) :
    m.word a 4 = MsgType.init.val ∧ m.word (a + HEADER_SIZE) 8 = pool.baseAddr ∧
      m.word (a + HEADER_SIZE + 8) 8 = pool.mr.length ∧
      m.word (a + HEADER_SIZE + 16) 4 = pool.mr.rkey := by
  have hb : pool.baseAddr < 256 ^ 8 := by
    have := pool.fits
    omega
  have hl : pool.mr.length < 256 ^ 8 := by
    have := pool.mr.length_lt
    omega
  have hr : pool.mr.rkey < 256 ^ 4 := by
    have := pool.mr.rkey_lt
    omega
  have hw : ∀ off w, off + w ≤ INIT_SIZE →
      m.word (a + off) w = leVal (((initFrame pool).drop off).take w) :=
    fun off w hn => Mem.word_of_read h hn
  have hf : initFrame pool = le 4 MsgType.init.val ++ (le 4 (8 + 8 + 4) ++
      (le 8 pool.baseAddr ++ (le 8 pool.mr.length ++ le 4 pool.mr.rkey))) := by
    simp [initFrame, initPayload]
  refine ⟨?_, ?_, ?_, ?_⟩
  · rw [show m.word a 4 = m.word (a + 0) 4 from rfl, hw 0 4 (by decide), hf, List.drop_zero,
      List.take_left' (by simp), leVal_le_of_lt (by decide)]
  · rw [hw HEADER_SIZE 8 (by decide), hf, ← List.append_assoc, List.drop_left' (by simp [HEADER_SIZE]),
      List.take_left' (by simp), leVal_le_of_lt hb]
  · rw [Nat.add_assoc, hw (HEADER_SIZE + 8) 8 (by decide), hf, ← List.append_assoc, ← List.append_assoc,
      List.drop_left' (by simp [HEADER_SIZE]), List.take_left' (by simp), leVal_le_of_lt hl]
  · rw [Nat.add_assoc, hw (HEADER_SIZE + 16) 4 (by decide), hf, ← List.append_assoc,
      ← List.append_assoc, ← List.append_assoc, List.drop_left' (by simp [HEADER_SIZE]),
      List.take_of_length_le (by simp), leVal_le_of_lt hr]

/-! ## Slots -/

namespace Node

/-- Different slots of the message area do not overlap. -/
theorem slot_disjoint (nd : Node) {p k q l : ℕ} (hk : k < 4) (hl : l < 4)
    (h : p ≠ q ∨ k ≠ l) :
    nd.slot p k + HMP_TASK_SIZE ≤ nd.slot q l ∨ nd.slot q l + HMP_TASK_SIZE ≤ nd.slot p k := by
  simp only [slot, HMP_TASK_SIZE]
  rcases Nat.lt_trichotomy p q with hp | hp | hp
  · left
    have : p * 4 * 40 + 160 ≤ q * 4 * 40 := by omega
    omega
  · subst hp
    rcases h with h | h
    · exact absurd rfl h
    · omega
  · right
    have : q * 4 * 40 + 160 ≤ p * 4 * 40 := by omega
    omega

/-- The slots of the nodes of a cluster lie in the message area. -/
theorem slot_msgArea (nd : Node) {p k n : ℕ} (hp : p < n) (hk : k < 4) :
    nd.baseAddr ≤ nd.slot p k ∧ nd.slot p k + HMP_TASK_SIZE ≤ nd.baseAddr + msgArea n := by
  simp only [slot, msgArea, HMP_TASK_SIZE]
  omega

/-- A receive of `t` into a slot of peer `j`, with the task that it names. -/
structure RecvFor (nd : Node) (t j : ℕ) (wr : IbvRecvWr) : Prop where
  task : wr.wrId < nd.nextTask
  sge : (nd.task wr.wrId).sge = wr.sge
  trans : (nd.task wr.wrId).rdmaTrans = t
  addr : ∃ r < 3, wr.sge.addr = nd.slot j (r + 1)

/-- The send of the own INIT message to peer `j`. -/
structure SendFor (nd : Node) (pool : HmpMempool) (j : ℕ) (wr : IbvSendWr) : Prop where
  opcode : wr.opcode = .send
  addr : wr.sge.addr = nd.slot j 0
  length : wr.sge.length = INIT_SIZE
  bytes : nd.mem.read (nd.slot j 0) INIT_SIZE = initFrame pool

/-- The tasks there are keep their buffer and their transport. -/
structure KeepsBuffers (nd nd' : Node) : Prop where
  nextTask : nd.nextTask ≤ nd'.nextTask
  sge : ∀ p < nd.nextTask, (nd'.task p).sge = (nd.task p).sge
  trans : ∀ p < nd.nextTask, (nd'.task p).rdmaTrans = (nd.task p).rdmaTrans

theorem AddsTasks.keepsBuffers {nd nd' : Node} (h : nd.AddsTasks nd') : nd.KeepsBuffers nd' :=
  ⟨h.nextTask, fun p hp => by rw [h.task p hp], fun p hp => by rw [h.task p hp]⟩

theorem KeepsBuffers.recvFor {nd nd' : Node} (h : nd.KeepsBuffers nd') (hs : nd'.slot = nd.slot)
    {t j : ℕ} {wr : IbvRecvWr} (hr : nd.RecvFor t j wr) : nd'.RecvFor t j wr :=
  ⟨hr.task.trans_le h.nextTask, (h.sge _ hr.task).trans hr.sge, (h.trans _ hr.task).trans hr.trans,
    hs ▸ hr.addr⟩

end Node

@[simp] theorem hmpPostRecv_mem (nd : Node) (t : ℕ) (o : PostOutcome) :
    (hmpPostRecv nd t o).mem = nd.mem := by
  unfold hmpPostRecv
  split_ifs <;> rfl

theorem hmpPostSend_mem (nd : Node) (t : ℕ) (msg : HmpMsg) (o : PostOutcome) :
    (hmpPostSend nd t msg o).mem =
      if o.task then nd.mem.write (nd.trans t).region.sendAddr (frameBytes msg) else nd.mem := by
  unfold hmpPostSend
  split_ifs <;> rfl

/-- A posted receive points at the next slot of the peer of its transport. -/
theorem hmpPostRecv_recvFor {nd : Node} {t j : ℕ} (o : PostOutcome) (hl : nd.Located t j)
    (hc : (nd.trans t).region.curRecv < 3) (u : ℕ) :
    ∀ wr ∈ ((hmpPostRecv nd t o).qp u).rq, wr ∈ (nd.qp u).rq ∨
      u = t ∧ (hmpPostRecv nd t o).RecvFor t j wr := by
  intro wr hw
  rw [hmpPostRecv_qp] at hw
  split_ifs at hw with ho
  · by_cases hut : u = t
    · subst hut
      rw [Function.update_self, List.mem_append, List.mem_singleton] at hw
      rcases hw with hw | rfl
      · exact .inl hw
      · have hown := hmpPostRecv_owns nd u o ho.1
        have hs : (hmpPostRecv nd u o).slot = nd.slot := (hmpPostRecv_steady nd u o).slot_eq
        refine .inr ⟨rfl, hown.1, rfl, hown.2, _, hc, ?_⟩
        rw [hmpPostRecv_task nd u o ho.1, hs, hl.recvAddr]
        simp only [Node.slot, HMP_TASK_SIZE]
        omega
    · exact .inl (by rwa [Function.update_of_ne hut] at hw)
  · exact .inl hw

theorem hmpPrePostRecv_recvFor {nd : Node} {t j : ℕ} (o₁ o₂ : PostOutcome) (hl : nd.Located t j)
    (hc : (nd.trans t).region.curRecv < 3) (u : ℕ) :
    ∀ wr ∈ ((hmpPrePostRecv nd t o₁ o₂).qp u).rq, wr ∈ (nd.qp u).rq ∨
      u = t ∧ (hmpPrePostRecv nd t o₁ o₂).RecvFor t j wr := by
  intro wr hw
  have hst := hmpPostRecv_steady nd t o₁
  have hst₂ := hmpPostRecv_steady (hmpPostRecv nd t o₁) t o₂
  rcases hmpPostRecv_recvFor o₂ (hst.located hl) (hst.curRecv_lt hc) u wr hw with hw | hw
  · rcases hmpPostRecv_recvFor o₁ hl hc u wr hw with hw | ⟨hu, hw⟩
    · exact .inl hw
    · have hk := (hmpPostRecv_addsTasks (hmpPostRecv nd t o₁) t o₂).keepsBuffers
      exact .inr ⟨hu, hk.recvFor hst₂.slot_eq hw⟩
  · exact .inr hw

/-- The queues of `u` in `nd'` hold what they held in `nd`, receives for peer `j` and the
INIT message to it, and the memory changes in its send slot only. -/
structure Node.HandsOver (nd nd' : Node) (t j : ℕ) : Prop where
  rq : ∀ u, ∀ wr ∈ (nd'.qp u).rq, wr ∈ (nd.qp u).rq ∨ u = t ∧ nd'.RecvFor t j wr
  sq : ∀ u, ∀ wr ∈ (nd'.qp u).sq, wr ∈ (nd.qp u).sq ∨
    u = t ∧ ∃ pool, nd.dramMempool = some pool ∧ nd'.SendFor pool j wr
  cq : ∀ u, ∀ wc ∈ (nd'.qp u).cq, wc ∈ (nd.qp u).cq
  mem : nd'.mem = nd.mem ∨ ∃ pool, nd.dramMempool = some pool ∧
    nd'.mem = nd.mem.write (nd.slot j 0) (initFrame pool)
  buffers : nd.KeepsBuffers nd'

theorem Node.HandsOver.refl (nd : Node) (t j : ℕ) : nd.HandsOver nd t j where
  rq := fun _ _ hw => .inl hw
  sq := fun _ _ hw => .inl hw
  cq := fun _ _ hw => hw
  mem := .inl rfl
  buffers := ⟨le_rfl, fun _ _ => rfl, fun _ _ => rfl⟩

/-- The queues of a transport stay, or lose what they hold. -/
theorem Node.HandsOver.of_clear {nd nd₁ nd' : Node} {t j : ℕ} (h : nd.HandsOver nd₁ t j)
    (hq : ∀ u, (nd'.qp u).rq = (nd₁.qp u).rq ∧ (nd'.qp u).sq = (nd₁.qp u).sq ∧
        (nd'.qp u).cq = (nd₁.qp u).cq ∨
      (nd'.qp u).rq = [] ∧ (nd'.qp u).sq = [] ∧ (nd'.qp u).cq = [])
    (hm : nd'.mem = nd₁.mem) (hn : nd'.nextTask = nd₁.nextTask) (ht : nd'.task = nd₁.task)
    (hs : nd'.slot = nd₁.slot) : nd.HandsOver nd' t j := by
  have hk : nd₁.KeepsBuffers nd' := ⟨hn.ge, fun p _ => by rw [ht], fun p _ => by rw [ht]⟩
  refine ⟨fun u wr hw => ?_, fun u wr hw => ?_, fun u wc hw => ?_, ?_, ?_⟩
  · rcases hq u with ⟨he, -, -⟩ | ⟨he, -, -⟩
    · exact (h.rq u wr (he ▸ hw)).imp_right fun hr => ⟨hr.1, hk.recvFor hs hr.2⟩
    · simp [he] at hw
  · rcases hq u with ⟨-, he, -⟩ | ⟨-, he, -⟩
    · refine (h.sq u wr (he ▸ hw)).imp_right fun hr => ⟨hr.1, ?_⟩
      obtain ⟨pool, hp, ho, ha, hl, hb⟩ := hr.2
      exact ⟨pool, hp, ho, by rw [hs, ha], hl, by rw [hm, hs, hb]⟩
    · simp [he] at hw
  · rcases hq u with ⟨-, -, he⟩ | ⟨-, -, he⟩
    · exact h.cq u wc (he ▸ hw)
    · simp [he] at hw
  · rw [hm]
    exact h.mem
  · exact ⟨h.buffers.nextTask.trans hn.ge, fun p hp => by rw [ht, h.buffers.sge p hp],
      fun p hp => by rw [ht, h.buffers.trans p hp]⟩

/-- A queue pair starts with empty queues. -/
theorem Node.HandsOver.of_setQp {nd nd' : Node} {t j : ℕ} {q : VerbsQp}
    (h : (nd.setQp t q).HandsOver nd' t j) (hr : q.rq = []) (hs : q.sq = []) (hc : q.cq = []) :
    nd.HandsOver nd' t j := by
  have hq : ∀ u, (nd.setQp t q).qp u = nd.qp u ∨ (nd.setQp t q).qp u = q := by
    intro u
    by_cases hut : u = t
    · subst hut
      exact .inr (by simp)
    · exact .inl (by simp [hut])
  refine ⟨fun u wr hw => (h.rq u wr hw).imp_left fun hw => ?_,
    fun u wr hw => (h.sq u wr hw).imp_left fun hw => ?_, fun u wc hw => ?_, h.mem,
    ⟨h.buffers.nextTask, h.buffers.sge, h.buffers.trans⟩⟩
  · rcases hq u with he | he
    · exact he ▸ hw
    · simp [he, hr] at hw
  · rcases hq u with he | he
    · exact he ▸ hw
    · simp [he, hs] at hw
  · rcases hq u with he | he
    · exact he ▸ h.cq u wc hw
    · have := h.cq u wc hw
      simp [he, hc] at this

theorem hmpPrePostRecv_handsOver {nd : Node} {t j : ℕ} (o₁ o₂ : PostOutcome)
    (hl : nd.Located t j) (hc : (nd.trans t).region.curRecv < 3) :
    nd.HandsOver (hmpPrePostRecv nd t o₁ o₂) t j := by
  have hs := fun u => (hmpPostRecv_grows nd u t o₁).trans (hmpPostRecv_grows _ u t o₂)
  refine ⟨hmpPrePostRecv_recvFor o₁ o₂ hl hc, fun u wr hw => .inl ?_, fun u wc hw => ?_,
    .inl (by simp [hmpPrePostRecv]), (hs 0).adds.keepsBuffers⟩
  · rw [hmpPrePostRecv, hmpPostRecv_sq, hmpPostRecv_sq] at hw
    exact hw
  · rw [hmpPrePostRecv, (hs u).cq] at hw
    exact hw

/-- The task of the INIT message: the send slot and the length of the frame. -/
theorem hmpPostSend_task (nd : Node) (t : ℕ) (msg : HmpMsg) (o : PostOutcome)
    (h : o.task = true) :
    ((hmpPostSend nd t msg o).task nd.nextTask).sge =
      { addr := (nd.trans t).region.sendAddr
        length := ((HEADER_SIZE + msg.dataSize) % 2 ^ 32).toNat, lkey := nd.lkey } := by
  unfold hmpPostSend
  rw [if_pos h]
  split_ifs <;> simp [hmpSendTaskCreate, taskLkey, Node.lkey, Node.allocTask]

theorem hmpPostSend_handsOver {nd : Node} {t j : ℕ} {pool : HmpMempool} (o : PostOutcome)
    (hl : nd.Located t j) (hp : nd.dramMempool = some pool) :
    nd.HandsOver (hmpPostSend nd t (hmpBuildInitMsg nd) o) t j := by
  have hf := frameBytes_init hp
  have hm := hmpPostSend_mem nd t (hmpBuildInitMsg nd) o
  rw [hl.sendAddr, hf] at hm
  have hs : (hmpPostSend nd t (hmpBuildInitMsg nd) o).slot = nd.slot :=
    (hmpPostSend_steady nd t _ o).slot_eq
  have hg := fun u => hmpPostSend_grows nd u t (hmpBuildInitMsg nd) o
  refine ⟨fun u wr hw => .inl ?_, fun u wr hw => ?_, fun u wc hw => ?_, ?_,
    (hg 0).adds.keepsBuffers⟩
  · rw [hmpPostSend_qp] at hw
    split_ifs at hw
    · by_cases hut : u = t
      · subst hut
        rwa [Function.update_self] at hw
      · rwa [Function.update_of_ne hut] at hw
    · exact hw
  · rw [hmpPostSend_qp] at hw
    split_ifs at hw with ho
    · by_cases hut : u = t
      · subst hut
        rw [Function.update_self, List.mem_append, List.mem_singleton] at hw
        refine hw.imp_right fun he => ⟨rfl, pool, hp, ?_⟩
        have ht := hmpPostSend_task nd u (hmpBuildInitMsg nd) o ho.1
        have hlen : (((HEADER_SIZE : ℤ) + (hmpBuildInitMsg nd).dataSize) % 2 ^ 32).toNat =
            INIT_SIZE := by
          change (((HEADER_SIZE : ℤ) + (8 + 8 + 4)) % 2 ^ 32).toNat = INIT_SIZE
          decide
        rw [if_pos ho.1] at hm
        subst he
        refine ⟨rfl, ?_, ?_, ?_⟩
        · rw [ht, hs, hl.sendAddr]
        · rw [ht]
          exact hlen
        · rw [hm, hs, ← initFrame_length pool]
          exact Mem.read_write_self _ _ _
      · rw [Function.update_of_ne hut] at hw
        exact .inl hw
    · exact .inl hw
  · rw [(hg u).cq] at hw
    exact hw
  · rw [hm]
    split_ifs
    · exact .inr ⟨pool, hp, rfl⟩
    · exact .inl rfl

theorem onCmRouteResolved_handsOver {nd : Node} {t j : ℕ} (o : RouteOutcome) (hl : nd.Located t j)
    (hc : (nd.trans t).region.curRecv < 3) : nd.HandsOver (onCmRouteResolved nd t o).1 t j := by
  have hp : nd.HandsOver (hmpPrePostRecv (nd.setQp t { live := true, registered := true }) t
      o.recv₁ o.recv₂) t j := by
    have hl' : (nd.setQp t { live := true, registered := true }).Located t j :=
      ⟨hl.nodeId, hl.sendAddr, hl.recvAddr⟩
    exact (hmpPrePostRecv_handsOver o.recv₁ o.recv₂ hl' hc).of_setQp rfl rfl rfl
  rcases onCmRouteResolved_cases nd t o with ⟨-, he⟩ | ⟨-, -, he⟩ | ⟨-, -, he⟩ <;> rw [he]
  · exact .refl nd t j
  · refine hp.of_clear (fun u => ?_) ?_ ?_ ?_ ?_
    · simp only [Node.setState_qp, hmpQpRelease_qp]
      split_ifs
      · by_cases hut : u = t
        · subst hut
          rw [Function.update_self]
          exact .inr ⟨rfl, rfl, rfl⟩
        · rw [Function.update_of_ne hut]
          exact .inl ⟨rfl, rfl, rfl⟩
      · exact .inl ⟨rfl, rfl, rfl⟩
    all_goals
      unfold hmpQpRelease
      split_ifs <;> rfl
  · exact hp

theorem onCmEstablished_handsOver {nd : Node} {t j : ℕ} (peer : SockAddr) (o : PostOutcome)
    (hl : nd.Located t j) (hp : nd.dramMempool ≠ none) :
    nd.HandsOver (onCmEstablished nd t peer o).1 t j := by
  obtain ⟨pool, hp⟩ := Option.ne_none_iff_exists'.mp hp
  have hl' : (nd.setTrans t { nd.trans t with peerAddr := peer }).Located t j := by
    have hst := Node.Steady.of_setTrans nd t (x := { nd.trans t with peerAddr := peer }) rfl rfl rfl
    exact hst.located hl
  obtain ⟨h₁, h₂, h₃, h₄, h₅⟩ := hmpPostSend_handsOver o hl' hp
  exact ⟨h₁, h₂, h₃, h₄, h₅.nextTask, h₅.sge, h₅.trans⟩

/-- The other handlers of CM events leave memory, tasks and queues alone. -/
theorem hmpHandleEcEvent_quiet (nd : Node) (t : ℕ) {e : CmEvent} (h₁ : e.type ≠ .connectRequest)
    (h₂ : e.type ≠ .routeResolved) (h₃ : e.type ≠ .established) :
    (hmpHandleEcEvent nd t e).1.mem = nd.mem ∧ (hmpHandleEcEvent nd t e).1.task = nd.task ∧
      (hmpHandleEcEvent nd t e).1.nextTask = nd.nextTask ∧
      ∀ u, ((hmpHandleEcEvent nd t e).1.qp u).rq = (nd.qp u).rq ∧
        ((hmpHandleEcEvent nd t e).1.qp u).sq = (nd.qp u).sq ∧
        ((hmpHandleEcEvent nd t e).1.qp u).cq = (nd.qp u).cq := by
  cases e with
  | addrResolved verbs route =>
    rw [hmpHandleEcEvent, onCmAddrResolved_eq]
    exact ⟨rfl, rfl, rfl, fun u => ⟨rfl, rfl, rfl⟩⟩
  | routeResolved o => exact absurd rfl h₂
  | connectRequest cm peerAddr o => exact absurd rfl h₁
  | established peer o => exact absurd rfl h₃
  | disconnected =>
    refine ⟨rfl, rfl, rfl, fun u => ?_⟩
    by_cases hut : u = t
    · subst hut
      simp [hmpHandleEcEvent, onCmDisconnected]
    · simp [hmpHandleEcEvent, onCmDisconnected, hut]
  | other type =>
    obtain ⟨type, _⟩ := type
    cases type <;> exact ⟨rfl, rfl, rfl, fun u => ⟨rfl, rfl, rfl⟩⟩

end HMP
