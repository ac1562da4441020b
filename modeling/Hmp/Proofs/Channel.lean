import Hmp.Sanity.Channel
import Hmp.Sanity.InitMsg

/-! The messages of a channel: those decoded, those in the receive slots, those on the wire and
those in the send slot are, in this order, what was sent. -/

namespace HMP

/-- The slots of the outstanding receives of `u`, the oldest first. -/
def slotsOf (nd : Node) (u : ℕ) : List ℕ :=
  (nd.qp u).cq.map (fun wc => (nd.task wc.wrId).sge.addr) ++
    (nd.qp u).rq.map fun wr => (nd.task wr.wrId).sge.addr

/-- The slot that the next receive of `u` gets. -/
def ringSlot (nd : Node) (u : ℕ) : ℕ :=
  (nd.trans u).region.recvAddr + (nd.trans u).region.curRecv * HMP_TASK_SIZE

/-- The outstanding receives use different slots of the ring. -/
structure RecvRing (nd : Node) (u : ℕ) : Prop where
  tasks : nd.TasksOk u
  sge : ∀ wr ∈ (nd.qp u).rq, wr.sge = (nd.task wr.wrId).sge
  nodup : (slotsOf nd u).Nodup
  slots : ∀ a ∈ slotsOf nd u, ∃ k, a = (nd.trans u).region.recvAddr + k * HMP_TASK_SIZE

variable {nd nd' : Node} {u : ℕ}

theorem RecvRing.apart (h : RecvRing nd u) {a b : ℕ} (ha : a ∈ slotsOf nd u)
    (hb : b ∈ slotsOf nd u) (hab : a ≠ b) : a + HMP_TASK_SIZE ≤ b ∨ b + HMP_TASK_SIZE ≤ a := by
  obtain ⟨k, rfl⟩ := h.slots a ha
  obtain ⟨l, rfl⟩ := h.slots b hb
  simp only [HMP_TASK_SIZE] at hab ⊢
  omega

/-- New tasks do not move the slots. -/
theorem slots_congr (h : nd.AddsTasks nd') (ht : nd.TasksOk u) :
    (nd.qp u).cq.map (fun wc => (nd'.task wc.wrId).sge.addr) ++
      (nd.qp u).rq.map (fun wr => (nd'.task wr.wrId).sge.addr) = slotsOf nd u := by
  unfold slotsOf
  congr 1 <;> refine List.map_congr_left fun w hw => ?_
  · rw [h.task _ (ht.cq w hw).1]
  · rw [h.task _ (ht.rq w hw).1]

theorem slotsOf_postRecv (ht : nd.TasksOk u) (o : PostOutcome) :
    slotsOf (hmpPostRecv nd u o) u =
      slotsOf nd u ++ if o.task = true ∧ o.err = 0 then [ringSlot nd u] else [] := by
  have ha := hmpPostRecv_addsTasks nd u o
  have hq := congrFun (hmpPostRecv_qp nd u o) u
  split_ifs at hq ⊢ with ho
  · rw [Function.update_self] at hq
    rw [← slots_congr ha ht, slotsOf, hq, List.map_append, ← List.append_assoc]
    simp [hmpPostRecv_task nd u o ho.1, ringSlot]
  · rw [← slots_congr ha ht, slotsOf, hq, List.append_nil]

theorem RecvRing.postRecv (h : RecvRing nd u) (o : PostOutcome)
    (hfree : ringSlot nd u ∉ slotsOf nd u) : RecvRing (hmpPostRecv nd u o) u where
  tasks := hmpPostRecv_tasksOk u o h.tasks
  sge wr hw := by
    have hq := congrFun (hmpPostRecv_qp nd u o) u
    split_ifs at hq with ho
    · rw [hq, Function.update_self, List.mem_append, List.mem_singleton] at hw
      rcases hw with hw | rfl
      · rw [(hmpPostRecv_addsTasks nd u o).task _ (h.tasks.rq wr hw).1]
        exact h.sge wr hw
      · rfl
    · rw [hq] at hw
      rw [(hmpPostRecv_addsTasks nd u o).task _ (h.tasks.rq wr hw).1]
      exact h.sge wr hw
  nodup := by
    rw [slotsOf_postRecv h.tasks]
    split_ifs
    · refine h.nodup.append (List.nodup_singleton _) ?_
      simpa using hfree
    · simpa using h.nodup
  slots a ha := by
    have hr : ((hmpPostRecv nd u o).trans u).region.recvAddr = (nd.trans u).region.recvAddr :=
      (hmpPostRecv_steady nd u o).recvAddr
    rw [slotsOf_postRecv h.tasks, List.mem_append] at ha
    rw [hr]
    rcases ha with ha | ha
    · exact h.slots a ha
    · split_ifs at ha
      · exact ⟨_, List.mem_singleton.mp ha⟩
      · simp at ha

/-- The receives of the setup. -/
theorem recvRing_setup (o₁ o₂ : PostOutcome) (hq : nd.qp u = { live := true, registered := true })
    (hc : (nd.trans u).region.curRecv = 0) : RecvRing (hmpPrePostRecv nd u o₁ o₂) u := by
  have hs : slotsOf nd u = [] := by simp [slotsOf, hq]
  have h₀ : RecvRing nd u :=
    ⟨by constructor <;> simp [hq], by simp [hq], by simp [hs], by simp [hs]⟩
  refine (h₀.postRecv o₁ (by simp [hs])).postRecv o₂ ?_
  rw [slotsOf_postRecv h₀.tasks, hs]
  have ht := congrFun (hmpPostRecv_trans nd u o₁) u
  by_cases h : o₁.task = true ∧ o₁.err = 0
  · rw [if_pos h.1, Function.update_self] at ht
    simp [ringSlot, ht, hc, HMP_TASK_SIZE]
  · simp [h]

/-- The oldest receive completes, or the oldest completion is polled: the slots stay in order. -/
theorem RecvRing.congr (h : RecvRing nd u) (hn : nd'.nextTask = nd.nextTask)
    (htask : nd'.task = nd.task) (hrq : ∀ wr ∈ (nd'.qp u).rq, wr ∈ (nd.qp u).rq)
    (hsq : (nd'.qp u).sq = (nd.qp u).sq)
    (hcq : ∀ wc ∈ (nd'.qp u).cq, wc ∈ (nd.qp u).cq ∨ ∃ wr ∈ (nd.qp u).rq, wc.wrId = wr.wrId)
    (hs : (slotsOf nd' u).Sublist (slotsOf nd u))
    (hr : (nd'.trans u).region.recvAddr = (nd.trans u).region.recvAddr) : RecvRing nd' u where
  tasks := by
    have hk : nd.KeepsTasks nd' := .same hn htask
    refine hk.tasksOk_of h.tasks (fun wr hw => .inl (hrq wr hw)) (fun wr hw => .inl (hsq ▸ hw))
      fun wc hw => (hcq wc hw).imp id ?_
    rintro ⟨wr, hw, he⟩
    exact he ▸ hk.owns (h.tasks.rq wr hw)
  sge wr hw := by rw [htask]; exact h.sge wr (hrq wr hw)
  nodup := h.nodup.sublist hs
  slots a ha := hr ▸ h.slots a (hs.subset ha)

/-- A receive completion stores into the table and into `trans_state` only. -/
theorem dispatchWc_recv (nd : Node) {wc : IbvWc} (ho : wc.opcode = .recv) :
    (dispatchWc nd wc).task = nd.task ∧ (dispatchWc nd wc).mem = nd.mem ∧
      (dispatchWc nd wc).qp = nd.qp ∧ (dispatchWc nd wc).nextTask = nd.nextTask ∧
      ((dispatchWc nd wc).trans u).region = (nd.trans u).region := by
  rcases dispatchWc_cases nd wc with h | ⟨-, -, h⟩ | ⟨-, hr, -⟩
  · rw [h]
    exact ⟨rfl, rfl, rfl, rfl, rfl⟩
  · rw [h]
    refine ⟨rfl, rfl, rfl, rfl, ?_⟩
    simp only [hmpHandleMrMsg, mrMsgState, Node.setState_trans]
    by_cases hu : u = (nd.task wc.wrId).rdmaTrans
    · rw [← hu, Function.update_self]
      rfl
    · rw [Function.update_of_ne hu]
      rfl
  · rw [ho] at hr
    simp at hr

namespace Channel

variable {s s' : Channel}

/-- The slot of a completed receive holds the frame of message `c`. -/
structure Holds (nd : Node) (wc : IbvWc) (c : MsgContent) : Prop where
  opcode : wc.opcode = .recv
  fits : c.frame.length ≤ HMP_TASK_SIZE
  frame : nd.mem.read (nd.task wc.wrId).sge.addr c.frame.length = c.frame

/-- The buffer of a queued send holds the frame of message `c`. -/
def Buffers (nd : Node) (wr : IbvSendWr) (c : MsgContent) : Prop :=
  nd.mem.read wr.sge.addr wr.sge.length = c.frame

/-- What has been sent is spread over the two ends and the wire. -/
structure Carries (s : Channel) (inCq onWire queued : List MsgContent) : Prop where
  ring : RecvRing s.dst s.u
  sent : s.sent = s.received ++ inCq ++ onWire ++ queued
  ok : ∀ c ∈ s.sent, c.Ok
  arrived : List.Forall₂ (Holds s.dst) (s.dst.qp s.u).cq inCq
  wire : s.wire = onWire.map MsgContent.frame
  buffered : List.Forall₂ (Buffers s.src) (s.src.qp s.t).sq queued

def Inv (s : Channel) : Prop := ∃ inCq onWire queued, Carries s inCq onWire queued

variable {inCq onWire queued : List MsgContent}

theorem arrived_congr {cq : List IbvWc} (h : List.Forall₂ (Holds nd) cq inCq)
    (hc : ∀ wc ∈ cq, ∀ c, Holds nd wc c → Holds nd' wc c) : List.Forall₂ (Holds nd') cq inCq :=
  ((List.forall₂_and_left cq inCq).mpr ⟨hc, h⟩).imp fun _ c h => h.1 c h.2

theorem Carries.send {msg : HmpMsg} {o : PostOutcome} (h : Carries s inCq onWire queued)
    (hf : msg.Fits) (hok : SlotsFree s (.send msg o)) :
    Carries { s with src := hmpPostSend s.src s.t msg o, sent := s.sent ++ [msg.content] }
      inCq onWire (queued ++ [msg.content]) := by
  obtain ⟨hpost, hslot⟩ := hok
  obtain ⟨ht, he⟩ := o.posted_iff.mp hpost
  have hmem := hmpPostSend_mem s.src s.t msg o
  have hq := congrFun (hmpPostSend_qp s.src s.t msg o) s.t
  rw [if_pos ht] at hmem
  rw [if_pos ⟨ht, he⟩, Function.update_self] at hq
  refine { h with sent := ?_, ok := fun c hc => ?_, buffered := ?_ }
  · simp [h.sent]
  · rcases List.mem_append.mp hc with hc | hc
    · exact h.ok c hc
    · exact List.mem_singleton.mp hc ▸ hf.content_ok
  · dsimp only
    rw [hq]
    refine List.rel_append ?_ (.cons ?_ .nil)
    · rcases hslot with hnil | hsame
      · have hb := h.buffered
        rw [hnil] at hb ⊢
        obtain rfl := List.forall₂_nil_left_iff.mp hb
        exact .nil
      · -- the slot already holds the frame, so the store changes nothing
        refine h.buffered.imp fun wr c hb => ?_
        rw [Buffers, hmem, ← hsame, Mem.write_read]
        exact hb
    · rw [Buffers, hmem, hmpPostSend_task s.src s.t msg o ht, hf.frameBytes]
      dsimp only
      rw [hf.sge_length]
      exact Mem.read_write_self _ _ _

theorem Carries.recv {o : PostOutcome} {n : ℕ} (h : Carries s inCq onWire queued)
    (hok : SlotsFree s (.recv o)) :
    Carries { s with dst := hmpPostRecv s.dst s.u o, recvs := n } inCq onWire queued := by
  have hfree : ringSlot s.dst s.u ∉ slotsOf s.dst s.u := by
    intro hm
    rcases List.mem_append.mp hm with hm | hm
    · obtain ⟨wc, hw, he⟩ := List.mem_map.mp hm
      exact hok.2 wc hw he
    · obtain ⟨wr, hw, he⟩ := List.mem_map.mp hm
      exact hok.1 wr hw he
  have ha := hmpPostRecv_addsTasks s.dst s.u o
  have hcq : ((hmpPostRecv s.dst s.u o).qp s.u).cq = (s.dst.qp s.u).cq :=
    (hmpPostRecv_grows s.dst s.u s.u o).cq
  refine { h with ring := h.ring.postRecv o hfree, arrived := ?_ }
  dsimp only
  rw [hcq]
  refine arrived_congr h.arrived fun wc hw c hh => ⟨hh.opcode, hh.fits, ?_⟩
  rw [ha.task _ (h.ring.tasks.cq wc hw).1, hmpPostRecv_mem]
  exact hh.frame

theorem Carries.transmit (h : Carries s inCq onWire queued) (hs : s.transmitStep = some s') :
    Inv s' := by
  obtain ⟨wr, rest, hq, rfl⟩ := transmitStep_some hs
  have hb := h.buffered
  rw [hq] at hb
  obtain ⟨c, queued, hc, hrest, rfl⟩ := List.forall₂_cons_left_iff.mp hb
  refine ⟨inCq, onWire ++ [c], queued, { h with sent := ?_, wire := ?_, buffered := ?_ }⟩
  · simp [h.sent]
  · rw [Buffers] at hc
    simp [h.wire, hc]
  · simp only [Node.setQp_qp, Function.update_self]
    exact hrest

/-- A message arrives in the slot of the oldest receive, and the other slots are not touched. -/
theorem arrived_deliver (h : RecvRing nd u) {wr : IbvRecvWr} {rest : List IbvRecvWr} {wc : IbvWc}
    {c : MsgContent} (hq : (nd.qp u).rq = wr :: rest) (hwc : wc.opcode = .recv)
    (hid : wc.wrId = wr.wrId) (hc : c.frame.length ≤ HMP_TASK_SIZE) (htask : nd'.task = nd.task)
    (hmem : nd'.mem = nd.mem.write wr.sge.addr c.frame)
    (ha : List.Forall₂ (Holds nd) (nd.qp u).cq inCq) :
    List.Forall₂ (Holds nd') ((nd.qp u).cq ++ [wc]) (inCq ++ [c]) := by
  have hslot : wr.sge.addr = (nd.task wr.wrId).sge.addr := by rw [h.sge wr (by simp [hq])]
  have hmr : wr.sge.addr ∈ (nd.qp u).rq.map fun wr => (nd.task wr.wrId).sge.addr := by
    rw [hq, List.map_cons, ← hslot]
    exact List.mem_cons_self
  refine List.rel_append (arrived_congr ha fun w hw d hh => ⟨hh.opcode, hh.fits, ?_⟩)
    (.cons ⟨hwc, hc, ?_⟩ .nil)
  · have hmc : (nd.task w.wrId).sge.addr ∈
        (nd.qp u).cq.map fun wc => (nd.task wc.wrId).sge.addr := List.mem_map_of_mem hw
    have hne : (nd.task w.wrId).sge.addr ≠ wr.sge.addr := fun he =>
      List.disjoint_of_nodup_append h.nodup hmc (he ▸ hmr)
    have hap := h.apart (List.mem_append_left _ hmc) (List.mem_append_right _ hmr) hne
    have hd := hh.fits
    rw [hmem, htask, Mem.read_write_of_disjoint _ _ (by omega)]
    exact hh.frame
  · rw [hmem, htask, hid, ← hslot]
    exact Mem.read_write_self _ _ _

theorem Carries.deliver (h : Carries s inCq onWire queued) (hs : s.deliverStep = some s') :
    Inv s' := by
  obtain ⟨bytes, wire, wr, rest, hw, hq, rfl⟩ := deliverStep_some hs
  have hwire := h.wire
  rw [hw] at hwire
  obtain ⟨c, onWire, rfl, rfl, rfl⟩ := List.map_eq_cons_iff.mp hwire.symm
  have hc : c.Ok := h.ok c (by simp [h.sent])
  refine ⟨inCq ++ [c], onWire, queued,
    { h with ring := ?_, sent := ?_, arrived := ?_, wire := rfl }⟩
  · refine h.ring.congr rfl rfl (fun w hw => ?_) ?_ (fun w hw => ?_) ?_ rfl
    · simp only [Node.setQp_qp, Function.update_self] at hw
      simp [hq, hw]
    · simp
    · simp only [Node.setQp_qp, Function.update_self, List.mem_append, List.mem_singleton] at hw
      exact hw.imp id fun hw => ⟨wr, by simp [hq], by rw [hw]⟩
    · -- the receive moves from one queue to the other, with its slot
      simp [slotsOf, hq]
  · simp [h.sent]
  · simp only [Node.setQp_qp, Function.update_self]
    exact arrived_deliver h.ring hq rfl rfl hc.frame_length_le rfl rfl h.arrived

theorem Carries.poll (h : Carries s inCq onWire queued) (hs : s.pollStep = some s') : Inv s' := by
  obtain ⟨wc, rest, hq, rfl⟩ := pollStep_some hs
  have ha := h.arrived
  rw [hq] at ha
  obtain ⟨c, inCq, hc, hrest, rfl⟩ := List.forall₂_cons_left_iff.mp ha
  obtain ⟨htask, hmem, hqp, hnt, hreg⟩ := dispatchWc_recv (u := s.u)
    (s.dst.setQp s.u { s.dst.qp s.u with cq := rest }) hc.opcode
  have hqu := congrFun hqp s.u
  rw [Node.setQp_qp, Function.update_self] at hqu
  have hok : c.Ok := h.ok c (by simp [h.sent])
  refine ⟨inCq, onWire, queued, { h with ring := ?_, sent := ?_, arrived := ?_ }⟩
  · refine h.ring.congr hnt htask (fun w hw => ?_) ?_ (fun w hw => ?_) ?_ (by rw [hreg]; rfl)
    · rwa [hqu] at hw
    · rw [hqu]
    · rw [hqu] at hw
      exact .inl (by simp [hq, hw])
    · rw [slotsOf, hqu, htask, slotsOf, hq, List.map_cons, List.cons_append]
      exact List.sublist_cons_self _ _
  · simp [h.sent, decodeMsg_frame hok hc.frame]
  · dsimp only
    rw [hqu]
    refine arrived_congr hrest fun w _ d hh => ⟨hh.opcode, hh.fits, ?_⟩
    rw [hmem, htask]
    exact hh.frame

theorem Carries.pollSrc (h : Carries s inCq onWire queued) (hs : s.pollSrcStep = some s') :
    Carries s' inCq onWire queued := by
  obtain ⟨wc, rest, -, rfl⟩ := pollSrcStep_some hs
  obtain ⟨hqp, -, -, -, hmem, -⟩ :=
    dispatchWc_frame (s.src.setQp s.t { s.src.qp s.t with cq := rest }) wc
  refine { h with buffered := ?_ }
  dsimp only
  rw [congrFun hqp s.t, Node.setQp_qp, Function.update_self]
  refine h.buffered.imp fun wr c hb => ?_
  rw [Buffers, hmem]
  exact hb

theorem inv_start (h : Start s) : Inv s := by
  obtain ⟨hsq, hw, hsent, hrecv, nd, o₁, o₂, hq, hc, hdst, -⟩ := h
  have hcq : (s.dst.qp s.u).cq = [] := by
    rw [hdst, (hmpPrePostRecv_grows nd s.u s.u o₁ o₂).cq, hq]
  exact ⟨[], [], [],
    { ring := hdst ▸ recvRing_setup o₁ o₂ hq hc
      sent := by simp [hsent, hrecv]
      ok := by simp [hsent]
      arrived := by simp [hcq]
      wire := hw
      buffered := by simp [hsq] }⟩

theorem inv_step {e : ChannelEvent} (hi : Inv s) (hok : SlotsFree s e) (hs : s.step e = some s') :
    Inv s' := by
  obtain ⟨inCq, onWire, queued, h⟩ := hi
  cases e with
  | send msg o =>
    obtain ⟨hf, hs⟩ := Option.ite_none_right_eq_some.mp hs
    exact Option.some.inj hs ▸ ⟨_, _, _, h.send hf hok⟩
  | recv o => exact Option.some.inj hs ▸ ⟨_, _, _, h.recv hok⟩
  | transmit => exact h.transmit hs
  | deliver => exact h.deliver hs
  | pollSrc => exact ⟨_, _, _, h.pollSrc hs⟩
  | poll => exact h.poll hs

/-- The messages decoded are a prefix of those sent, as long as no slot is written over. -/
theorem messages_arrive_as_sent (s : Channel) (h : sys.Reach SlotsFree s) :
    s.received <+: s.sent := by
  obtain ⟨inCq, onWire, queued, hc⟩ : Inv s :=
    h.inv (fun _ h₀ => inv_start h₀) fun _ _ _ hi hok hs => inv_step hi hok hs
  rw [hc.sent, List.append_assoc, List.append_assoc]
  exact List.prefix_append _ _

/-- Two messages, the second one posted when the first one has left the slot. -/
theorem messages_arrive_as_sent_two : ∃ s, sys.Reach SlotsFree s ∧ s.received.length = 2 ∧
    s.received <+: s.sent := by
  obtain ⟨s, hr, hl⟩ := Sys.exists_run_of_replay sys SlotsFree sampleChannel
    ([sampleInit, .transmit, sampleMsg 7] ++ [.deliver, .poll] ++ sampleArrival)
    (p := fun s => s.received.length = 2) (by decide)
  have hs : sys.Reach SlotsFree s := ⟨sampleChannel, sampleChannel_start, hr⟩
  exact ⟨s, hs, hl, messages_arrive_as_sent s hs⟩

/-- The second message is written over the first one, which the adapter has not read. -/
theorem message_overwritten : ¬ ∀ s, sys.Reach Sys.Always s → s.received <+: s.sent := by
  intro h
  obtain ⟨s, hr, hn⟩ := Sys.exists_run_of_replay sys Sys.Always sampleChannel
    ([sampleInit, sampleMsg 7] ++ sampleArrival) (p := fun s => ¬ s.received <+: s.sent)
    (by decide)
  exact hn (h s ⟨sampleChannel, sampleChannel_start, hr⟩)

end Channel

end HMP
