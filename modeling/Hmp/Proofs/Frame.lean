import Hmp.Spec.Frame
import Hmp.Sanity.Channel
import Hmp.Sanity.InitMsg

/-! A message arrives as it was sent if and only if its frame fits the slot: nothing compares
`data_size` with the slot. -/

namespace HMP

/-- The frame is written by the three copies. -/
theorem write_frameBytes (nd : Node) (t : ℕ) (msg : HmpMsg) :
    nd.mem.write (nd.trans t).region.sendAddr (frameBytes msg) =
      nd.mem.puts (sendWrites nd t msg) := by
  simp only [frameBytes, sendWrites, Mem.puts_cons, Mem.puts_nil, Mem.write_append,
    List.length_append, le_length, HEADER_SIZE]

/-- The request that a successful post adds. -/
theorem postsSend_eq {nd : Node} {t : ℕ} {msg : HmpMsg} {o : PostOutcome} {wr : IbvSendWr}
    (h : PostsSend nd (hmpPostSend nd t msg o) t wr) :
    o.task = true ∧ wr.sge.addr = (nd.trans t).region.sendAddr ∧
      wr.sge.length = ((HEADER_SIZE + msg.dataSize) % 2 ^ 32).toNat := by
  have hself : ∀ l : List IbvSendWr, l ≠ l ++ [wr] := fun l hl => by simp at hl
  unfold PostsSend hmpPostSend at h
  split_ifs at h with ht he
  · simp only [Node.setQp_qp, Function.update_self, List.append_cancel_left_eq, List.cons.injEq,
      and_true, hmpSendTaskCreate, Node.allocTask, Node.setTask_qp, Node.setTask_task] at h
    subst h
    exact ⟨ht, rfl, rfl⟩
  · exact absurd h (hself _)
  · exact absurd h (hself _)

theorem refused_iff (nd : Node) (t : ℕ) (msg : HmpMsg) (o : PostOutcome) :
    hmpPostSend nd t msg o = nd ↔ o.task = false := by
  unfold hmpPostSend
  constructor
  · intro h
    by_contra ht
    rw [if_pos (by simpa using ht)] at h
    have hn := congrArg Node.nextTask h
    split_ifs at hn <;> simp [hmpSendTaskCreate, Node.allocTask] at hn
  · intro h
    simp [h]

/-- The payload is copied with `data_size` converted to `size_t`. -/
theorem fits_of_inSlot {nd nd' : Node} {t : ℕ} {msg : HmpMsg} (hlo : -2 ^ 31 ≤ msg.dataSize)
    (hhi : msg.dataSize < 2 ^ 31) (h : SendsFrame nd nd' t msg) : msg.Fits := by
  have hpay := (h.inSlot _ (by simp only [sendWrites, List.mem_cons]; exact .inr (.inr (.inl rfl)))).2
  simp only [List.length_map, List.length_range, HEADER_SIZE, HMP_TASK_SIZE] at hpay
  refine ⟨by omega, ?_⟩
  simp only [HEADER_SIZE, HMP_TASK_SIZE]
  omega

theorem HmpMsg.Fits.inSlot {msg : HmpMsg} (h : msg.Fits) (nd : Node) (t : ℕ) :
    ∀ w ∈ sendWrites nd t msg, (nd.trans t).region.sendAddr ≤ w.1 ∧
      w.1 + w.2.length ≤ (nd.trans t).region.sendAddr + HMP_TASK_SIZE := by
  obtain ⟨h0, h1⟩ := h
  simp only [HEADER_SIZE, HMP_TASK_SIZE] at h1
  simp only [sendWrites, List.mem_cons, List.not_mem_nil, or_false, HEADER_SIZE, HMP_TASK_SIZE]
  rintro w (rfl | rfl | rfl)
  · simp
  · simp
  · simp only [List.length_map, List.length_range]
    omega

/-- The adapter of the sender reads the whole frame, and the handler of the peer finds the message
in it. -/
theorem HmpMsg.Fits.sendsFrame {msg : HmpMsg} (h : msg.Fits) (nd : Node) (t : ℕ) (o : PostOutcome) :
    SendsFrame nd (hmpPostSend nd t msg o) t msg where
  inSlot := h.inSlot nd t
  outside x hx := by
    rw [hmpPostSend_mem]
    split_ifs
    · rw [write_frameBytes]
      exact Mem.puts_of_outside _ (h.inSlot nd t) hx nd.mem
    · rfl
  length wr hwr := by
    rw [(postsSend_eq hwr).2.2, h.sge_length]
    exact h.content_ok.frame_length_le
  decodes wr hwr peer a := by
    obtain ⟨ht, haddr, hlen⟩ := postsSend_eq hwr
    have hframe : (hmpPostSend nd t msg o).mem.read wr.sge.addr wr.sge.length =
        msg.content.frame := by
      rw [hmpPostSend_mem, if_pos ht, haddr, hlen, h.sge_length, ← h.frameBytes]
      exact Mem.read_write_self _ _ _
    rw [hframe]
    exact decodeMsg_frame h.content_ok (Mem.read_write_self _ _ _)

/-- A message is refused or arrives as it was sent if and only if there is no task for it or its
frame fits the slot. -/
theorem sendsFrame_iff {nd : Node} {t : ℕ} {msg : HmpMsg} (o : PostOutcome)
    (hlo : -2 ^ 31 ≤ msg.dataSize) (hhi : msg.dataSize < 2 ^ 31) :
    hmpPostSend nd t msg o = nd ∨ SendsFrame nd (hmpPostSend nd t msg o) t msg ↔
      o.task = false ∨ msg.Fits := by
  rw [refused_iff]
  exact or_congr_right ⟨fits_of_inSlot hlo hhi, fun h => h.sendsFrame nd t o⟩

/-- Node 1 of two with a transport to node 0. -/
def sampleSender : Node :=
  { config := sampleConfig 1, dramMempool := some samplePool
    trans := fun _ => { region := slotRegion { config := sampleConfig 1
                                               dramMempool := some samplePool } 0 } }

/-- The longest message that a slot can hold. -/
theorem sendsFrame_iff_32 :
    SendsFrame sampleSender (hmpPostSend sampleSender 0 ⟨.normal, 32, fun _ => 7⟩ {}) 0
      ⟨.normal, 32, fun _ => 7⟩ :=
  ((sendsFrame_iff {} (by decide) (by decide)).mpr (.inr (by decide))).resolve_left fun h =>
    absurd ((refused_iff _ _ _ _).mp h) (by decide)

/-- One byte more, and the frame runs into the first receive slot. -/
theorem long_message_leaves_slot : ¬ ∀ nd t msg o, -2 ^ 31 ≤ msg.dataSize →
    msg.dataSize < 2 ^ 31 →
      hmpPostSend nd t msg o = nd ∨ SendsFrame nd (hmpPostSend nd t msg o) t msg := by
  intro h
  rcases h sampleSender 0 ⟨.normal, 33, fun _ => 7⟩ {} (by decide) (by decide) with hr | hf
  · exact absurd ((refused_iff _ _ _ _).mp hr) (by decide)
  · exact absurd (hf.inSlot (4096 + HEADER_SIZE, List.replicate 33 7) (by decide)) (by decide)

end HMP
