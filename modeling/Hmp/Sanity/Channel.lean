import Hmp.Proofs.Malloc
import Hmp.Sanity.Tasks
import Hmp.Spec.Channel

/-! Frames and the receive ring: what a slot holds is what was sent, as long as no two
outstanding receives share a slot. -/

namespace HMP

namespace MsgContent

/-- The bytes of a message on the wire. -/
def frame (c : MsgContent) : List UInt8 :=
  le 4 c.msgType ++ le 4 c.dataSize.toNat ++ c.data

/-- A message that a slot can hold. -/
structure Ok (c : MsgContent) : Prop where
  msgType : c.msgType < 2 ^ 32
  dataSize : c.dataSize = c.data.length
  fits : HEADER_SIZE + c.data.length ≤ HMP_TASK_SIZE

theorem frame_length (c : MsgContent) : c.frame.length = HEADER_SIZE + c.data.length := by
  simp only [frame, List.length_append, le_length, HEADER_SIZE]

theorem Ok.frame_length_le {c : MsgContent} (h : c.Ok) : c.frame.length ≤ HMP_TASK_SIZE :=
  c.frame_length.trans_le h.fits

end MsgContent

theorem HmpMsg.Fits.content_ok {msg : HmpMsg} (h : msg.Fits) : msg.content.Ok := by
  obtain ⟨h0, h1⟩ := h
  refine ⟨?_, ?_, ?_⟩
  · cases hm : msg.msgType <;> simp [content, hm, MsgType.val]
  · simp [content, h0]
  · simp only [content, List.length_map, List.length_range]
    omega

/-- `hmp_send_task_create` stores the frame, and `sge.length` is its length. -/
theorem HmpMsg.Fits.frameBytes {msg : HmpMsg} (h : msg.Fits) :
    frameBytes msg = msg.content.frame := by
  obtain ⟨h0, h1⟩ := h
  have hlt : msg.dataSize < 2 ^ 32 := by
    simp only [HEADER_SIZE, HMP_TASK_SIZE] at h1
    omega
  simp only [HMP.frameBytes, MsgContent.frame, content]
  rw [Int.emod_eq_of_lt h0 hlt, Int.emod_eq_of_lt h0 (by omega)]

theorem HmpMsg.Fits.sge_length {msg : HmpMsg} (h : msg.Fits) :
    ((HEADER_SIZE + msg.dataSize) % 2 ^ 32).toNat = msg.content.frame.length := by
  have hc := h.content_ok.dataSize
  have hf := h.content_ok.fits
  rw [MsgContent.frame_length]
  simp only [HEADER_SIZE, HMP_TASK_SIZE] at hf ⊢
  have : msg.dataSize = msg.content.data.length := hc
  omega

/-- The handler decodes the message whose frame the slot holds. -/
theorem decodeMsg_frame {m : Mem} {a : ℕ} {c : MsgContent} (hc : c.Ok)
    (h : m.read a c.frame.length = c.frame) : decodeMsg m a = c := by
  have hlen := c.frame_length
  have hfits := hc.fits
  have hwords : c.frame = le 4 c.msgType ++ (le 4 c.dataSize.toNat ++ c.data) := by
    simp [MsgContent.frame]
  have htype : m.word a 4 = c.msgType := by
    have hw : m.word (a + 0) 4 = leVal ((c.frame.drop 0).take 4) :=
      Mem.word_of_read h (by rw [hlen]; simp only [HEADER_SIZE]; omega)
    rwa [hwords, List.drop_zero, List.take_left' (by simp), leVal_le_of_lt hc.msgType] at hw
  have hsize : m.word (a + 4) 4 = c.data.length := by
    have hw : m.word (a + 4) 4 = leVal ((c.frame.drop 4).take 4) :=
      Mem.word_of_read h (by rw [hlen]; simp only [HEADER_SIZE]; omega)
    rw [hwords, List.drop_left' (by simp), List.take_left' (by simp), hc.dataSize] at hw
    rw [hw, Int.toNat_natCast, leVal_le_of_lt]
    simp only [HEADER_SIZE, HMP_TASK_SIZE] at hfits
    omega
  have hint : (BitVec.ofNat 32 c.data.length).toInt = c.data.length := by
    simp only [HEADER_SIZE, HMP_TASK_SIZE] at hfits
    have hn : (BitVec.ofNat 32 c.data.length).toNat = c.data.length := by
      rw [BitVec.toNat_ofNat]
      omega
    rw [BitVec.toInt_eq_toNat_of_lt (by omega), hn]
  have hdata : m.read (a + HEADER_SIZE) c.data.length = c.data := by
    rw [hlen, Mem.read_add] at h
    have := congrArg (List.drop HEADER_SIZE) h
    rw [List.drop_left' (by simp), MsgContent.frame, List.drop_left' (by simp [HEADER_SIZE])] at this
    exact this
  unfold decodeMsg
  simp only [htype, hsize, hint, Int.toNat_natCast, hdata]
  cases c
  simp only [MsgContent.mk.injEq, and_true, true_and]
  exact hc.dataSize.symm

namespace Channel

/-! ## The steps -/

variable {s s' : Channel}

theorem transmitStep_some (h : s.transmitStep = some s') :
    ∃ wr rest, (s.src.qp s.t).sq = wr :: rest ∧ s' = { s with
      src := s.src.setQp s.t { s.src.qp s.t with
        sq := rest
        cq := (s.src.qp s.t).cq ++
          [{ wrId := wr.wrId, status := .success, opcode := wr.opcode.wc }] }
      wire := s.wire ++ [s.src.mem.read wr.sge.addr wr.sge.length] } := by
  unfold transmitStep at h
  cases hq : (s.src.qp s.t).sq with
  | nil => simp [hq] at h
  | cons wr rest =>
    simp only [hq, Option.some.injEq] at h
    exact ⟨wr, rest, rfl, h.symm⟩

theorem deliverStep_some (h : s.deliverStep = some s') :
    ∃ bytes wire wr rest, s.wire = bytes :: wire ∧ (s.dst.qp s.u).rq = wr :: rest ∧
      s' = { s with
        dst := { s.dst.setQp s.u { s.dst.qp s.u with
          rq := rest
          cq := (s.dst.qp s.u).cq ++ [{ wrId := wr.wrId, status := .success, opcode := .recv
                                        byteLen := bytes.length }] } with
          mem := s.dst.mem.write wr.sge.addr bytes }
        wire := wire } := by
  unfold deliverStep at h
  dsimp only at h
  split at h
  · rename_i bytes wire wr rest hw hq
    obtain ⟨-, h⟩ := Option.ite_none_right_eq_some.mp h
    exact ⟨bytes, wire, wr, rest, hw, hq, (Option.some.inj h).symm⟩
  · simp at h

theorem pollSrcStep_some (h : s.pollSrcStep = some s') :
    ∃ wc rest, (s.src.qp s.t).cq = wc :: rest ∧ s' = { s with
      src := dispatchWc (s.src.setQp s.t { s.src.qp s.t with cq := rest }) wc } := by
  unfold pollSrcStep at h
  cases hq : (s.src.qp s.t).cq with
  | nil => simp [hq] at h
  | cons wc rest =>
    simp only [hq, Option.some.injEq] at h
    exact ⟨wc, rest, rfl, h.symm⟩

theorem pollStep_some (h : s.pollStep = some s') :
    ∃ wc rest, (s.dst.qp s.u).cq = wc :: rest ∧ s' = { s with
      dst := dispatchWc (s.dst.setQp s.u { s.dst.qp s.u with cq := rest }) wc
      received := s.received ++ [decodeMsg s.dst.mem (s.dst.task wc.wrId).sge.addr] } := by
  unfold pollStep at h
  cases hq : (s.dst.qp s.u).cq with
  | nil => simp [hq] at h
  | cons wc rest =>
    simp only [hq, Option.some.injEq] at h
    exact ⟨wc, rest, rfl, h.symm⟩

/-! ## Messages of two nodes -/

/-- Two nodes that have just set up their connection. -/
def sampleChannel : Channel where
  src := { config := sampleConfig 0, dramMempool := some samplePool
           trans := fun _ => { nodeId := 1, region := { sendAddr := 4256, recvAddr := 4296 } } }
  t := 0
  dst := hmpPrePostRecv
    { config := sampleConfig 1, dramMempool := some samplePool
      trans := fun _ => { transState := .connecting, region := { sendAddr := 4096, recvAddr := 4136 } }
      qp := fun _ => { live := true, registered := true } } 0 {} {}
  u := 0
  recvs := 2

theorem sampleChannel_start : Start sampleChannel :=
  ⟨rfl, rfl, rfl, rfl, _, {}, {}, rfl, rfl, rfl, rfl⟩

/-- The INIT message, and one of four bytes. -/
def sampleInit : ChannelEvent := .send (hmpBuildInitMsg sampleChannel.src) {}

def sampleMsg (b : UInt8) : ChannelEvent :=
  .send { msgType := .normal, dataSize := 4, data := fun _ => b } {}

/-- A message goes through. -/
def sampleArrival : List ChannelEvent := [.transmit, .deliver, .poll]

end Channel

end HMP
