import Hmp.Sanity.InitMsg
import Hmp.Proofs.Blocks

/-! What `hmp_wc_success_handler` takes for an INIT message: it looks at the first word of
the slot only, neither at `data_size` nor at the number of bytes received. -/

namespace HMP

/-- The frame of an INIT message: its type, the size of the payload, and that many bytes. -/
def IsInitFrame (bytes : List UInt8) : Prop :=
  bytes.length = INIT_SIZE ∧ leVal (bytes.take 4) = MsgType.init.val ∧
    leVal ((bytes.drop 4).take 4) = 8 + 8 + 4

instance (bytes : List UInt8) : Decidable (IsInitFrame bytes) :=
  inferInstanceAs (Decidable (_ ∧ _ ∧ _))

/-- The address, the length and the key in a frame. -/
def frameMr (bytes : List UInt8) : HmpMrInfo :=
  { addr := leVal ((bytes.drop HEADER_SIZE).take 8)
    length := leVal ((bytes.drop (HEADER_SIZE + 8)).take 8)
    rkey := leVal ((bytes.drop (HEADER_SIZE + 16)).take 4) }

/-- `hmp_build_init_msg` and `hmp_send_task_create` produce such a frame. -/
theorem isInitFrame_frameBytes {nd : Node} {pool : HmpMempool} (h : nd.dramMempool = some pool) :
    IsInitFrame (frameBytes (hmpBuildInitMsg nd)) := by
  rw [frameBytes_init h]
  have hf : initFrame pool = le 4 MsgType.init.val ++ (le 4 (8 + 8 + 4) ++ initPayload pool) := by
    simp [initFrame]
  refine ⟨initFrame_length pool, ?_, ?_⟩
  · rw [hf, List.take_left' (by simp), leVal_le_of_lt (by decide)]
  · rw [hf, List.drop_left' (by simp), List.take_left' (by simp), leVal_le_of_lt (by decide)]

/-- The adapter puts `bytes` into the buffer of receive task `p`. -/
def received (nd : Node) (p : ℕ) (bytes : List UInt8) : Node :=
  { nd with mem := nd.mem.write (nd.task p).sge.addr bytes }

def recvWc (p : ℕ) (bytes : List UInt8) : IbvWc :=
  { wrId := p, status := .success, opcode := .recv, byteLen := bytes.length }

/-- The slot of task `p` read as a message. -/
def slotType (nd : Node) (p : ℕ) : ℕ := nd.mem.word (nd.task p).sge.addr 4

def slotMr (nd : Node) (p : ℕ) : HmpMrInfo :=
  let data := (nd.task p).sge.addr + HEADER_SIZE
  { addr := nd.mem.word data 8, length := nd.mem.word (data + 8) 8
    rkey := nd.mem.word (data + 16) 4 }

/-- The transport is connected, and its peer has region `mr`. -/
def connectedTo (nd : Node) (t : ℕ) (mr : HmpMrInfo) : Node :=
  let k := (nd.trans t).nodeId
  (nd.setInfo k { nd.config.nodeInfos k with dramMr := mr }).setState t .connected

/-- A complete INIT frame connects the transport and stores its region, and anything else changes
nothing. -/
structure TakesInitOnly (nd : Node) (p : ℕ) (bytes : List UInt8) : Prop where
  accepts : IsInitFrame bytes → hmpWcSuccessHandler (received nd p bytes) (recvWc p bytes) =
    connectedTo (received nd p bytes) (nd.task p).rdmaTrans (frameMr bytes)
  rejects : ¬ IsInitFrame bytes →
    hmpWcSuccessHandler (received nd p bytes) (recvWc p bytes) = received nd p bytes

theorem hmpHandleMrMsg_eq (nd : Node) (t data : ℕ) :
    hmpHandleMrMsg nd t data = connectedTo nd t
      { addr := nd.mem.word data 8, length := nd.mem.word (data + 8) 8
        rkey := nd.mem.word (data + 16) 4 } := by
  simp [hmpHandleMrMsg, mrMsgAddr, mrMsgLength, mrMsgRkey, mrMsgState, connectedTo, Node.setInfo,
    Node.setState, Node.setTrans]

/-- The type of a received message decides alone. -/
theorem hmpWcSuccessHandler_recv (nd : Node) (p : ℕ) (bytes : List UInt8) :
    hmpWcSuccessHandler nd (recvWc p bytes) =
      if slotType nd p = MsgType.init.val then
        connectedTo nd (nd.task p).rdmaTrans (slotMr nd p)
      else nd := by
  have htype : isInitMsg nd (recvWc p bytes) = true ↔ slotType nd p = MsgType.init.val := by
    simp [isInitMsg, recvWc, slotType]
  unfold hmpWcSuccessHandler
  simp only [recvWc, hmpHandleMrMsg_eq]
  exact if_congr htype rfl rfl

/-- The slot holds a complete frame as it was sent. -/
theorem slot_of_frame {nd : Node} {p : ℕ} {bytes : List UInt8} (h : IsInitFrame bytes) :
    slotType (received nd p bytes) p = MsgType.init.val ∧
      slotMr (received nd p bytes) p = frameMr bytes := by
  obtain ⟨hlen, htype, -⟩ := h
  have hread : (received nd p bytes).mem.read (nd.task p).sge.addr INIT_SIZE = bytes := by
    rw [← hlen]
    exact Mem.read_write_self _ _ _
  have hword : ∀ off w, off + w ≤ INIT_SIZE → (received nd p bytes).mem.word
      ((nd.task p).sge.addr + off) w = leVal ((bytes.drop off).take w) :=
    fun off w hw => Mem.word_of_read hread hw
  refine ⟨(hword 0 4 (by decide)).trans htype, ?_⟩
  simp only [slotMr, frameMr, HmpMrInfo.mk.injEq]
  exact ⟨hword HEADER_SIZE 8 (by decide), hword (HEADER_SIZE + 8) 8 (by decide),
    hword (HEADER_SIZE + 16) 4 (by decide)⟩

theorem connectedTo_eq_self_iff (nd : Node) (t : ℕ) (mr : HmpMrInfo) :
    connectedTo nd t mr = nd ↔ (nd.trans t).transState = .connected ∧
      (nd.config.nodeInfos (nd.trans t).nodeId).dramMr = mr := by
  constructor
  · intro h
    refine ⟨?_, ?_⟩
    · rw [← h]
      simp [connectedTo]
    · have hk := congrArg (fun x : Node => (x.config.nodeInfos (nd.trans t).nodeId).dramMr) h
      simpa [connectedTo] using hk.symm
  · rintro ⟨hst, rfl⟩
    have ht : { nd.trans t with transState := .connected } = nd.trans t := by rw [← hst]
    simp [connectedTo, Node.setInfo, Node.setState, Node.setTrans, ht]

/-- The handler acts on exactly the INIT frames if and only if the slot does not say INIT, or it
says so by right, or what it says is known. -/
theorem takesInitOnly_iff (nd : Node) (p : ℕ) (bytes : List UInt8) :
    TakesInitOnly nd p bytes ↔
      slotType (received nd p bytes) p ≠ MsgType.init.val ∨ IsInitFrame bytes ∨
        (nd.trans (nd.task p).rdmaTrans).transState = .connected ∧
          (nd.config.nodeInfos (nd.trans (nd.task p).rdmaTrans).nodeId).dramMr =
            slotMr (received nd p bytes) p := by
  have htask : (received nd p bytes).task = nd.task := rfl
  have hiff := connectedTo_eq_self_iff (received nd p bytes) (nd.task p).rdmaTrans
    (slotMr (received nd p bytes) p)
  constructor
  · intro h
    by_cases htype : slotType (received nd p bytes) p = MsgType.init.val
    · by_cases hf : IsInitFrame bytes
      · exact .inr (.inl hf)
      · have hr := h.rejects hf
        rw [hmpWcSuccessHandler_recv, if_pos htype, htask] at hr
        exact .inr (.inr (hiff.mp hr))
    · exact .inl htype
  · intro h
    refine ⟨fun hf => ?_, fun hf => ?_⟩
    · obtain ⟨htype, hmr⟩ : slotType (received nd p bytes) p = MsgType.init.val ∧
          slotMr (received nd p bytes) p = frameMr bytes := slot_of_frame hf
      rw [hmpWcSuccessHandler_recv, if_pos htype, htask, hmr]
    · rw [hmpWcSuccessHandler_recv]
      split_ifs with htype
      · exact hiff.mpr ((h.resolve_left (not_not.mpr htype)).resolve_left hf)
      · rfl

/-- A message without a byte connects the transport: the slot of the `calloc`ed pool is zero. -/
theorem empty_message_connects : ¬ ∀ nd p bytes, TakesInitOnly nd p bytes := by
  intro h
  have hr := (h (sampleNode 0) 0 []).rejects (by decide)
  have hst := congrArg (fun nd : Node => (nd.trans 0).transState) hr
  exact absurd hst (by decide)

end HMP
