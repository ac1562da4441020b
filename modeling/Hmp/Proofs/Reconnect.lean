import Hmp.Proofs.Pool
import Hmp.Proofs.Unknown
import Hmp.Sanity.Reconnect

/-! When a peer connects again, its new transport works on the slots of the old one. The two do not
meet as long as the old queue pair and its messages are gone by then. -/

namespace HMP

open Node

namespace Reconnect

/-- Address and length of the send slot of a transport and of its posted receives. -/
def buffers (nd : Node) (t : ℕ) : List (ℕ × ℕ) :=
  ((nd.trans t).region.sendAddr, HMP_TASK_SIZE) ::
    (nd.qp t).rq.map fun wr => (wr.sge.addr, wr.sge.length)

/-- The buffers of distinct queue pairs have no byte in common. -/
def BuffersApart (nd : Node) : Prop :=
  ∀ t u, t ≠ u → (nd.qp t).live = true → (nd.qp u).live = true →
    ∀ a ∈ buffers nd t, ∀ b ∈ buffers nd u, PoolRun.RangesDisjoint a b

/-- No completion of a transport changes the entry of its peer once a newer transport of that peer
has been recorded. -/
def OldSilent (s : Reconnect) : Prop :=
  ∀ t u i, t < u → s.owner t = some i → s.owner u = some i →
    ∀ e s', Handles e t → s.step e = some s' →
      s'.real.node.config.nodeInfos i = s.real.node.config.nodeInfos i

structure Inv (s : Reconnect) : Prop where
  ring : ∀ t < s.real.node.nextTrans, (s.real.node.trans t).region.curRecv < 3
  owned : ∀ t i, s.owner t = some i → t < s.real.node.nextTrans ∧ s.real.node.Located t i
  fresh : ∀ t, s.real.node.nextTrans ≤ t → (s.real.node.qp t).rq = []
  recvs : ∀ t, ∀ wr ∈ (s.real.node.qp t).rq, InRing s.real.node t wr
  live : ∀ t, (s.real.node.qp t).live = true → ∃ i, s.owner t = some i
  single : ∀ t u i, s.real.node.config.curnodeId < i → s.owner t = some i → s.owner u = some i →
    t = u
  old : ∀ t u i, t < u → s.owner t = some i → s.owner u = some i →
    (s.real.node.qp t).live = false ∧ ∀ wc ∈ (s.real.node.qp t).cq, ¬ Message wc

variable {s s' : Reconnect}

theorem inv_start (h : Start s) : Inv s := by
  obtain ⟨⟨-, -, -, hqp, -⟩, hn, ho⟩ := h
  have hq : ∀ t, s.real.node.qp t = {} := fun t => hqp t (hn ▸ Nat.zero_le t)
  constructor <;> simp [hn, ho, hq]

/-- The steps that neither create nor record a transport: one without a newer one may gain a queue
pair, and only a queue pair gains messages. -/
theorem Inv.kept {real : Transfer} (h : Inv s) {u : ℕ}
    (hst : s.real.node.Steady real.node u) (hn : real.node.nextTrans = s.real.node.nextTrans)
    (hrq : ∀ t, ∀ wr ∈ (real.node.qp t).rq,
      wr ∈ (s.real.node.qp t).rq ∨ t < s.real.node.nextTrans ∧ InRing s.real.node t wr)
    (hlive : ∀ t, (real.node.qp t).live = true → (s.real.node.qp t).live = true ∨
      ∃ i, s.real.node.config.curnodeId < i ∧ s.owner t = some i)
    (hcq : ∀ t, ∀ wc ∈ (real.node.qp t).cq,
      wc ∈ (s.real.node.qp t).cq ∨ ¬ Message wc ∨ (s.real.node.qp t).live = true) :
    Inv { s with real := real } := by
  refine ⟨fun t ht => ?_, fun t i hi => ?_, fun t ht => ?_, fun t wr hw => ?_, fun t hl => ?_,
    fun t v i hi => ?_, fun t v i htv hi hv => ?_⟩
  · exact hst.curRecv_lt (h.ring t (ht.trans_eq hn))
  · obtain ⟨hlt, hloc⟩ := h.owned t i hi
    exact ⟨hlt.trans_eq hn.symm, hst.located hloc⟩
  · refine List.eq_nil_iff_forall_not_mem.mpr fun wr hw => ?_
    rcases hrq t wr hw with hw | ⟨hlt, -⟩
    · rw [h.fresh t (hn.ge.trans ht)] at hw
      exact absurd hw List.not_mem_nil
    · exact absurd (hlt.trans_eq hn.symm) ht.not_gt
  · rcases hrq t wr hw with hw | ⟨-, hring⟩
    · exact (h.recvs t wr hw).congr (hst.recvAddr_eq t)
    · exact hring.congr (hst.recvAddr_eq t)
  · rcases hlive t hl with hl | ⟨i, -, hi⟩
    · exact h.live t hl
    · exact ⟨i, hi⟩
  · rw [hst.curnodeId] at hi
    exact h.single t v i hi
  · obtain ⟨hdead, hmsg⟩ := h.old t v i htv hi hv
    refine ⟨Bool.eq_false_iff.mpr fun hl => ?_, fun wc hw => ?_⟩
    · rcases hlive t hl with hl | ⟨j, hj, hij⟩
      · rw [hdead] at hl
        exact Bool.false_ne_true hl
      · obtain rfl : i = j := Option.some.inj (hi.symm.trans hij)
        exact htv.ne (h.single t v i hj hi hv)
    · rcases hcq t wc hw with hw | hw | hl
      · exact hmsg wc hw
      · exact hw
      · rw [hdead] at hl
        exact absurd hl Bool.false_ne_true

theorem Inv.calm {real : Transfer} (h : Inv s) (hc : Calm s.real.node real.node) :
    Inv { s with real := real } := by
  obtain ⟨u, hst⟩ := hc.steady
  exact h.kept hst hc.nextTrans (fun t wr hw => .inl (hc.rq t wr hw))
    (fun t hl => .inl (hc.live t hl)) fun t wc hw => (hc.cq t wc hw).imp_right .inl

/-- A message arrives, on a queue pair that exists. -/
theorem inv_recv {real : Transfer} {t : ℕ} {status : IbvWcStatus} {bytes : List UInt8} (h : Inv s)
    (hlive : (s.real.node.qp t).live = true)
    (hs : s.real.step (.recv t status bytes) = some real) : Inv { s with real := real } := by
  obtain ⟨wr, rest, hrq, rfl⟩ := Transfer.recvStep_some hs
  refine h.kept (u := t) (.same rfl rfl le_rfl rfl) rfl (fun u w hw => .inl ?_) (fun u hu => .inl ?_)
    fun u wc hw => ?_ <;> by_cases hut : u = t
  · subst hut
    rw [hrq]
    refine List.mem_cons_of_mem _ ?_
    simpa using hw
  · simpa [hut] using hw
  · subst hut
    exact hlive
  · simpa [hut] using hu
  · subst hut
    exact .inr (.inr hlive)
  · exact .inl (by simpa [hut] using hw)

theorem inv_route {real : Transfer} {t i : ℕ} {o : RouteOutcome} (h : Inv s)
    (ht : t < s.real.node.nextTrans) (hi : s.owner t = some i)
    (hlt : s.real.node.config.curnodeId < i)
    (hs : s.real.step (.cm t (.routeResolved o)) = some real) : Inv { s with real := real } := by
  obtain ⟨hq, rfl⟩ := Transfer.cmStep_some hs
  have hm := hmpHandleEcEvent_addsMessages s.real.node t (.routeResolved o)
  refine h.kept (onCmRouteResolved_steady s.real.node t o) (onCmRouteResolved_frame _ t o).2
    (fun u wr hw => ?_) (fun u hu => ?_) fun u wc hw => .inl (hm.cq u wc hw)
  · refine (onCmRouteResolved_ring o (h.ring t ht) u wr hw).imp_right ?_
    rintro ⟨rfl, hr⟩
    exact ⟨ht, hr⟩
  · by_cases hut : u = t
    · subst hut
      exact .inr ⟨i, hlt, hi⟩
    · left
      rwa [← Transfer.onCmRouteResolved_qp s.real.node o hut]

/-- A new transport for a peer whose older ones are gone. -/
theorem Inv.records {real : Transfer} {p : ℕ} (h : Inv s) (hr : Records s.real.node real.node p)
    (hgone : s.Gone p)
    (hsingle : s.real.node.config.curnodeId < p → ∀ t, s.owner t ≠ some p) :
    Inv { real := real, owner := Function.update s.owner s.real.node.nextTrans (some p) } := by
  have hown : ∀ t i, Function.update s.owner s.real.node.nextTrans (some p) t = some i →
      t = s.real.node.nextTrans ∧ i = p ∨ t ≠ s.real.node.nextTrans ∧ s.owner t = some i := by
    intro t i hi
    by_cases ht : t = s.real.node.nextTrans
    · subst ht
      exact .inl ⟨rfl, by simpa using hi.symm⟩
    · exact .inr ⟨ht, by simpa [ht] using hi⟩
  have hslot : real.node.slot = s.real.node.slot := by
    funext k j
    simp only [Node.slot, Node.baseAddr, hr.pool]
  refine ⟨fun t ht => ?_, fun t i hi => ?_, fun t ht => ?_, fun t wr hw => ?_, fun t hl => ?_,
    fun t v i hc hi hv => ?_, fun t v i htv hi hv => ?_⟩
  · by_cases hn : t = s.real.node.nextTrans
    · exact hn ▸ hr.ring
    · have hlt : t < s.real.node.nextTrans := by
        have := ht.trans_eq hr.nextTrans
        omega
      rw [hr.trans t hn]
      exact h.ring t hlt
  · rcases hown t i hi with ⟨rfl, rfl⟩ | ⟨hn, hi⟩
    · exact ⟨(Nat.lt_succ_self _).trans_eq hr.nextTrans.symm, hr.located⟩
    · obtain ⟨hlt, hloc⟩ := h.owned t i hi
      refine ⟨(hlt.trans (Nat.lt_succ_self _)).trans_eq hr.nextTrans.symm, ?_⟩
      constructor
      · rw [hr.trans t hn]; exact hloc.nodeId
      · rw [hr.trans t hn, hslot]; exact hloc.sendAddr
      · rw [hr.trans t hn, hslot]; exact hloc.recvAddr
  · have hle : s.real.node.nextTrans + 1 ≤ t := hr.nextTrans.ge.trans ht
    rw [hr.qp t (by omega)]
    exact h.fresh t (by omega)
  · by_cases hn : t = s.real.node.nextTrans
    · subst hn
      exact hr.recvs wr hw
    · rw [hr.qp t hn] at hw
      exact (h.recvs t wr hw).congr (by rw [hr.trans t hn])
  · by_cases hn : t = s.real.node.nextTrans
    · exact ⟨p, by simp [hn]⟩
    · rw [hr.qp t hn] at hl
      obtain ⟨i, hi⟩ := h.live t hl
      exact ⟨i, by simpa [hn] using hi⟩
  · rw [hr.config] at hc
    rcases hown t i hi with ⟨ht, hip⟩ | ⟨-, hi⟩ <;> rcases hown v i hv with ⟨hv', hip'⟩ | ⟨-, hv⟩
    · rw [ht, hv']
    · exact absurd (hip ▸ hv) (hsingle (hip ▸ hc) v)
    · exact absurd (hip' ▸ hi) (hsingle (hip' ▸ hc) t)
    · exact h.single t v i hc hi hv
  · rcases hown t i hi with ⟨ht, -⟩ | ⟨hn, hi⟩ <;> rcases hown v i hv with ⟨hv', hip⟩ | ⟨-, hv⟩
    · omega
    · have := (h.owned v i hv).1
      omega
    · rw [hr.qp t hn]
      exact hgone t (h.owned t i hi).1 (hip ▸ hi)
    · rw [hr.qp t hn]
      exact h.old t v i htv hi hv

/-- A request that fails before the search leaves a transport without a queue pair. -/
theorem inv_discarded (h : Inv s) (cm : CmId) (d : Option HmpDevice) :
    Inv { s with real := { s.real with node := withRequest s.real.node cm d } } := by
  have htrans : ∀ t ≠ s.real.node.nextTrans,
      (withRequest s.real.node cm d).trans t = s.real.node.trans t :=
    fun t ht => Function.update_of_ne ht ..
  refine ⟨fun t ht => ?_, fun t i hi => ?_, fun t ht => ?_, fun t wr hw => ?_, h.live, h.single,
    h.old⟩
  · by_cases hn : t = s.real.node.nextTrans
    · simp [hn, withRequest]
    · have hlt : t < s.real.node.nextTrans + 1 := ht
      rw [htrans t hn]
      exact h.ring t (by omega)
  · obtain ⟨hlt, hloc⟩ := h.owned t i hi
    refine ⟨hlt.trans (Nat.lt_succ_self _), ?_⟩
    constructor
    · rw [htrans t hlt.ne]; exact hloc.nodeId
    · rw [htrans t hlt.ne]; exact hloc.sendAddr
    · rw [htrans t hlt.ne]; exact hloc.recvAddr
  · exact h.fresh t ((Nat.le_succ _).trans ht)
  · have hw : wr ∈ (s.real.node.qp t).rq := hw
    have hn : t ≠ s.real.node.nextTrans := by
      rintro rfl
      rw [h.fresh _ le_rfl] at hw
      exact absurd hw List.not_mem_nil
    exact (h.recvs t wr hw).congr (by rw [htrans t hn])

theorem inv_request {real : Transfer} {t : ℕ} {cm : CmId} {peerAddr : String} {o : RequestOutcome}
    (h : Inv s) (hok : s.OldGone (.run (.cm t (.connectRequest cm peerAddr o))))
    (hs : s.real.step (.cm t (.connectRequest cm peerAddr o)) = some real) :
    Inv { real := real, owner := s.ownerAfter (.cm t (.connectRequest cm peerAddr o)) } := by
  obtain ⟨-, rfl⟩ := Transfer.cmStep_some hs
  by_cases hg : Twin.GivesUp s.real.node o
  · rw [ownerAfter, if_pos hg]
    rcases Twin.onCmConnectRequest_givesUp cm peerAddr hg with he | he <;>
      simp only [hmpHandleEcEvent, he]
    · exact h
    · exact inv_discarded h cm _
  · obtain ⟨p, hp, hgone⟩ := hok.resolve_left hg
    have hpeer : requestPeer s.real.node peerAddr = some p := hp
    rw [ownerAfter, if_neg hg, hpeer]
    refine h.records (onCmConnectRequest_records cm hg hpeer) hgone fun hlt => absurd ?_ hlt.not_gt
    exact List.mem_range.mp (List.mem_of_find?_eq_some hpeer)

/-- A round of the loop of `hmp_node_init`. -/
theorem inv_active {i : ℕ} (h : Inv s) (hs : s.activeStep i = some s') : Inv s' := by
  obtain ⟨⟨-, -, hnew⟩, hs⟩ := Option.ite_none_right_eq_some.mp hs
  have hnone : ∀ t, s.owner t ≠ some i := fun t ht => hnew t (h.owned t i ht).1 ht
  rw [peerCreate_eq] at hs
  obtain rfl := Option.some.inj hs
  refine h.records ?_ (fun t _ ht => absurd ht (hnone t)) fun _ => hnone
  rw [peerRegion_eq]
  refine ⟨rfl, rfl, rfl, fun t ht => ?_, fun _ _ => rfl, ?_, ?_, fun wr hw => ?_⟩
  · simp [ht]
  · constructor <;> simp [slotRegion, Node.slot, Node.baseAddr]
  · simp [slotRegion]
  · have hw : wr ∈ (s.real.node.qp s.real.node.nextTrans).rq := hw
    rw [h.fresh _ le_rfl] at hw
    exact absurd hw List.not_mem_nil

theorem run_some {e : TransferEvent} (hs : s.step (.run e) = some s') :
    s.Possible e ∧ ∃ real, s.real.step e = some real ∧
      s' = { real := real, owner := s.ownerAfter e } := by
  obtain ⟨hp, hs⟩ := Option.ite_none_right_eq_some.mp hs
  obtain ⟨real, hreal, he⟩ := Option.map_eq_some_iff.mp hs
  exact ⟨hp, real, hreal, he.symm⟩

theorem inv_run {e : TransferEvent} (h : Inv s) (hok : s.OldGone (.run e))
    (hs : s.step (.run e) = some s') : Inv s' := by
  obtain ⟨hp, real, hreal, rfl⟩ := run_some hs
  by_cases hreq : ∃ t cm peerAddr o, e = .cm t (.connectRequest cm peerAddr o)
  · obtain ⟨t, cm, peerAddr, o, rfl⟩ := hreq
    exact inv_request h hok hreal
  · have ho : s.ownerAfter e = s.owner := by
      unfold ownerAfter
      split
      · exact absurd ⟨_, _, _, _, rfl⟩ hreq
      · rfl
    rw [ho]
    by_cases hroute : ∃ t o, e = .cm t (.routeResolved o)
    · obtain ⟨t, o, rfl⟩ := hroute
      obtain ⟨ht, hi⟩ := hp
      obtain ⟨i, hi, hlt⟩ := Option.any_eq_true .. |>.mp hi
      exact inv_route h ht hi (of_decide_eq_true hlt) hreal
    · by_cases hrecv : ∃ t status bytes, e = .recv t status bytes
      · obtain ⟨t, status, bytes, rfl⟩ := hrecv
        exact inv_recv h hp hreal
      · exact h.calm (Transfer.step_calm hreal (fun t cm a o he => hreq ⟨t, cm, a, o, he⟩)
          (fun t o he => hroute ⟨t, o, he⟩) fun t st bs he => hrecv ⟨t, st, bs, he⟩)

theorem inv_step {e : ReconnectEvent} (h : Inv s) (hok : s.OldGone e) (hs : s.step e = some s') :
    Inv s' := by
  cases e with
  | clear =>
    obtain rfl := Option.some.inj hs
    exact h.calm (.of_qp (u := 0) (.same rfl rfl le_rfl rfl) rfl rfl)
  | active i => exact inv_active h hs
  | late t =>
    simp only [step, lateStep] at hs
    split at hs
    · cases hs
    · rename_i wc rest hcq
      obtain rfl := Option.some.inj hs
      exact h.calm (dispatchWc_calm hcq)
  | run e => exact inv_run h hok hs

theorem inv_reach (h : sys.Reach OldGone s) : Inv s :=
  h.inv (I := Inv) (fun _ => inv_start) fun _ _ _ hi hok hs => inv_step hi hok hs

/-- Transports of different peers work on different slots. -/
theorem Inv.apart {t u i j : ℕ} (h : Inv s) (hi : s.owner t = some i) (hj : s.owner u = some j)
    (hne : i ≠ j) :
    ∀ a ∈ buffers s.real.node t, ∀ b ∈ buffers s.real.node u, PoolRun.RangesDisjoint a b := by
  -- every buffer is one of the four slots of its peer
  have hslot : ∀ v k, s.owner v = some k → ∀ a ∈ buffers s.real.node v, ∃ m < 4,
      a = (PoolRun.slotAddr s.real.node.baseAddr k + m * HMP_TASK_SIZE, HMP_TASK_SIZE) := by
    intro v k hk a ha
    obtain ⟨-, hloc⟩ := h.owned v k hk
    rcases List.mem_cons.mp ha with rfl | ha
    · exact ⟨0, by omega, by rw [hloc.sendAddr]; rfl⟩
    · obtain ⟨wr, hw, rfl⟩ := List.mem_map.mp ha
      obtain ⟨hlen, r, hr, haddr⟩ := h.recvs v wr hw
      refine ⟨r + 1, by omega, ?_⟩
      rw [hlen, haddr, hloc.recvAddr]
      simp only [Node.slot, PoolRun.slotAddr, Prod.mk.injEq, and_true]
      ring
  intro a ha b hb
  obtain ⟨m, hm, rfl⟩ := hslot t i hi a ha
  obtain ⟨n, hn, rfl⟩ := hslot u j hj b hb
  exact PoolRun.slot_disjoint _ hm hn fun he => hne (congrArg Prod.fst he)

theorem Inv.buffersApart (h : Inv s) : BuffersApart s.real.node := by
  intro t u htu ht hu
  obtain ⟨i, hi⟩ := h.live t ht
  obtain ⟨j, hj⟩ := h.live u hu
  refine h.apart hi hj ?_
  rintro rfl
  -- of two transports of one peer the older has no queue pair
  rcases lt_or_gt_of_ne htu with hlt | hlt
  · exact absurd ht (by rw [(h.old t u i hlt hi hj).1]; exact Bool.false_ne_true)
  · exact absurd hu (by rw [(h.old u t i hlt hj hi).1]; exact Bool.false_ne_true)

/-- Whoever handles it, a completion that brings no message leaves the entries alone. -/
theorem dispatchWc_nodeInfos {nd : Node} {wc : IbvWc} (h : ¬ Message wc) :
    (dispatchWc nd wc).config.nodeInfos = nd.config.nodeInfos := by
  have hquiet : ¬ (wc.status = .success ∧ isInitMsg nd wc = true) := by
    rintro ⟨hst, hi⟩
    simp only [isInitMsg, decide_eq_true_eq] at hi
    exact h ⟨hst, hi.1⟩
  rcases dispatchWc_quiet hquiet with he | he <;> rw [he]
  rfl

theorem Inv.oldSilent (h : Inv s) : OldSilent s := by
  intro t u i htu hi hu e s' he hs
  have hmsg := (h.old t u i htu hi hu).2
  rcases he with rfl | rfl
  · simp only [step, lateStep] at hs
    split at hs
    · cases hs
    · rename_i wc rest hcq
      obtain rfl := Option.some.inj hs
      dsimp only
      rw [dispatchWc_nodeInfos (hmsg wc (hcq ▸ List.mem_cons_self))]
      rfl
  · obtain ⟨-, real, hreal, rfl⟩ := run_some hs
    obtain ⟨wc, rest, hcq, -, -, rfl⟩ := Transfer.pollStep_some hreal
    dsimp only
    rw [dispatchWc_nodeInfos (hmsg wc (hcq ▸ List.mem_cons_self))]
    rfl

/-- If a request of a peer gets a queue pair only when its older transports are gone, a newer
transport replaces them cleanly. -/
theorem replaced_cleanly (h : sys.Reach OldGone s) : BuffersApart s.real.node ∧ OldSilent s :=
  ⟨(inv_reach h).buffersApart, (inv_reach h).oldSilent⟩

/-- Node 1 of two before anybody has connected. -/
def sampleReconnect : Reconnect := { real := Twin.sampleListener, owner := fun _ => none }

theorem sampleReconnect_start : Start sampleReconnect := by
  refine ⟨⟨rfl, rfl, fun _ _ hc => absurd hc (by simp [sampleReconnect, Twin.sampleListener]),
    fun _ _ => rfl, fun _ => Node.tasksOk_of_default rfl⟩, rfl, rfl⟩

/-- Node 0 connects with a new connection. -/
def sampleRequest (conn : ℕ) : ReconnectEvent :=
  .run (.cm 0 (.connectRequest ⟨conn, false⟩ "192.168.31.182" { verbs := 1 }))

/-- An INIT message of node 0, with key `b`, on transport `t`. -/
def sampleMessage (t : ℕ) (b : UInt8) : ReconnectEvent :=
  .run (.recv t .success (List.replicate 24 0 ++ [b, 0, 0, 0]))

/-- Node 0 connects, its message is handled, it disconnects and connects again. -/
theorem replaced_cleanly_run :
    ∃ s : Reconnect, sys.Reach OldGone s ∧ (s.owner 0 = some 0 ∧ s.owner 1 = some 0 ∧
        s.real.node.connectTrans 0 = some 1 ∧ (s.real.node.qp 1).live = true) ∧
      BuffersApart s.real.node ∧ OldSilent s := by
  obtain ⟨s, hr, hp⟩ := Sys.exists_run_of_replay sys OldGone sampleReconnect
    [sampleRequest 7, sampleMessage 0 5, .run (.poll 0), .run (.cm 0 .disconnected),
      sampleRequest 8]
    (p := fun s => s.owner 0 = some 0 ∧ s.owner 1 = some 0 ∧
      s.real.node.connectTrans 0 = some 1 ∧ (s.real.node.qp 1).live = true) (by decide)
  have hreach : sys.Reach OldGone s := ⟨sampleReconnect, sampleReconnect_start, hr⟩
  exact ⟨s, hreach, hp, replaced_cleanly hreach⟩

/-- Node 0 connects again while its first connection is still there: the two queue pairs send from
one slot, and a message on the old one then replaces the key. -/
theorem old_transport_interferes :
    (∃ s, sys.Reach Sys.Always s ∧ ¬ BuffersApart s.real.node) ∧
      ∃ s, sys.Reach Sys.Always s ∧ ¬ OldSilent s := by
  constructor
  · obtain ⟨s, hr, h0, h1, hsend⟩ := Sys.exists_run_of_replay sys Sys.Always sampleReconnect
      [sampleRequest 7, sampleRequest 8]
      (p := fun s => (s.real.node.qp 0).live = true ∧ (s.real.node.qp 1).live = true ∧
        (s.real.node.trans 0).region.sendAddr = (s.real.node.trans 1).region.sendAddr)
      (by decide)
    refine ⟨s, ⟨sampleReconnect, sampleReconnect_start, hr⟩, fun h => ?_⟩
    have hd := h 0 1 (by decide) h0 h1 _ List.mem_cons_self _ List.mem_cons_self
    simp only [PoolRun.RangesDisjoint, hsend, HMP_TASK_SIZE] at hd
    omega
  · obtain ⟨s, hr, h0, h1, hkey⟩ := Sys.exists_run_of_replay sys Sys.Always sampleReconnect
      [sampleRequest 7, sampleMessage 0 5, sampleRequest 8]
      (p := fun s => s.owner 0 = some 0 ∧ s.owner 1 = some 0 ∧
        ∃ s' ∈ s.step (.run (.poll 0)), (s'.real.node.config.nodeInfos 0).dramMr.rkey ≠
          (s.real.node.config.nodeInfos 0).dramMr.rkey) (by decide)
    obtain ⟨s', hs, hne⟩ := hkey
    exact ⟨s, ⟨sampleReconnect, sampleReconnect_start, hr⟩, fun h => hne (by
      rw [h 0 1 0 (by decide) h0 h1 _ s' (.inr rfl) hs])⟩

end Reconnect

end HMP
