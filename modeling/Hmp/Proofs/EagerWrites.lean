import Hmp.Proofs.OwnWrites
import Hmp.Proofs.ReadPath
import Hmp.Spec.Eager

/-! The memories that the writes leave, and those that writes with the source taken at the call
would leave: they differ by the writes that are queued, as long as the sources of these are left
alone. -/

namespace HMP

namespace Eager

open Transfer

variable {pools : ℕ → HmpMempool} {s s' : Eager}

/-- The write of a call that has not posted its request. -/
def inHand (s : Transfer) (k : ℕ) : List (ℕ × List UInt8) :=
  match s.app with
  | .checking c => if c.nodeId = k then [(c.addr, localBytes s.node c)] else []
  | _ => []

/-- A call of `hmp_write` on its way to the queue pair. -/
structure WriteCall (s : Transfer) (c : RemoteCall) : Prop where
  op : c.op = .write
  lt : c.nodeId < s.node.config.nodeCnt
  ne : c.nodeId ≠ s.node.config.curnodeId
  table : s.node.connectTrans c.nodeId = some c.t

/-- The calling thread is outside, or in `hmp_write`. -/
def AppWrites (s : Transfer) : Prop :=
  match s.app with
  | .idle => True
  | .checking c => WriteCall s c
  | .waiting _ _ => False

/-- The wiring of the cluster, and what the queues hold. -/
structure Wired (s : Transfer) : Prop where
  cur : s.node.config.curnodeId < s.node.config.nodeCnt
  conn : ∀ k < s.node.config.nodeCnt, k ≠ s.node.config.curnodeId →
    ∃ t, s.node.connectTrans k = some t ∧ s.far t = k ∧ (s.node.trans t).transState = .connected
  table : s.node.TableOk
  routed : ∀ t, ∀ wr ∈ (s.node.qp t).sq, wr.opcode = .rdmaWrite →
    ∃ k < s.node.config.nodeCnt, k ≠ s.node.config.curnodeId ∧ s.node.connectTrans k = some t
  reads : ∀ t, ∀ wr ∈ (s.node.qp t).sq, wr.opcode ≠ .rdmaRead

/-- The ideal memories are the real ones once all writes have been executed. -/
structure Inv (s : Eager) : Prop where
  wired : Wired s.real
  app : AppWrites s.real
  own : s.ideal s.real.node.config.curnodeId = s.real.node.mem
  target : ∀ k < s.real.node.config.nodeCnt, k ≠ s.real.node.config.curnodeId → ∀ t,
    s.real.node.connectTrans k = some t → s.ideal k = ((s.real.remote k).puts
      (pendingPuts s.real.node.mem (s.real.node.qp t).sq)).puts (inHand s.real k)
  others : ∀ k, s.real.node.config.nodeCnt ≤ k → s.ideal k = s.real.remote k

theorem Wired.congr {s s' : Transfer} (h : Wired s) (hw : SameWiring s s')
    (hst : ∀ t, (s.node.trans t).transState = .connected → (s'.node.trans t).transState = .connected)
    (hsq : ∀ t, ∀ wr ∈ (s'.node.qp t).sq, wr ∈ (s.node.qp t).sq ∨ wr.opcode = .rdmaWrite ∧
      ∃ k < s.node.config.nodeCnt, k ≠ s.node.config.curnodeId ∧ s.node.connectTrans k = some t) :
    Wired s' where
  cur := by rw [hw.curnodeId, hw.nodeCnt]; exact h.cur
  conn := by
    rw [hw.curnodeId, hw.nodeCnt, hw.table, hw.far]
    intro k hk hne
    obtain ⟨t, ht, hfar, hc⟩ := h.conn k hk hne
    exact ⟨t, ht, hfar, hst t hc⟩
  table := h.table.congr hw.table hw.nextTrans
  routed := by
    rw [hw.curnodeId, hw.nodeCnt, hw.table]
    intro t wr hwr hop
    exact (hsq t wr hwr).elim (fun hm => h.routed t wr hm hop) fun hm => hm.2
  reads := by
    intro t wr hwr hop
    rcases hsq t wr hwr with hm | ⟨hm, -⟩
    · exact h.reads t wr hm hop
    · rw [hm] at hop
      simp at hop

/-- The transport of a node is the one whose queue pair leads there. -/
theorem Wired.far_eq {s : Transfer} (h : Wired s) {k t : ℕ} (hk : k < s.node.config.nodeCnt)
    (hne : k ≠ s.node.config.curnodeId) (ht : s.node.connectTrans k = some t) : s.far t = k := by
  obtain ⟨u, hu, hfar, -⟩ := h.conn k hk hne
  rw [ht] at hu
  exact Option.some.inj hu ▸ hfar

/-- Memory that keeps the sources gives the same queued writes. -/
theorem Wired.pending_eq {s : Transfer} (h : Wired s) {m : Mem} (hm : Keeps s m) (t : ℕ) :
    pendingPuts m (s.node.qp t).sq = pendingPuts s.node.mem (s.node.qp t).sq := by
  unfold pendingPuts
  refine List.filterMap_congr fun wr hw => ?_
  by_cases hop : wr.opcode = .rdmaWrite
  · obtain ⟨k, -, -, ht⟩ := h.routed t wr hw hop
    simp [hop, hm t (h.table k t ht) wr hw hop]
  · simp [hop]

theorem dispatchWc_connected (nd : Node) (wc : IbvWc) {t : ℕ}
    (h : (nd.trans t).transState = .connected) :
    ((dispatchWc nd wc).trans t).transState = .connected := by
  rcases dispatchWc_cases nd wc with he | ⟨-, -, he⟩ | ⟨-, -, he⟩ <;> rw [he]
  · exact h
  · simp only [hmpHandleMrMsg, mrMsgState, Node.setState_trans]
    by_cases ht : t = (nd.task wc.wrId).rdmaTrans
    · rw [← ht, Function.update_self]
    · rw [Function.update_of_ne ht]
      exact h
  · exact h

/-- The calling thread is outside: nothing is in hand. -/
theorem inHand_idle {s : Transfer} (h : s.app = .idle) (k : ℕ) : inHand s k = [] := by
  simp [inHand, h]

theorem Keeps.refl (s : Transfer) : Keeps s s.node.mem := fun _ _ _ _ _ => rfl

/-- A step that leaves the queues and the other memories alone, and the own memory except between
two calls. -/
theorem Inv.frame (h : Inv s) (hw : SameWiring s.real s'.real)
    (hst : ∀ t, (s.real.node.trans t).transState = .connected →
      (s'.real.node.trans t).transState = .connected)
    (hsq : ∀ t, (s'.real.node.qp t).sq = (s.real.node.qp t).sq)
    (happ : s'.real.app = s.real.app) (hremote : s'.real.remote = s.real.remote)
    (hkeeps : Keeps s.real s'.real.node.mem)
    (hmem : s.real.app = .idle ∨ s'.real.node.mem = s.real.node.mem)
    (hown : s'.ideal s.real.node.config.curnodeId = s'.real.node.mem)
    (hid : ∀ k, k ≠ s.real.node.config.curnodeId → s'.ideal k = s.ideal k) : Inv s' where
  wired := h.wired.congr hw hst fun t wr hm => .inl (hsq t ▸ hm)
  app := by
    have ha := h.app
    unfold AppWrites at ha ⊢
    rw [happ]
    cases hc : s.real.app with
    | idle => trivial
    | checking c =>
      rw [hc] at ha
      exact ⟨ha.op, hw.nodeCnt ▸ ha.lt, hw.curnodeId ▸ ha.ne, hw.table ▸ ha.table⟩
    | waiting c p =>
      rw [hc] at ha
      exact ha
  own := by rw [hw.curnodeId]; exact hown
  target := by
    rw [hw.nodeCnt, hw.curnodeId, hw.table]
    intro k hk hne t ht
    have hhand : inHand s'.real k = inHand s.real k := by
      rcases hmem with hidle | hmem
      · rw [inHand_idle hidle, inHand_idle (happ.trans hidle)]
      · simp only [inHand, happ, localBytes, hmem]
    rw [hid k hne, h.target k hk hne t ht, hremote, hsq, h.wired.pending_eq hkeeps, hhand]
  others := by
    rw [hw.nodeCnt, hremote]
    intro k hk
    rw [hid k (by have := h.wired.cur; omega)]
    exact h.others k hk

theorem inv_store {addr : ℕ} {bytes : List UInt8} (h : Inv s)
    (hok : KeepsSources pools s (.store addr bytes)) (hs : s.step (.store addr bytes) = some s') :
    Inv s' := by
  obtain ⟨hidle, hkeeps⟩ := hok
  obtain rfl := Option.some.inj hs
  refine h.frame ⟨rfl, rfl, rfl, rfl, rfl⟩ (fun _ => id) (fun _ => rfl) rfl rfl hkeeps (.inl hidle)
    ?_ fun k hk => Function.update_of_ne hk ..
  simp only [idealStep, Function.update_self, h.own]

theorem inv_poll {t : ℕ} (h : Inv s) (hs : s.step (.poll t) = some s') : Inv s' := by
  obtain ⟨r, hr, rfl⟩ := Option.map_eq_some_iff.mp hs
  obtain ⟨wc, rest, hcq, -, -, rfl⟩ := pollStep_some hr
  obtain ⟨hqp, -, htrans, htable, hmem, -⟩ :=
    dispatchWc_frame (s.real.node.setQp t { s.real.node.qp t with cq := rest }) wc
  refine h.frame ⟨?_, dispatchWc_curnodeId _ wc, htable, htrans, rfl⟩
    (fun u hu => dispatchWc_connected _ wc hu) (fun u => ?_) rfl rfl ?_ (.inr hmem) ?_ fun _ _ => rfl
  · rcases dispatchWc_cases (s.real.node.setQp t { s.real.node.qp t with cq := rest }) wc with
      he | ⟨-, -, he⟩ | ⟨-, -, he⟩ <;> simp only [he] <;> rfl
  · dsimp only
    rw [hqp]
    by_cases hut : u = t
    · subst hut; simp
    · simp [hut]
  · exact hmem ▸ Keeps.refl s.real
  · exact h.own.trans hmem.symm

/-- The call goes to the own pool and copies at once. -/
theorem inv_call_copied {localSrc : ℕ} {hmAddr : BitVec 64} {length : ℤ} {mem : Mem} (h : Inv s)
    (hok : KeepsSources pools s (.call .write localSrc hmAddr length))
    (hidle : s.real.app = .idle)
    (ha : access s.real.node .write localSrc hmAddr length = some (.copied mem))
    (hwire : SameWiring s.real s'.real) (htrans : s'.real.node.trans = s.real.node.trans)
    (hqp : s'.real.node.qp = s.real.node.qp) (happ : s'.real.app = s.real.app)
    (hremote : s'.real.remote = s.real.remote) (hmem : s'.real.node.mem = mem)
    (hid : s'.ideal = s.idealStep (.call .write localSrc hmAddr length)) : Inv s' := by
  obtain ⟨⟨-, hpos, hlt, -⟩, hkept⟩ := hok
  obtain ⟨r, hr, hown, hcopy⟩ := access_copied ha
  obtain ⟨-, hm⟩ := memcpy_some hcopy
  have hlen : (length % 2 ^ 64).toNat = length.toNat := by omega
  rw [hlen] at hm
  have hkeeps := hkept r hr hown
  rw [← hm, ← hmem] at hkeeps
  have hideal : s'.ideal =
      Function.update s.ideal s.real.node.config.curnodeId s'.real.node.mem := by
    rw [hid, idealStep, hr, Option.elim_some, copyNow, hown, h.own, hmem, hm]
  refine h.frame hwire (fun t => by rw [htrans]; exact id) (fun t => by rw [hqp]) happ hremote hkeeps
    (.inl hidle) ?_ fun k hk => ?_
  · rw [hideal, Function.update_self]
  · rw [hideal, Function.update_of_ne hk]

/-- The call goes to another node, and its write is in hand. -/
theorem inv_call_remote {localSrc t addr : ℕ} {hmAddr : BitVec 64} {length : ℤ} (h : Inv s)
    (hok : KeepsSources pools s (.call .write localSrc hmAddr length))
    (hidle : s.real.app = .idle)
    (ha : access s.real.node .write localSrc hmAddr length = some (.remote t addr))
    (hnode : s'.real.node = s.real.node) (hfar : s'.real.far = s.real.far)
    (hremote : s'.real.remote = s.real.remote) {k : ℕ} {x : BitVec 64}
    (hr : hmpGetHmNodeId s.real.node.config.nodeCnt hmAddr = some (k, x))
    (happ : s'.real.app = .checking ⟨.write, k, t, localSrc, addr, length⟩)
    (hid : s'.ideal = s.idealStep (.call .write localSrc hmAddr length)) : Inv s' := by
  obtain ⟨⟨-, hpos, hlt, -⟩, -⟩ := hok
  obtain ⟨r, hr', hne, htable, rfl⟩ := access_remote ha
  obtain rfl : (k, x) = r := Option.some.inj (hr.symm.trans hr')
  have hk : k < s.real.node.config.nodeCnt := hmpGetHmNodeId_lt hr
  have hlen : (length % 2 ^ 32).toNat = length.toNat := by omega
  have hideal : s'.ideal = Function.update s.ideal k
      ((s.ideal k).write x.toNat (s.real.node.mem.read localSrc length.toNat)) := by
    rw [hid, idealStep, hr, Option.elim_some, copyNow, h.own]
  refine ⟨h.wired.congr ⟨by rw [hnode], by rw [hnode], by rw [hnode], by rw [hnode], hfar⟩
    (fun u => by rw [hnode]; exact id) (fun u wr hw => .inl (hnode ▸ hw)), ?_, ?_, ?_, ?_⟩
  · simp only [AppWrites, happ]
    exact ⟨rfl, by rw [hnode]; exact hk, by rw [hnode]; exact hne, by rw [hnode]; exact htable⟩
  · rw [hnode, hideal, Function.update_of_ne (Ne.symm hne)]
    exact h.own
  · rw [hnode, hremote, hideal]
    intro j hj hjne u hu
    have hold := h.target j hj hjne u hu
    rw [inHand_idle hidle, Mem.puts_nil] at hold
    by_cases hjk : j = k
    · subst hjk
      obtain rfl : u = t := Option.some.inj (hu.symm.trans htable)
      have hhand : inHand s'.real j =
          [(x.toNat, s.real.node.mem.read localSrc length.toNat)] := by
        simp only [inHand, happ, localBytes, hnode, hlen, if_true]
      rw [Function.update_self, hold, hhand]
      rfl
    · rw [Function.update_of_ne hjk, hold]
      simp [inHand, happ, Ne.symm hjk]
  · rw [hnode, hremote, hideal]
    intro j hj
    rw [Function.update_of_ne (by omega)]
    exact h.others j hj

theorem inv_call {op : TransferOp} {localSrc : ℕ} {hmAddr : BitVec 64} {length : ℤ} (h : Inv s)
    (hok : KeepsSources pools s (.call op localSrc hmAddr length))
    (hs : s.step (.call op localSrc hmAddr length) = some s') : Inv s' := by
  obtain rfl : op = .write := hok.1.1
  obtain ⟨r', hr, rfl⟩ := Option.map_eq_some_iff.mp hs
  obtain ⟨hidle, ⟨k, x⟩, hk, ⟨mem, ha, rfl⟩ | ⟨t, addr, ha, rfl⟩⟩ := callStep_some hr
  · exact inv_call_copied h hok hidle ha ⟨rfl, rfl, rfl, rfl, rfl⟩ rfl rfl rfl rfl rfl rfl
  · exact inv_call_remote h hok hidle ha rfl rfl rfl hk rfl rfl

/-- The write moves from the call to the queue of its node. -/
theorem inv_check {o : PostOutcome} (h : Inv s) (hok : KeepsSources pools s (.check o))
    (hs : s.step (.check o) = some s') : Inv s' := by
  obtain ⟨ht, he⟩ := o.posted_iff.mp hok.1
  obtain rfl : o = {} := by
    cases o
    subst ht he
    rfl
  obtain ⟨r, hr, rfl⟩ := Option.map_eq_some_iff.mp hs
  have hr : s.real.checkStep {} = some r := hr
  obtain ⟨c, happ, -⟩ := checkStep_some hr
  have hcall : WriteCall s.real c := by
    have ha := h.app
    rwa [AppWrites, happ] at ha
  obtain ⟨t, ht, -, hst⟩ := h.wired.conn _ hcall.lt hcall.ne
  obtain rfl : c.t = t := Option.some.inj (hcall.table.symm.trans ht)
  rw [checkStep_write happ hcall.op hst] at hr
  obtain rfl := Option.some.inj hr
  have ha : Appended s.real (afterWrite s.real c) c.t
      (transferWr s.real.node .rdmaWrite c.t c.localAddr c.addr c.length) :=
    appended_withPosted rfl rfl rfl
  have hidle : (afterWrite s.real c).app = .idle := rfl
  refine ⟨h.wired.congr ha.wiring (fun u => id) (fun u wr hw => ?_), trivial, ?_, ?_, h.others⟩
  · refine (ha.cases hw).imp id ?_
    rintro ⟨rfl, rfl⟩
    exact ⟨rfl, _, hcall.lt, hcall.ne, hcall.table⟩
  · rw [ha.mem, ha.wiring.curnodeId]
    exact h.own
  · rw [ha.wiring.nodeCnt, ha.wiring.curnodeId, ha.wiring.table]
    intro k hk hne u hu
    refine (h.target k hk hne u hu).trans ?_
    dsimp only
    rw [ha.pending, inHand_idle hidle, ← Mem.puts_append, Mem.puts_nil, ha.remote]
    by_cases hkc : k = c.nodeId
    · subst hkc
      obtain rfl : u = c.t := Option.some.inj (hu.symm.trans hcall.table)
      simp [inHand, happ, pendingPuts, transferWr, localBytes]
    · have huc : u ≠ c.t := by
        rintro rfl
        exact hkc ((h.wired.far_eq hk hne hu).symm.trans
          (h.wired.far_eq hcall.lt hcall.ne hcall.table))
      simp [inHand, happ, Ne.symm hkc, huc]

/-- A request is finished that leaves the own memory alone. -/
theorem Inv.finished {r : Transfer} {t : ℕ} {wr : IbvSendWr} {rest : List IbvSendWr} (h : Inv s)
    (hf : Finished s.real r t wr rest)
    (hst : ∀ u, (s.real.node.trans u).transState = .connected →
      (r.node.trans u).transState = .connected)
    (hmem : r.node.mem = s.real.node.mem)
    (htarget : ∀ k < s.real.node.config.nodeCnt, k ≠ s.real.node.config.curnodeId → ∀ u,
      s.real.node.connectTrans k = some u →
        (r.remote k).puts (pendingPuts s.real.node.mem (r.node.qp u).sq) =
          (s.real.remote k).puts (pendingPuts s.real.node.mem (s.real.node.qp u).sq))
    (hothers : ∀ k, s.real.node.config.nodeCnt ≤ k → r.remote k = s.real.remote k) :
    Inv ⟨r, s.ideal⟩ where
  wired := h.wired.congr hf.wiring hst fun u w hw => .inl (hf.subset u hw)
  app := by
    have ha := h.app
    unfold AppWrites at ha ⊢
    dsimp only
    rw [hf.app]
    cases hc : s.real.app with
    | idle => trivial
    | checking c =>
      rw [hc] at ha
      exact ⟨ha.op, hf.wiring.nodeCnt ▸ ha.lt, hf.wiring.curnodeId ▸ ha.ne,
        hf.wiring.table ▸ ha.table⟩
    | waiting c p =>
      rw [hc] at ha
      exact ha
  own := by
    dsimp only
    rw [hf.wiring.curnodeId, hmem]
    exact h.own
  target := by
    dsimp only
    rw [hf.wiring.nodeCnt, hf.wiring.curnodeId, hf.wiring.table, hmem]
    intro k hk hne u hu
    have hhand : inHand r k = inHand s.real k := by
      simp only [inHand, hf.app, localBytes, hmem]
    rw [h.target k hk hne u hu, htarget k hk hne u hu, hhand]
  others := by
    dsimp only
    rw [hf.wiring.nodeCnt]
    intro k hk
    rw [h.others k hk, hothers k hk]

/-- The oldest write of a queue is executed, with its source as it was at the call. -/
theorem inv_complete {t : ℕ} {status : IbvWcStatus} (h : Inv s)
    (hok : KeepsSources pools s (.complete t status))
    (hs : s.step (.complete t status) = some s') : Inv s' := by
  have hst : status = .success := hok.1
  obtain ⟨r, hr, rfl⟩ := Option.map_eq_some_iff.mp hs
  have htrans : r.node.trans = s.real.node.trans := by
    obtain ⟨-, -, -, -, -, -, -, rfl⟩ := completeStep_some hr
    rfl
  obtain ⟨wr, rest, hf, hdata⟩ := completeStep_finished hr
  obtain ⟨hmem, hremote⟩ := hdata hst
  have hwr : wr ∈ (s.real.node.qp t).sq := by simp [hf.before]
  have hconn : ∀ u, (s.real.node.trans u).transState = .connected →
      (r.node.trans u).transState = .connected := fun u hu => htrans ▸ hu
  have hpending : ∀ u, u ≠ t → pendingPuts s.real.node.mem (r.node.qp u).sq =
      pendingPuts s.real.node.mem (s.real.node.qp u).sq := fun u hu => by rw [hf.others u hu]
  cases hop : wr.opcode with
  | send =>
    simp only [transferData, hop] at hmem hremote
    refine h.finished hf hconn hmem (fun k _ _ u _ => ?_) fun k _ => by rw [hremote]
    rw [hremote]
    by_cases hut : u = t
    · subst hut
      rw [hf.sq, hf.before, pendingPuts_cons, if_neg (by simp [hop]), List.nil_append]
    · rw [hpending u hut]
  | rdmaWrite =>
    simp only [transferData, hop] at hmem hremote
    obtain ⟨j, hj, hjne, htj⟩ := h.wired.routed t wr hwr hop
    have hfar : s.real.far t = j := h.wired.far_eq hj hjne htj
    rw [hfar] at hremote
    refine h.finished hf hconn hmem (fun k hk hne u hu => ?_) fun k hk => ?_
    · by_cases hut : u = t
      · subst hut
        obtain rfl : j = k := hfar.symm.trans (h.wired.far_eq hk hne hu)
        rw [hremote, Function.update_self, hf.sq, hf.before, pendingPuts_cons, if_pos hop,
          List.singleton_append, Mem.puts_cons]
      · have hkj : k ≠ j := by
          rintro rfl
          exact hut (Option.some.inj (hu.symm.trans htj))
        rw [hremote, Function.update_of_ne hkj, hpending u hut]
    · rw [hremote, Function.update_of_ne (by omega)]
  | rdmaRead => exact absurd hop (h.wired.reads t wr hwr)

/-- Without queued writes the ideal memories are the real ones. -/
theorem Inv.memOf_eq (h : Inv s) (hidle : s.real.app = .idle)
    (hempty : ∀ t, ∀ wr ∈ (s.real.node.qp t).sq, wr.opcode ≠ .rdmaWrite) (k : ℕ) :
    s.real.memOf k = s.ideal k := by
  by_cases hown : k = s.real.node.config.curnodeId
  · subst hown
    rw [memOf, if_pos rfl, h.own]
  · rw [memOf, if_neg hown]
    by_cases hk : k < s.real.node.config.nodeCnt
    · obtain ⟨t, ht, -⟩ := h.wired.conn k hk hown
      have hnone : pendingPuts s.real.node.mem (s.real.node.qp t).sq = [] := by
        refine List.filterMap_eq_nil_iff.mpr fun wr hwr => if_neg (hempty t wr hwr)
      rw [h.target k hk hown t ht, hnone, inHand_idle hidle]
      rfl
    · exact (h.others k (by omega)).symm

theorem inv_start (h : Start pools s) : Inv s := by
  obtain ⟨hfc, hready, hideal⟩ := h
  refine ⟨⟨hfc.curnodeId, fun k hk hne => ?_, hready.start.2.2.1, fun t wr hwr hop => ?_,
    fun t wr hwr => by simp [hready.sends t wr hwr]⟩, by simp [AppWrites, hready.idle], ?_, ?_, ?_⟩
  · obtain ⟨t, ht, hfar, -, hc⟩ := hfc.conn k hk hne
    exact ⟨t, ht, hfar, hc⟩
  · rw [hready.sends t wr hwr] at hop
    exact absurd hop (by decide)
  · rw [hideal, memOf, if_pos rfl]
  · intro k _ hne t _
    have hnone : pendingPuts s.real.node.mem (s.real.node.qp t).sq = [] :=
      List.filterMap_eq_nil_iff.mpr fun wr hwr => if_neg (by simp [hready.sends t wr hwr])
    rw [hideal, memOf, if_neg hne, hnone, inHand_idle hready.idle]
    rfl
  · intro k hk
    have := hfc.curnodeId
    rw [hideal, memOf, if_neg (by omega)]

theorem inv_step {e : TransferEvent} (h : Inv s) (hok : KeepsSources pools s e)
    (hs : (sys pools).step s e = some s') : Inv s' := by
  cases e with
  | call op localSrc hmAddr length => exact inv_call h hok hs
  | check o => exact inv_check h hok hs
  | complete t status => exact inv_complete h hok hs
  | poll t => exact inv_poll h hs
  | store addr bytes => exact inv_store h hok hs
  | ret | recv | cm | loopExit | storeRemote => exact hok.1.elim

/-- As long as the sources of queued writes are left alone, the memories are, once all writes have
been executed, those that copies at the calls would have left. -/
theorem writes_take_source_at_call (h : (sys pools).Reach (KeepsSources pools) s)
    (hidle : s.real.app = .idle)
    (hdone : ∀ t, ∀ wr ∈ (s.real.node.qp t).sq, wr.opcode ≠ .rdmaWrite) (k : ℕ) :
    s.real.memOf k = s.ideal k :=
  (h.inv (I := Inv) (fun _ => inv_start) fun _ _ _ hi hv hst => inv_step hi hv hst).memOf_eq
    hidle hdone k

/-- Node 0 of two at the start. -/
def sampleEager : Eager := ⟨sampleTransfer, sampleTransfer.memOf⟩

theorem sampleEager_start : Start (fun _ => samplePool) sampleEager :=
  ⟨sampleTransfer_connected, sampleTransfer_ready, rfl⟩

/-- The write of a byte at address 4416 to address 4480 of node 1. -/
def sampleWrite : TransferEvent :=
  .call .write 4416 (hmpGetHybridMempoolAddr 1 + BitVec.ofNat 64 4480) 1

/-- A byte is stored and written to node 1, and the buffer is stored to when the write has been
executed. -/
theorem writes_take_source_at_call_later :
    ∃ s : Eager, (sys fun _ => samplePool).Reach (KeepsSources fun _ => samplePool) s ∧
      s.real.node.mem 4416 = 2 ∧ s.real.memOf 1 4480 = 1 ∧ ∀ k, s.real.memOf k = s.ideal k := by
  obtain ⟨s, hs, hbuf, hmem, hidle, hempty⟩ : ∃ s,
      (sys fun _ => samplePool).replay (KeepsSources fun _ => samplePool) sampleEager
        [.store 4416 [1], sampleWrite, .check {}, .complete 0 .success, .store 4416 [2]] = some s ∧
      s.real.node.mem 4416 = 2 ∧ s.real.memOf 1 4480 = 1 ∧ s.real.app = .idle ∧
      ∀ t, (s.real.node.qp t).sq = [] :=
    ⟨_, rfl, by decide, by decide, rfl, fun t => by cases t <;> rfl⟩
  have hreach : (sys fun _ => samplePool).Reach (KeepsSources fun _ => samplePool) s :=
    ⟨sampleEager, sampleEager_start, Sys.replay_run _ hs⟩
  exact ⟨s, hreach, hbuf, hmem,
    writes_take_source_at_call hreach hidle fun t wr hwr => by simp_all⟩

/-- The buffer is stored to before the adapter executes the write, and the new byte arrives. -/
theorem write_takes_later_store :
    ¬ ∀ (pools : ℕ → HmpMempool) (s : Eager), (sys pools).Reach (WritesOnly pools) s →
      s.real.app = .idle → (∀ t, ∀ wr ∈ (s.real.node.qp t).sq, wr.opcode ≠ .rdmaWrite) →
      ∀ k, s.real.memOf k = s.ideal k := by
  intro h
  obtain ⟨s, hs, hreal, hideal, hidle, hempty⟩ : ∃ s,
      (sys fun _ => samplePool).replay (WritesOnly fun _ => samplePool) sampleEager
        [.store 4416 [1], sampleWrite, .check {}, .store 4416 [2], .complete 0 .success] = some s ∧
      s.real.memOf 1 4480 = 2 ∧ s.ideal 1 4480 = 1 ∧ s.real.app = .idle ∧
      ∀ t, (s.real.node.qp t).sq = [] :=
    ⟨_, rfl, by decide, by decide, rfl, fun t => by cases t <;> rfl⟩
  have hequal := h _ s ⟨sampleEager, sampleEager_start, Sys.replay_run _ hs⟩ hidle
    (fun t wr hwr => by simp_all) 1
  rw [hequal, hideal] at hreal
  exact absurd hreal (by decide)

end Eager

end HMP
