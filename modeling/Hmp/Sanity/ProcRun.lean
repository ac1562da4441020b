import Hmp.Sanity.Devices
import Hmp.Sanity.NodeInit
import Hmp.Sanity.Resources
import Hmp.Spec.ProcRun

/-! What the steps of a process do to the memory regions and the queue pairs, and which steps of the
node they are. -/

namespace HMP

namespace World

theorem hmpCqGet_regions (w : World) (o : QpCalls) :
    (w.hmpCqGet o).1.qps = w.qps ∧ (w.hmpCqGet o).1.mrs = w.mrs := by
  rw [hmpCqGet_eq]
  split_ifs <;>
    simp [withCq, registered, withChannel, cleanEventFd, cleanChannel, cleanHcq]

theorem releaseHcq_regions (w : World) (h : ℕ) :
    (w.releaseHcq h).qps = w.qps ∧ (w.releaseHcq h).mrs = w.mrs := by
  unfold releaseHcq
  cases w.hcqs.get h with
  | none => exact ⟨rfl, rfl⟩
  | some x => cases hq : x.cq <;> cases hc : x.compChannel <;> simp [hq, hc]

theorem hmpEventChannelCreate_regions (w : World) (o : ChannelCalls) :
    (w.hmpEventChannelCreate o).1.qps = w.qps ∧ (w.hmpEventChannelCreate o).1.mrs = w.mrs := by
  unfold hmpEventChannelCreate
  dsimp only
  split_ifs <;> simp

end World

/-- The queue pair has been created on `d`. -/
def IbvQp.On (q : IbvQp) (d : HmpDevice) : Prop := q.verbs = d.verbs ∧ q.pd = d.pd

namespace Proc

/-- The regions stay, queue pairs are created on devices of `D` only, and of what Transfer has only
the node changes. -/
structure Within (D : HmpDevice → Prop) (p p' : Proc) : Prop where
  real : p'.real = { p.real with node := p'.node }
  mr : p'.mr = p.mr
  mrs : p'.world.mrs = p.world.mrs
  qps : ∀ i q, p'.world.qps.get i = some q →
    p.world.qps.get i = some q ∨ ∃ d, D d ∧ q.On d

namespace Within

variable {D : HmpDevice → Prop} {p p₁ p₂ : Proc}

theorem trans (h₁ : Within D p p₁) (h₂ : Within D p₁ p₂) : Within D p p₂ where
  real := by rw [h₂.real, h₁.real]
  mr := h₂.mr.trans h₁.mr
  mrs := h₂.mrs.trans h₁.mrs
  qps i q h := (h₂.qps i q h).elim (h₁.qps i q) .inr

theorem setNode (p : Proc) (nd : Node) : Within D p (p.setNode nd) := ⟨rfl, rfl, rfl, fun _ _ h => .inl h⟩

theorem setPtrs (p : Proc) (t : ℕ) (x : TransPtrs) : Within D p (p.setPtrs t x) :=
  ⟨rfl, rfl, rfl, fun _ _ h => .inl h⟩

theorem setCm (p : Proc) (cm : CmId) (x : CmPtrs) : Within D p (p.setCm cm x) :=
  ⟨rfl, rfl, rfl, fun _ _ h => .inl h⟩

theorem setWorld {w : World} (hm : w.mrs = p.world.mrs)
    (hq : ∀ i q, w.qps.get i = some q →
      p.world.qps.get i = some q ∨ ∃ d, D d ∧ q.On d) : Within D p (p.setWorld w) :=
  ⟨rfl, rfl, hm, hq⟩

theorem setWorld_same {w : World} (h : w.qps = p.world.qps ∧ w.mrs = p.world.mrs) :
    Within D p (p.setWorld w) := .setWorld h.2 fun i q hq => .inl (by rwa [← h.1])

end Within

variable {D : HmpDevice → Prop} (p : Proc) (t : ℕ) (cm : CmId)

theorem hmpQpCreate_within {d : HmpDevice} (hd : D d) (o : QpCalls) :
    Within D p (p.hmpQpCreate t cm d o).1 := by
  have hcq := p.world.hmpCqGet_regions o
  unfold hmpQpCreate
  generalize p.world.hmpCqGet o = r at hcq ⊢
  obtain ⟨w, _ | h⟩ := r
  · exact .setWorld_same hcq
  · dsimp only at hcq ⊢
    split_ifs
    · exact .setWorld_same hcq
    · refine ⟨rfl, rfl, hcq.2, fun i q hq => ?_⟩
      rcases Heap.alloc_get_some hq with ⟨-, rfl⟩ | hq
      · exact .inr ⟨d, hd, rfl, rfl⟩
      · exact .inl (by rwa [← hcq.1])

theorem hmpQpRelease_within : Within D p (p.hmpQpRelease t) := by
  unfold hmpQpRelease
  split
  · exact ⟨rfl, rfl, rfl, fun _ _ h => .inl h⟩
  · rename_i q _
    have hfree (i : ℕ) (x : IbvQp) (hx : (p.world.destroyQp q).qps.get i = some x) :
        p.world.qps.get i = some x := (Heap.free_get_some hx).2
    refine ((Within.setWorld ?_ fun i x hx => .inl (hfree i x ?_)).trans (.setNode _ _)).trans
      (.setPtrs _ _ _)
    · cases (p.ptrs t).hcq with
      | none => rfl
      | some h => exact (World.releaseHcq_regions _ h).2
    · cases hh : (p.ptrs t).hcq with
      | none => rwa [hh] at hx
      | some h =>
        rw [hh] at hx
        rwa [← (World.releaseHcq_regions _ h).1]

theorem onCmRouteResolved_within {d : HmpDevice} (hd : D d) (o : RouteCalls) :
    Within D p (p.onCmRouteResolved t cm d o).1 := by
  have hqp := p.hmpQpCreate_within t cm hd o.qp
  unfold onCmRouteResolved
  dsimp only
  split_ifs
  · exact hqp
  · exact ((hqp.trans (.setNode _ _)).trans (hmpQpRelease_within _ t)).trans (.setNode _ _)
  · exact hqp.trans (.setNode _ _)

theorem hmpTransportCreate_within (o : CreateCalls) : Within D p (p.hmpTransportCreate o).1 := by
  have hch := p.world.hmpEventChannelCreate_regions o.toChannelCalls
  unfold hmpTransportCreate
  split_ifs
  · generalize p.world.hmpEventChannelCreate o.toChannelCalls = r at hch ⊢
    obtain ⟨w, _ | fd⟩ := r
    · exact .setWorld_same hch
    · exact ((Within.setWorld_same hch).trans (.setNode _ _)).trans (.setPtrs _ _ _)
  · exact ⟨rfl, rfl, rfl, fun _ _ h => .inl h⟩

theorem requestAccept_within (peerAddr : String) (o : RequestCalls) :
    Within D p (p.requestAccept t peerAddr o).1 := by
  unfold requestAccept
  dsimp only
  split_ifs <;> exact .setNode _ _

/-- The device of a request is looked up. -/
theorem onCmConnectRequest_within (peerAddr : String) (o : RequestCalls)
    (hd : ∀ d, p.node.Finds d → D d) : Within D p (p.onCmConnectRequest cm peerAddr o).1 := by
  have hcreate : Within D p (p.hmpTransportCreate o.create).1 := p.hmpTransportCreate_within o.create
  have hlist : (p.hmpTransportCreate o.create).1.node.devList = p.node.devList := by
    cases hok : o.create.ok with
    | false =>
      obtain ⟨w, hw, -⟩ := p.hmpTransportCreate_failed hok
      rw [hw]
      rfl
    | true =>
      rw [p.hmpTransportCreate_ok hok]
      rfl
  unfold onCmConnectRequest
  generalize p.hmpTransportCreate o.create = r at hcreate hlist ⊢
  obtain ⟨p₁, _ | t⟩ := r
  · exact hcreate
  · dsimp only at hcreate hlist ⊢
    have hreq : Within D p (p₁.requestDevice t cm o) :=
      (hcreate.trans (.setNode _ _)).trans (.setCm _ _ _)
    cases hl : hmpDeviceLookup p₁.node o.verbs with
    | none => exact hreq
    | some d =>
      have hfind : p.node.Finds d := (Node.Finds.of_lookup hl).congr hlist.symm
      have hqp := hreq.trans ((p₁.requestDevice t cm o).hmpQpCreate_within t cm (hd d hfind) o.qp)
      dsimp only
      split_ifs
      · exact hqp
      · exact hqp.trans (requestAccept_within _ t peerAddr o)

theorem onCmDisconnected_within : Within D p (p.onCmDisconnected t cm).1 := by
  have hdel (w : World) (fd : Option ℕ) :
      (fd.elim w w.delEventFd).qps = w.qps ∧ (fd.elim w w.delEventFd).mrs = w.mrs := by
    cases fd <;> exact ⟨rfl, rfl⟩
  have hqp (w : World) (q : Option ℕ) : (q.elim w w.destroyQp).mrs = w.mrs ∧
      ∀ i x, (q.elim w w.destroyQp).qps.get i = some x → w.qps.get i = some x := by
    cases q with
    | none => exact ⟨rfl, fun _ _ h => h⟩
    | some q => exact ⟨rfl, fun _ _ h => (Heap.free_get_some h).2⟩
  refine ⟨rfl, rfl, ?_, fun i x hx => .inl ?_⟩
  · exact ((hdel _ _).2.trans (hdel _ _).2).trans (hqp _ _).1
  · rw [show (p.onCmDisconnected t cm).1.world.qps =
      ((p.cm cm).qp.elim p.world p.world.destroyQp).qps from (hdel _ _).1.trans (hdel _ _).1] at hx
    exact (hqp p.world (p.cm cm).qp).2 i x hx

/-- A handler creates queue pairs on the device of its transport or on one that it looks up. -/
theorem hmpHandleEcEvent_within {p p' : Proc} {t : ℕ} {e : CmCalls} {r : ℤ}
    (h : p.hmpHandleEcEvent t e = some (p', r))
    (ht : ∀ d, (p.node.trans t).device = some d → D d) (hd : ∀ d, p.node.Finds d → D d) :
    Within D p p' := by
  cases e with
  | addrResolved | established | other =>
    simp only [hmpHandleEcEvent, Option.some.injEq, Prod.mk.injEq] at h
    obtain ⟨rfl, -⟩ := h
    exact .setNode _ _
  | routeResolved o =>
    simp only [hmpHandleEcEvent, Option.bind_eq_some_iff, Option.map_eq_some_iff] at h
    obtain ⟨cm, -, d, hdev, h⟩ := h
    have hp : p' = (p.onCmRouteResolved t cm d o).1 := by rw [h]
    exact hp ▸ p.onCmRouteResolved_within t cm (ht d hdev) o
  | connectRequest cm peerAddr o =>
    have hp : p' = (p.onCmConnectRequest cm peerAddr o).1 := by rw [Option.some.inj h]
    exact hp ▸ p.onCmConnectRequest_within cm peerAddr o hd
  | disconnected =>
    simp only [hmpHandleEcEvent, Option.map_eq_some_iff] at h
    obtain ⟨cm, -, h⟩ := h
    have hp : p' = (p.onCmDisconnected t cm).1 := by rw [h]
    exact hp ▸ p.onCmDisconnected_within t cm

theorem CmCalls.outcome_type (e : CmCalls) : e.outcome.type = e.type := by cases e <;> rfl

/-! ## The main thread -/

theorem peerCreate_keeps {p p' : Proc} {i t : ℕ} {o : CreateCalls}
    (h : p.peerCreate i o = (p', some t)) : Within D p p' ∧ p.node.KeepsDevices p'.node ∧
      p'.node.dramMempool = p.node.dramMempool := by
  have hw : Within D p (p.hmpTransportCreate o).1 := p.hmpTransportCreate_within o
  unfold peerCreate at h
  obtain ⟨rfl, ht⟩ := Prod.mk.inj h
  refine ⟨hw.trans (.setNode _ _), ?_⟩
  cases hok : o.ok with
  | false =>
    obtain ⟨w, hw, -⟩ := p.hmpTransportCreate_failed hok
    rw [hw] at ht
    cases ht
  | true =>
    rw [p.hmpTransportCreate_ok hok]
    exact ⟨.of_update rfl rfl fun _ h => (nomatch h), rfl⟩

theorem peerCreate_entry {p p' : Proc} {i t : ℕ} {o : CreateCalls}
    (h : p.peerCreate i o = (p', some t)) : p'.node.connectTrans i = some t := by
  unfold peerCreate at h
  obtain ⟨rfl, ht⟩ := Prod.mk.inj h
  rw [← ht]
  exact Function.update_self ..

theorem connectEntry_keeps (nd : Node) (t : ℕ) (url : String) (port pton : ℤ) :
    nd.KeepsDevices (connectEntry nd t url port pton).1 ∧
      (connectEntry nd t url port pton).1.dramMempool = nd.dramMempool := by
  have huri : nd.KeepsDevices (hmpPortUriInit nd t url port pton).1 ∧
      (hmpPortUriInit nd t url port pton).1.dramMempool = nd.dramMempool := by
    unfold hmpPortUriInit
    split_ifs
    · exact ⟨.same rfl rfl, rfl⟩
    · exact ⟨.of_update rfl rfl fun _ h => .inl h, rfl⟩
  unfold connectEntry
  dsimp only
  split_ifs
  · exact ⟨.same rfl rfl, rfl⟩
  · exact huri
  · exact huri

/-- The calls on the identifier set the pointer to it. -/
theorem setCmId_keeps (nd : Node) (t : ℕ) (cm : Option CmId) :
    nd.KeepsDevices (nd.setTrans t { nd.trans t with cmId := cm }) :=
  .of_update rfl rfl fun _ h => .inl h

theorem hmpTransportConnect_keeps (p : Proc) (t : ℕ) (url : String) (port : ℤ) (o : ConnectCalls) :
    Within D p (p.hmpTransportConnect t url port o).1 ∧
      p.node.KeepsDevices (p.hmpTransportConnect t url port o).1.node ∧
        (p.hmpTransportConnect t url port o).1.node.dramMempool = p.node.dramMempool := by
  obtain ⟨hentry, hpool⟩ := connectEntry_keeps p.node t url port o.pton
  unfold hmpTransportConnect
  generalize connectEntry p.node t url port o.pton = r at hentry hpool ⊢
  obtain ⟨nd, _ | ret⟩ := r
  · dsimp only at hentry hpool ⊢
    have hid := hentry.trans (setCmId_keeps nd t (some o.cm))
    by_cases hc : o.createId ≠ 0
    · rw [connectCreateId, if_pos hc]
      exact ⟨.setNode _ _, hentry.trans (setCmId_keeps nd t none), hpool⟩
    · rw [connectCreateId, if_neg hc]
      dsimp only
      by_cases hr : o.resolve ≠ 0
      · rw [connectResolve, if_pos hr]
        exact ⟨(Within.setCm _ _ _).trans (.setNode _ _), hid.trans (setCmId_keeps _ t none), hpool⟩
      · rw [connectResolve, if_neg hr]
        exact ⟨(Within.setCm _ _ _).trans (.setNode _ _), hid.trans (setState_keepsDevices ..), hpool⟩
  · exact ⟨.setNode _ _, hentry, hpool⟩

end Proc

theorem InitStmt.exec_keeps {D : HmpDevice → Prop} {p p' : Proc} {o : StmtCalls} {stmt : InitStmt}
    (h : stmt.exec o p = some p') : Proc.Within D p p' ∧ p.node.KeepsDevices p'.node ∧
      p'.node.dramMempool = p.node.dramMempool := by
  cases stmt with
  | listen =>
    obtain rfl := Option.some.inj h
    refine ⟨.setNode _ _, ?_⟩
    simp only [Proc.setNode_node, hmpTransportListen]
    split_ifs <;> exact ⟨.same rfl rfl, rfl⟩
  | clear =>
    obtain rfl := Option.some.inj h
    exact ⟨.setNode _ _, .same rfl rfl, rfl⟩
  | create i =>
    simp only [InitStmt.exec] at h
    split at h
    · cases h
    · rename_i p₁ t hp
      obtain rfl := Option.some.inj h
      obtain ⟨hw, hd, hpool⟩ := Proc.peerCreate_keeps hp
      rw [peerRegion_eq]
      exact ⟨hw.trans (.setNode _ _), hd.trans (.of_update rfl rfl fun _ h => .inl h), hpool⟩
  | connect i =>
    obtain ⟨t, -, rfl⟩ := Option.map_eq_some_iff.mp h
    exact Proc.hmpTransportConnect_keeps ..

/-! ## Steps -/

/-- The event of the node that a process event is. -/
def ProcEvent.node : ProcEvent → Option TransferEvent
  | .main _ => none
  | .cm t e => some (.cm t e.outcome)
  | .run e => some e

namespace ProcRun

variable {s s' : ProcRun} {e : ProcEvent}

theorem cmStep_some {t : ℕ} {e : Proc.CmCalls} (h : s.cmStep t e = some s') :
    (s.proc.real.running = true ∧ (e.type = .routeResolved → s.proc.node.qp t = {})) ∧
      ∃ r, s.proc.hmpHandleEcEvent t e = some (s'.proc, r) := by
  obtain ⟨hg, h⟩ := Option.ite_none_right_eq_some.mp h
  obtain ⟨⟨p, r⟩, hp, rfl⟩ := Option.map_eq_some_iff.mp h
  exact ⟨hg, r, hp⟩

theorem runStep_some {e : TransferEvent} (h : s.runStep e = some s') :
    ∃ b, s.proc.real.step e = some b ∧ s'.proc = { s.proc with real := b } := by
  unfold runStep at h
  split at h
  · cases h
  · obtain ⟨b, hb, rfl⟩ := Option.map_eq_some_iff.mp h
    exact ⟨b, hb, rfl⟩

/-- The first state, with nothing in the memory of the other nodes. -/
def first (o : InitCalls) : ProcRun where
  proc := (Init.untilPool o).proc
  todo := InitStmt.behindPool (Init.untilPool o).proc.node.config

theorem first_begins {o : InitCalls} (h : (Init.untilPool o).phase = .running) :
    Begins o (first o) := by
  unfold Begins first
  generalize Init.untilPool o = s at h ⊢
  exact ⟨h, rfl, s.proc.real.remote, s.proc.real.far, rfl⟩

/-- A round of the loop over the peers. -/
theorem peer_run {o : InitCalls} {i : ℕ} {s : Init} (h : (Init.peer o i s).phase = .running)
    (l : List InitStmt) : (sys o).Run Sys.Always ⟨s.proc, .create i :: .connect i :: l⟩
      ⟨(Init.peer o i s).proc, l⟩ := by
  unfold Init.peer at h ⊢
  dsimp only at h ⊢
  split at h
  · cases h
  · rename_i p t hp
    have hp' : s.proc.peerCreate i (o.peers i).create = (p, some t) := hp
    have hentry : (peerRegion p.node t i).connectTrans i = some t := Proc.peerCreate_entry hp'
    have hcreate : (sys o).step ⟨s.proc, .create i :: .connect i :: l⟩
        (.main { create := (o.peers i).create }) =
      some ⟨p.setNode (peerRegion p.node t i), .connect i :: l⟩ := by
      simp [sys, step, mainStep, InitStmt.exec, hp']
    refine (Sys.Run.nil.snoc trivial hcreate).snoc
      (e := .main { connect := (o.peers i).connect }) trivial ?_
    simp [sys, step, mainStep, InitStmt.exec, hentry]

theorem peers_run {o : InitCalls} (l : List ℕ) {s : Init}
    (h : (l.foldl (fun s i => s.andThen (Init.peer o i)) s).phase = .running) :
    s.phase = .running ∧ (sys o).Run Sys.Always
      ⟨s.proc, l.flatMap fun i => [.create i, .connect i]⟩
      ⟨(l.foldl (fun s i => s.andThen (Init.peer o i)) s).proc, []⟩ := by
  induction l generalizing s with
  | nil => exact ⟨h, .nil⟩
  | cons i l ih =>
    obtain ⟨hi, hl⟩ := ih h
    obtain ⟨hs, he, hr⟩ := Init.andThen_running hi
    refine ⟨hs, .trans (peer_run hr _) ?_⟩
    rw [← he]
    exact hl

theorem behindPool_run {o : InitCalls} {s : Init}
    (h : (((s.andThen (Init.listen o)).andThen Init.clear).andThen (Init.peers o)).phase = .running) :
    s.phase = .running ∧ (sys o).Run Sys.Always ⟨s.proc, InitStmt.behindPool s.proc.node.config⟩
      ⟨(((s.andThen (Init.listen o)).andThen Init.clear).andThen (Init.peers o)).proc, []⟩ := by
  obtain ⟨h₂, he₃, hr₃⟩ := Init.andThen_running h
  obtain ⟨h₁, he₂, -⟩ := Init.andThen_running h₂
  obtain ⟨hs, he₁, -⟩ := Init.andThen_running h₁
  refine ⟨hs, ?_⟩
  rw [he₂, he₁] at he₃ hr₃ ⊢
  rw [he₃]
  have hconfig : (Init.clear (Init.listen o s)).proc.node.config = s.proc.node.config := by
    simp only [Init.clear, Init.listen, Init.setProc_proc, Proc.setNode_node, clearTable,
      hmpTransportListen]
    split_ifs <;> rfl
  have hpeers : (sys o).Run Sys.Always ⟨(Init.clear (Init.listen o s)).proc,
      (Init.peerIds s.proc.node.config).flatMap fun i => [.create i, .connect i]⟩
      ⟨(Init.peers o (Init.clear (Init.listen o s))).proc, []⟩ := by
    rw [← hconfig]
    exact (peers_run _ hr₃).2
  have hlisten : (sys o).step ⟨s.proc, InitStmt.behindPool s.proc.node.config⟩
      (.main { listen := o.listen }) = some ⟨(Init.listen o s).proc, .clear ::
        (Init.peerIds s.proc.node.config).flatMap fun i => [.create i, .connect i]⟩ := rfl
  have hclear : (sys o).step ⟨(Init.listen o s).proc, .clear ::
      (Init.peerIds s.proc.node.config).flatMap fun i => [.create i, .connect i]⟩ (.main {}) =
    some ⟨(Init.clear (Init.listen o s)).proc,
      (Init.peerIds s.proc.node.config).flatMap fun i => [.create i, .connect i]⟩ := rfl
  exact ((Sys.Run.nil.snoc trivial hlisten).snoc trivial hclear).trans hpeers

/-- A startup that gets through is a run in which the other threads do nothing. -/
theorem hmpNodeInit_run {o : InitCalls} (h : (Init.hmpNodeInit o).phase = .running) :
    ∃ s, (sys o).Reach Sys.Always s ∧ s.todo = [] ∧ s.proc = (Init.hmpNodeInit o).proc := by
  unfold Init.hmpNodeInit at h ⊢
  obtain ⟨hr, hrun⟩ := behindPool_run h
  have hb := first_begins hr
  unfold first at hb
  generalize Init.untilPool o = s at *
  exact ⟨_, ⟨_, hb, hrun⟩, rfl, rfl⟩

def samplePoolCalls : PoolCalls :=
  { mempool := true, base := some ⟨samplePool.baseAddr, samplePool.base_pos, samplePool.fits⟩
    pageArray := true
    keys := some ⟨samplePool.mr.lkey, samplePool.mr.rkey, samplePool.mr.rkey_lt⟩ }

/-- Node `id` of two, on a machine with the devices `verbs`. -/
def sampleCalls (id : ℕ) (verbs : List ℕ) : InitCalls where
  config := .read (sampleConfig id)
  ctxList := some (verbs.map fun v => some { verbs := v, name := "ib0" })
  pool := samplePoolCalls
  peers := fun _ => { connect := { cm := ⟨0, true⟩ } }

/-- What a process does beside its main thread is a step of its node. -/
theorem step_node {b : TransferEvent} (h : s.step e = some s') (hb : e.node = some b) :
    s.proc.real.step b = some s'.proc.real := by
  cases e with
  | main o => cases hb
  | cm t e =>
    obtain rfl := Option.some.inj hb
    obtain ⟨⟨hrun, hqp⟩, r, hp⟩ := cmStep_some h
    have hreal := (Proc.hmpHandleEcEvent_within (D := fun _ => True) hp (fun _ _ => trivial)
      fun _ _ => trivial).real
    rw [Proc.hmpHandleEcEvent_node hp] at hreal
    rw [hreal]
    exact if_pos ⟨hrun, by rwa [e.outcome_type]⟩
  | run e =>
    obtain rfl := Option.some.inj hb
    obtain ⟨b, hb, hp⟩ := runStep_some h
    rw [hp, hb]

end ProcRun

/-! ## Devices -/

/-- The pool is registered on `d`, the first of the list, and every transport and every queue pair
has a device that a lookup finds. -/
structure Equipped (o : InitCalls) (d : HmpDevice) (pool : HmpMempool) (p : Proc) : Prop where
  devList : p.node.devList = (devices 0 o.usable).reverse
  head : p.node.devList.head? = some d
  dramMempool : p.node.dramMempool = some pool
  size : 0 < pool.size
  region : p.mr.bind p.world.mrs.get =
    some { pd := d.pd, addr := pool.baseAddr, length := pool.size }
  trans : ∀ t d, (p.node.trans t).device = some d → p.node.Finds d
  qps : ∀ i q, p.world.qps.get i = some q → ∃ d, p.node.Finds d ∧ q.On d

namespace Equipped

variable {o : InitCalls} {d : HmpDevice} {pool : HmpMempool} {p p' : Proc}

theorem keeps (h : Equipped o d pool p) (hd : p.node.KeepsDevices p'.node)
    (hpool : p'.node.dramMempool = p.node.dramMempool) (hmr : p'.mr = p.mr)
    (hmrs : p'.world.mrs = p.world.mrs) (hqps : ∀ i q, p'.world.qps.get i = some q →
      p.world.qps.get i = some q ∨ ∃ d, p.node.Finds d ∧ q.On d) :
    Equipped o d pool p' where
  devList := hd.devList.trans h.devList
  head := by rw [hd.devList, h.head]
  dramMempool := hpool.trans h.dramMempool
  size := h.size
  region := by rw [hmr, hmrs, h.region]
  trans t d ht := ((hd.device t d ht).elim (h.trans t d) id).congr hd.devList
  qps i q hq := by
    obtain ⟨d, hf, hon⟩ := (hqps i q hq).elim (h.qps i q) id
    exact ⟨d, hf.congr hd.devList, hon⟩

theorem init {s : ProcRun} (h : ProcRun.Begins o s) : ∃ d pool, Equipped o d pool s.proc := by
  obtain ⟨hr, -, remote, far, hp⟩ := h
  obtain ⟨s₀, d, pool, hb, hhead, hsize, hproc⟩ := Init.untilPool_running hr
  obtain ⟨config, hnode⟩ := hb.node
  have hlist : s₀.proc.node.devList = (devices 0 o.usable).reverse := by rw [hnode]
  refine ⟨d, pool, ?_⟩
  rw [hp, hproc]
  refine ⟨hlist, hhead, rfl, hsize, ?_, fun t d ht => ?_, fun i q hq => ?_⟩
  · exact Heap.alloc_get_self ..
  · have : (s₀.proc.node.trans t).device = some d := ht
    rw [hnode] at this
    cases this
  · have : s₀.proc.world.qps.get i = some q := hq
    rw [hb.qps] at this
    cases this

theorem step {s s' : ProcRun} {e : ProcEvent} (h : Equipped o d pool s.proc)
    (hs : s.step e = some s') : Equipped o d pool s'.proc := by
  have hnode {b : TransferEvent} (hb : e.node = some b) :
      s.proc.node.KeepsDevices s'.proc.node ∧ s'.proc.node.dramMempool = s.proc.node.dramMempool :=
    have := ProcRun.step_node hs hb
    ⟨Transfer.step_keepsDevices this, (Transfer.step_refsGrow this).pool⟩
  cases e with
  | main c =>
    simp only [ProcRun.step, ProcRun.mainStep] at hs
    split at hs
    · cases hs
    · obtain ⟨p, hp, rfl⟩ := Option.map_eq_some_iff.mp hs
      obtain ⟨hw, hd, hpool⟩ := InitStmt.exec_keeps (D := s.proc.node.Finds) hp
      exact h.keeps hd hpool hw.mr hw.mrs hw.qps
  | cm t e =>
    obtain ⟨-, r, hp⟩ := ProcRun.cmStep_some hs
    obtain ⟨hd, hpool⟩ := hnode rfl
    have hw := Proc.hmpHandleEcEvent_within hp (h.trans t) fun _ hd => hd
    exact h.keeps hd hpool hw.mr hw.mrs hw.qps
  | run e =>
    obtain ⟨b, -, hp⟩ := ProcRun.runStep_some hs
    obtain ⟨hd, hpool⟩ := hnode rfl
    rw [hp] at hd hpool ⊢
    exact h.keeps hd hpool rfl rfl fun _ _ hq => .inl hq

theorem reach {s : ProcRun} (h : (ProcRun.sys o).Reach Sys.Always s) :
    ∃ d pool, Equipped o d pool s.proc :=
  h.inv (fun _ => init) fun _ _ _ ⟨d, pool, h⟩ _ hs => ⟨d, pool, h.step hs⟩

end Equipped

end HMP
