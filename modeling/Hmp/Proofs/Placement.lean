import Hmp.Sanity.Cluster

/-! Every transport that has been set up belongs to the node at its other end, on
both sides of a connection. -/

namespace HMP

/-- The transport that the main thread sets up. -/
def MainPc.building : MainPc → Option ℕ
  | .peer _ t _ | .connect _ t .entry | .connect _ t .createId | .connect _ t .resolveAddr => some t
  | _ => none

namespace Cluster

variable {cfg : ClusterConfig} {s s' : Cluster} {i j k t u c : ℕ}

/-- Transport `t` of node `i` is set up for node `j`, and its connection leads there. -/
structure Placed (cfg : ClusterConfig) (s : Cluster) (i t j : ℕ) : Prop where
  located : (s.node i).Located t j
  pool : (s.node i).dramMempool ≠ none
  lt : j < cfg.nodeCnt
  ne : j ≠ i
  far : s.otherEnd i t = some j

/-- What holds of the transport at the statements of `hmp_transport_connect`. -/
def ConnectOk (cfg : ClusterConfig) (s : Cluster) (i k t : ℕ) : ConnectPc → Prop
  | .entry => (s.node i).Located t k ∧ ((s.node i).trans t).cmId = none
  | .createId => (s.node i).Located t k ∧ ((s.node i).trans t).cmId = none ∧
      ((s.node i).trans t).peerAddr.addr = (cfg.nodeInfos k).addr
  | .resolveAddr => (s.node i).Located t k ∧
      ((s.node i).trans t).peerAddr.addr = (cfg.nodeInfos k).addr ∧
      ∃ c, ((s.node i).trans t).cmId = some ⟨c, true⟩ ∧ (s.conn c).phase = .created
  | .setState | .returned _ => True

def MainOk (cfg : ClusterConfig) (s : Cluster) (i : ℕ) : MainPc → Prop
  | .memInit => (s.node i).dramMempool = none
  | .exited => True
  | .listen | .memset | .done => (s.node i).dramMempool ≠ none
  | .loop k => i < k ∧ (s.node i).dramMempool ≠ none
  | .peer k t stmt => i < k ∧ k < cfg.nodeCnt ∧ (s.node i).dramMempool ≠ none ∧
      t < (s.node i).nextTrans ∧ ((s.node i).trans t).cmId = none ∧
      (stmt ≠ .nodeId → ((s.node i).trans t).nodeId = k) ∧
      (stmt = .recvAddr → ((s.node i).trans t).region.sendAddr = (s.node i).slot k 0)
  | .connect k t pc => i < k ∧ k < cfg.nodeCnt ∧ (s.node i).dramMempool ≠ none ∧
      t < (s.node i).nextTrans ∧ ConnectOk cfg s i k t pc

def LoopOk (cfg : ClusterConfig) (s : Cluster) (i : ℕ) : LoopPc → Prop
  | .storing c t => ((s.node i).trans t).cmId = some ⟨c, false⟩ ∧ (s.node i).dramMempool ≠ none
  | .accepting c t => ((s.node i).trans t).cmId = some ⟨c, false⟩ ∧
      Placed cfg s i t (s.conn c).src
  | _ => True

/-- A transport and its connection name each other. -/
def EndOk (s : Cluster) (i t : ℕ) (cm : CmId) : Prop :=
  cm.conn < s.nconn ∧
    if cm.active then (s.conn cm.conn).src = i ∧ (s.conn cm.conn).srcTrans = t
    else (s.conn cm.conn).dst = some i ∧
      ((s.conn cm.conn).phase = .dead ∨ (s.conn cm.conn).dstTrans = some t)

structure NodeOk (cfg : ClusterConfig) (s : Cluster) (i : ℕ) : Prop where
  curnodeId : (s.node i).config.curnodeId = i
  nodeCnt : (s.node i).config.nodeCnt = cfg.nodeCnt
  addr : ∀ k, ((s.node i).config.nodeInfos k).addr = (cfg.nodeInfos k).addr
  fresh : ∀ t, (s.node i).nextTrans ≤ t → ((s.node i).trans t).cmId = none
  curRecv : ∀ t, ((s.node i).trans t).region.curRecv < 3
  listening : (s.node i).listenState = .listen → (s.node i).dramMempool ≠ none
  main : MainOk cfg s i (s.main i)
  loop : LoopOk cfg s i (s.loop i)
  ends : ∀ t cm, ((s.node i).trans t).cmId = some cm → EndOk s i t cm

structure ConnOk (cfg : ClusterConfig) (s : Cluster) (c : ℕ) : Prop where
  src : (s.conn c).src < cfg.nodeCnt
  created : (s.conn c).phase = .created → (s.conn c).dst = none
  target : (s.conn c).phase = .created ∨ (s.conn c).dst ≠ none
  early : (s.conn c).dstTrans ≠ none →
    (s.conn c).phase = .answering ∨ (s.conn c).phase = .accepted ∨ (s.conn c).phase = .dead
  active : ∀ j, (s.conn c).dst = some j → (s.conn c).src < j ∧
    ((s.node (s.conn c).src).trans (s.conn c).srcTrans).cmId = some ⟨c, true⟩ ∧
    Placed cfg s (s.conn c).src (s.conn c).srcTrans j
  passive : (s.conn c).phase = .accepted → ∃ t j, (s.conn c).dst = some j ∧
    (s.conn c).dstTrans = some t ∧ ((s.node j).trans t).cmId = some ⟨c, false⟩ ∧
    Placed cfg s j t (s.conn c).src

def PlaceInv (cfg : ClusterConfig) (s : Cluster) : Prop :=
  (∀ i < cfg.nodeCnt, NodeOk cfg s i) ∧ ∀ c < s.nconn, ConnOk cfg s c

/-! ## Steps change one node and one connection -/

/-- A connection keeps its ends, and a dead one stays dead. -/
structure Evolves (x y : Conn) : Prop where
  src : y.src = x.src
  srcTrans : y.srcTrans = x.srcTrans
  dst : ∀ j, x.dst = some j → y.dst = some j
  dstTrans : ∀ t, x.dstTrans = some t → y.dstTrans = some t
  dead : x.phase = .dead → y.phase = .dead

theorem Evolves.refl (x : Conn) : Evolves x x :=
  ⟨rfl, rfl, fun _ h => h, fun _ h => h, fun h => h⟩

/-- The step is one of node `i`, and only connection `c` may change, which can be a new one. -/
structure Local (s s' : Cluster) (i c : ℕ) : Prop where
  node : ∀ k ≠ i, s'.node k = s.node k
  main : ∀ k ≠ i, s'.main k = s.main k
  loop : ∀ k ≠ i, s'.loop k = s.loop k
  conn : ∀ d ≠ c, s'.conn d = s.conn d
  nconn : s.nconn ≤ s'.nconn
  new : ∀ d < s'.nconn, d < s.nconn ∨ d = c
  evolves : c < s.nconn → Evolves (s.conn c) (s'.conn c)
  created : c < s.nconn → (s.conn c).phase = .created →
    (s'.conn c).phase = .created ∨ (s.conn c).src = i

namespace Local

theorem evolve (hs : Local s s' i c) {d : ℕ} (hd : d < s.nconn) :
    Evolves (s.conn d) (s'.conn d) := by
  by_cases hdc : d = c
  · exact hdc ▸ hs.evolves (hdc ▸ hd)
  · rw [hs.conn d hdc]
    exact .refl _

theorem otherEnd (hs : Local s s' i c) {k t j : ℕ} {cm : CmId}
    (hcm : ((s.node k).trans t).cmId = some cm) (hcm' : ((s'.node k).trans t).cmId = some cm)
    (hd : cm.conn < s.nconn) (h : s.otherEnd k t = some j) : s'.otherEnd k t = some j := by
  have he := hs.evolve hd
  simp only [Cluster.otherEnd, hcm, hcm', Option.bind_some] at h ⊢
  by_cases ha : cm.active = true
  · rw [if_pos ha] at h ⊢
    exact he.dst j h
  · rw [if_neg ha] at h ⊢
    rw [he.src, h]

theorem endOk (hs : Local s s' i c) {k t : ℕ} {cm : CmId} (h : EndOk s k t cm) :
    EndOk s' k t cm := by
  obtain ⟨hd, h⟩ := h
  have he := hs.evolve hd
  refine ⟨hd.trans_le hs.nconn, ?_⟩
  by_cases ha : cm.active = true
  · rw [if_pos ha] at h ⊢
    exact ⟨he.src.trans h.1, he.srcTrans.trans h.2⟩
  · rw [if_neg ha] at h ⊢
    exact ⟨he.dst _ h.1, h.2.imp he.dead (he.dstTrans _)⟩

end Local

/-- A set up transport has an identifier. -/
theorem Placed.cmId (h : Placed cfg s i t j) :
    ∃ cm, ((s.node i).trans t).cmId = some cm ∧
      (cm.active = true → (s.conn cm.conn).dst = some j) ∧
      (cm.active = false → (s.conn cm.conn).src = j) := by
  have hf := h.far
  simp only [otherEnd] at hf
  obtain ⟨cm, hcm, hf⟩ := Option.bind_eq_some_iff.mp hf
  refine ⟨cm, hcm, fun ha => by rwa [if_pos ha] at hf, fun ha => ?_⟩
  rw [if_neg (by simp [ha])] at hf
  exact Option.some.inj hf

/-- The other nodes notice nothing. -/
theorem Placed.elsewhere (h : PlaceInv cfg s) (hs : Local s s' i c) (hk : k < cfg.nodeCnt)
    (hki : k ≠ i) (hp : Placed cfg s k t j) : Placed cfg s' k t j := by
  obtain ⟨cm, hcm, -, -⟩ := hp.cmId
  have hn := hs.node k hki
  exact ⟨hn ▸ hp.located, hn ▸ hp.pool, hp.lt, hp.ne,
    hs.otherEnd hcm (by rw [hn, hcm]) ((h.1 k hk).ends t cm hcm).1 hp.far⟩

theorem Placed.steady (h : NodeOk cfg s i) (hs : Local s s' i c)
    (hst : (s.node i).Steady (s'.node i) u) (hp : Placed cfg s i t j) : Placed cfg s' i t j := by
  obtain ⟨cm, hcm, -, -⟩ := hp.cmId
  exact ⟨hst.located hp.located, hst.pool ▸ hp.pool, hp.lt, hp.ne,
    hs.otherEnd hcm (by rw [hst.cmId_eq, hcm]) (h.ends t cm hcm).1 hp.far⟩

theorem LoopOk.mono (hl : LoopOk cfg s k (s.loop k)) (hd : ∀ t d,
      ((s.node k).trans t).cmId = some ⟨d, false⟩ →
        ((s'.node k).trans t).cmId = some ⟨d, false⟩ ∧ Evolves (s.conn d) (s'.conn d))
    (hpool : (s.node k).dramMempool ≠ none → (s'.node k).dramMempool ≠ none)
    (hp : ∀ t j, Placed cfg s k t j → Placed cfg s' k t j) : LoopOk cfg s' k (s.loop k) := by
  cases hpc : s.loop k with
  | storing c t =>
    rw [hpc] at hl
    exact ⟨(hd t _ hl.1).1, hpool hl.2⟩
  | accepting c t =>
    rw [hpc] at hl
    obtain ⟨hcm, hev⟩ := hd t _ hl.1
    exact ⟨hcm, hev.src ▸ hp _ _ hl.2⟩
  | _ => trivial

theorem NodeOk.elsewhere (h : PlaceInv cfg s) (hs : Local s s' i c) (hk : k < cfg.nodeCnt)
    (hki : k ≠ i) : NodeOk cfg s' k := by
  have hnk := h.1 k hk
  have hn := hs.node k hki
  have hp := fun t j => Placed.elsewhere (t := t) (j := j) h hs hk hki
  refine ⟨hn ▸ hnk.curnodeId, hn ▸ hnk.nodeCnt, hn ▸ hnk.addr, hn ▸ hnk.fresh, hn ▸ hnk.curRecv,
    hn ▸ hnk.listening, ?_, ?_, ?_⟩
  · have hm := hnk.main
    rw [hs.main k hki]
    cases hpc : s.main k with
    | connect k' t pc =>
      rw [hpc] at hm
      cases pc with
      | resolveAddr =>
        -- the connection that the main thread has created is its own
        obtain ⟨h₁, h₂, h₃, h₄, h₅, h₆, d, hcm, hd⟩ := hm
        obtain ⟨hdn, hend⟩ := hnk.ends t _ hcm
        refine ⟨h₁, h₂, hn ▸ h₃, hn ▸ h₄, hn ▸ h₅, hn ▸ h₆, d, hn ▸ hcm, ?_⟩
        by_cases hdc : d = c
        · subst hdc
          exact (hs.created hdn hd).resolve_right fun he => hki (hend.1.symm.trans he)
        · rw [hs.conn d hdc, hd]
      | _ => simpa only [MainOk, ConnectOk, hn] using hm
    | exited => trivial
    | _ => simpa only [hpc, MainOk, hn] using hm
  · rw [hs.loop k hki]
    exact hnk.loop.mono (fun t d hcm => ⟨hn ▸ hcm, hs.evolve (hnk.ends t _ hcm).1⟩) (hn ▸ id) hp
  · intro t cm hcm
    exact hs.endOk (hnk.ends t cm (hn ▸ hcm))

theorem ConnOk.mono {d : ℕ} (ho : ConnOk cfg s d) (he : s'.conn d = s.conn d)
    (hcm : ∀ k t cm, ((s.node k).trans t).cmId = some cm →
      (cm.active = true → (s.conn cm.conn).dst ≠ none) → ((s'.node k).trans t).cmId = some cm)
    (hp : ∀ k < cfg.nodeCnt, ∀ t j, Placed cfg s k t j → Placed cfg s' k t j) :
    ConnOk cfg s' d := by
  refine ⟨he ▸ ho.src, he ▸ ho.created, he ▸ ho.target, he ▸ ho.early, ?_, ?_⟩
  · intro j hj
    rw [he] at hj ⊢
    obtain ⟨hlt, ha, hpl⟩ := ho.active j hj
    exact ⟨hlt, hcm _ _ _ ha (fun _ => by simp [hj]), hp _ ho.src _ _ hpl⟩
  · intro hph
    rw [he] at hph ⊢
    obtain ⟨t, j, hj, ht, ha, hpl⟩ := ho.passive hph
    have hjn := (ho.active j hj).2.2.lt
    exact ⟨t, j, hj, ht, hcm _ _ _ ha (by simp), hp _ hjn _ _ hpl⟩

/-- What a step of node `i` keeps. -/
structure Kept (cfg : ClusterConfig) (s s' : Cluster) (i : ℕ) : Prop where
  inv : PlaceInv cfg s'
  place : ∃ c, Local s s' i c
  placed : ∀ k < cfg.nodeCnt, ∀ t j, Placed cfg s k t j → Placed cfg s' k t j
  pool : ∀ k pool, (s.node k).dramMempool = some pool → (s'.node k).dramMempool = some pool

/-- The rule for a step of node `i`: what is left to show is about node `i` and connection `c`. -/
theorem PlaceInv.step (h : PlaceInv cfg s) (hs : Local s s' i c)
    (hp : ∀ t j, Placed cfg s i t j → Placed cfg s' i t j)
    (hcm : ∀ t cm, ((s.node i).trans t).cmId = some cm →
      (cm.active = true → (s.conn cm.conn).dst ≠ none) → ((s'.node i).trans t).cmId = some cm)
    (hpool : ∀ pool, (s.node i).dramMempool = some pool → (s'.node i).dramMempool = some pool)
    (hn : NodeOk cfg s' i)
    (hc : c < s'.nconn → (∀ k < cfg.nodeCnt, ∀ t j, Placed cfg s k t j → Placed cfg s' k t j) →
      ConnOk cfg s' c) : Kept cfg s s' i := by
  have hpa : ∀ k < cfg.nodeCnt, ∀ t j, Placed cfg s k t j → Placed cfg s' k t j := by
    intro k hk t j hpk
    by_cases hki : k = i
    · exact hki ▸ hp t j (hki ▸ hpk)
    · exact hpk.elsewhere h hs hk hki
  have hcma : ∀ k t cm, ((s.node k).trans t).cmId = some cm →
      (cm.active = true → (s.conn cm.conn).dst ≠ none) → ((s'.node k).trans t).cmId = some cm := by
    intro k t cm hk ha
    by_cases hki : k = i
    · exact hki ▸ hcm t cm (hki ▸ hk) ha
    · rw [hs.node k hki, hk]
  refine ⟨⟨fun k hk => ?_, fun d hd => ?_⟩, ⟨c, hs⟩, hpa, fun k pool hk => ?_⟩
  · by_cases hki : k = i
    · exact hki ▸ hn
    · exact .elsewhere h hs hk hki
  · by_cases hdc : d = c
    · exact hdc ▸ hc (hdc ▸ hd) hpa
    · exact (h.2 d ((hs.new d hd).resolve_right hdc)).mono (hs.conn d hdc) hcma hpa
  · by_cases hki : k = i
    · exact hki ▸ hpool pool (hki ▸ hk)
    · rw [hs.node k hki, hk]

/-! ## Steps that set nothing up -/

/-- A connection goes on, or it dies. -/
structure Progress (x y : Conn) : Prop where
  src : y.src = x.src
  srcTrans : y.srcTrans = x.srcTrans
  dst : y.dst = x.dst
  dstTrans : y.dstTrans = x.dstTrans
  phase : y.phase = x.phase ∨ x.phase ≠ .created ∧ y.phase = .dead ∨
    x.phase = .addr ∧ y.phase = .route ∨ x.phase = .route ∧ y.phase = .requested ∨
    x.phase = .answering ∧ y.phase = .accepted

theorem Progress.refl (x : Conn) : Progress x x := ⟨rfl, rfl, rfl, rfl, .inl rfl⟩

theorem Progress.evolves {x y : Conn} (h : Progress x y) : Evolves x y := by
  refine ⟨h.src, h.srcTrans, fun j hj => h.dst.trans hj, fun t ht => h.dstTrans.trans ht, ?_⟩
  intro hd
  rcases h.phase with hp | ⟨-, hp⟩ | ⟨hp, -⟩ | ⟨hp, -⟩ | ⟨hp, -⟩
  · exact hp.trans hd
  · exact hp
  all_goals simp [hd] at hp

theorem Progress.created {x y : Conn} (h : Progress x y) (hx : x.phase = .created) :
    y.phase = .created := by
  rcases h.phase with hp | ⟨hp, -⟩ | ⟨hp, -⟩ | ⟨hp, -⟩ | ⟨hp, -⟩
  · exact hp.trans hx
  all_goals simp [hx] at hp

/-- What a handled event does to its connection. -/
theorem handled_progress {x y : Conn} {active : Bool} {e : CmEvent} {ret : ℤ}
    (h : x.handled active e ret = some y) :
    Progress x y ∧ x.phase ≠ .created ∧ e.type ≠ .connectRequest ∧ (y.phase = .accepted →
      x.phase = .accepted) := by
  cases e with
  | addrResolved verbs route =>
    simp only [Conn.handled, Option.ite_none_right_eq_some, Option.some.injEq] at h
    obtain ⟨⟨-, hp⟩, rfl⟩ := h
    refine ⟨⟨rfl, rfl, rfl, rfl, ?_⟩, by simp [hp], by simp [CmEvent.type], ?_⟩
    · by_cases hr : ret = 0 <;> simp [hp, hr]
    · by_cases hr : ret = 0 <;> simp [hr]
  | routeResolved o =>
    simp only [Conn.handled, Option.ite_none_right_eq_some, Option.some.injEq] at h
    obtain ⟨⟨-, hp⟩, rfl⟩ := h
    refine ⟨⟨rfl, rfl, rfl, rfl, ?_⟩, by simp [hp], by simp [CmEvent.type], ?_⟩
    · by_cases hr : ret = 0 <;> simp [hp, hr]
    · by_cases hr : ret = 0 <;> simp [hr]
  | connectRequest cm peerAddr o => simp [Conn.handled] at h
  | established peer o =>
    simp only [Conn.handled] at h
    split_ifs at h with hp ha hs hd
    all_goals
      simp only [Option.some.injEq] at h
      subst h
      exact ⟨⟨rfl, rfl, rfl, rfl, .inl rfl⟩, by simp [not_not.mp hp], by simp [CmEvent.type], id⟩
  | disconnected =>
    simp only [Conn.handled, Option.ite_none_right_eq_some, Option.some.injEq] at h
    obtain ⟨⟨hp, -⟩, rfl⟩ := h
    have hc : x.phase ≠ .created := by rcases hp with hp | hp <;> simp [hp]
    exact ⟨⟨rfl, rfl, rfl, rfl, .inr (.inl ⟨hc, rfl⟩)⟩, hc, by simp [CmEvent.type], by simp⟩
  | other type =>
    simp only [Conn.handled, Option.ite_none_left_eq_some, Option.some.injEq] at h
    obtain ⟨hp, rfl⟩ := h
    refine ⟨⟨rfl, rfl, rfl, rfl, ?_⟩, hp, type.ne rfl, ?_⟩
    · by_cases he : Attempt.endsAttempt type = true <;> simp [he, hp]
    · by_cases he : Attempt.endsAttempt type = true <;> simp [he]

theorem push_progress (x : Conn) (active : Bool) (bytes : List UInt8) :
    Progress x (x.push active bytes) ∧ (x.push active bytes).phase = x.phase := by
  unfold Conn.push
  split_ifs <;> exact ⟨⟨rfl, rfl, rfl, rfl, .inl rfl⟩, rfl⟩

theorem pop_progress {x y : Conn} {active : Bool} {bytes : List UInt8}
    (h : x.pop active = some (bytes, y)) : Progress x y ∧ y.phase = x.phase := by
  unfold Conn.pop at h
  split at h
  · simp only [Option.some.injEq, Prod.mk.injEq] at h
    obtain ⟨-, rfl⟩ := h
    exact ⟨⟨rfl, rfl, rfl, rfl, .inl rfl⟩, rfl⟩
  · simp only [Option.some.injEq, Prod.mk.injEq] at h
    obtain ⟨-, rfl⟩ := h
    exact ⟨⟨rfl, rfl, rfl, rfl, .inl rfl⟩, rfl⟩
  · simp at h

theorem ConnOk.progress {d : ℕ} (ho : ConnOk cfg s d) (hx : Progress (s.conn d) (s'.conn d))
    (hcm : ∀ k t cm, ((s.node k).trans t).cmId = some cm →
      (cm.active = true → (s.conn cm.conn).dst ≠ none) → ((s'.node k).trans t).cmId = some cm)
    (hp : ∀ k < cfg.nodeCnt, ∀ t j, Placed cfg s k t j → Placed cfg s' k t j)
    (hacc : (s.conn d).phase = .answering → (s'.conn d).phase = .accepted →
      ∃ t j, (s.conn d).dst = some j ∧ (s.conn d).dstTrans = some t ∧
        ((s.node j).trans t).cmId = some ⟨d, false⟩ ∧ Placed cfg s j t (s.conn d).src) :
    ConnOk cfg s' d := by
  refine ⟨hx.src ▸ ho.src, ?_, ?_, ?_, ?_, ?_⟩
  · intro hph
    rw [hx.dst]
    refine ho.created ?_
    rcases hx.phase with hp | ⟨-, hp⟩ | ⟨-, hp⟩ | ⟨-, hp⟩ | ⟨-, hp⟩
    · exact hp.symm.trans hph
    all_goals simp [hph] at hp
  · rw [hx.dst]
    rcases hx.phase with hp | ⟨hp, -⟩ | ⟨hp, -⟩ | ⟨hp, -⟩ | ⟨hp, -⟩
    · rw [hp]
      exact ho.target
    · exact .inr (ho.target.resolve_left hp)
    all_goals exact .inr (ho.target.resolve_left (by simp [hp]))
  · intro hd
    have ho := ho.early (hx.dstTrans ▸ hd)
    rcases hx.phase with hp | ⟨-, hp⟩ | ⟨hp, -⟩ | ⟨hp, -⟩ | ⟨-, hp⟩
    · rw [hp]
      exact ho
    · exact .inr (.inr hp)
    · simp [hp] at ho
    · simp [hp] at ho
    · exact .inr (.inl hp)
  · intro j hj
    obtain ⟨hlt, ha, hpl⟩ := ho.active j (hx.dst ▸ hj)
    rw [hx.src, hx.srcTrans]
    exact ⟨hlt, hcm _ _ _ ha (fun _ => by simp [← hx.dst, hj]), hp _ ho.src _ _ hpl⟩
  · intro hph
    have hpas : ∃ t j, (s.conn d).dst = some j ∧ (s.conn d).dstTrans = some t ∧
        ((s.node j).trans t).cmId = some ⟨d, false⟩ ∧ Placed cfg s j t (s.conn d).src := by
      rcases hx.phase with hp | ⟨-, hp⟩ | ⟨-, hp⟩ | ⟨-, hp⟩ | ⟨hp, -⟩
      · exact ho.passive (hp ▸ hph)
      · simp [hph] at hp
      · simp [hph] at hp
      · simp [hph] at hp
      · exact hacc hp hph
    obtain ⟨t, j, hj, ht, ha, hpl⟩ := hpas
    have hjn := (ho.active j hj).2.2.lt
    exact ⟨t, j, hx.dst.trans hj, hx.dstTrans.trans ht, hcm _ _ _ ha (by simp),
      hx.src ▸ hp _ hjn _ _ hpl⟩

/-- The fields that the setup of a transport stores and reads. -/
structure SameSetup (x y : HmpTransport) : Prop where
  cmId : y.cmId = x.cmId
  nodeId : y.nodeId = x.nodeId
  region : y.region = x.region
  peerAddr : y.peerAddr = x.peerAddr

theorem SameSetup.of_eq {x y : HmpTransport} (h : y = x) : SameSetup x y := by
  subst h
  exact ⟨rfl, rfl, rfl, rfl⟩

theorem SameSetup.located {nd nd' : Node} (h : SameSetup (nd.trans t) (nd'.trans t))
    (hpool : nd'.dramMempool = nd.dramMempool) (hl : nd.Located t k) : nd'.Located t k := by
  obtain ⟨h₁, h₂, h₃⟩ := hl
  have hs : nd'.slot = nd.slot := by
    funext p k
    simp only [Node.slot, Node.baseAddr, hpool]
  exact ⟨h.nodeId.trans h₁, by rw [h.region, h₂, hs], by rw [h.region, h₃, hs]⟩

/-- The main thread notices only what happens to the transport that it sets up. -/
theorem MainOk.others (h : MainOk cfg s i (s.main i))
    (hpool : (s'.node i).dramMempool = (s.node i).dramMempool)
    (hnext : (s.node i).nextTrans ≤ (s'.node i).nextTrans)
    (hb : ∀ t, (s.main i).building = some t →
      SameSetup ((s.node i).trans t) ((s'.node i).trans t))
    (hc : ∀ d, (s.conn d).phase = .created → (s'.conn d).phase = .created) :
    MainOk cfg s' i (s.main i) := by
  cases hpc : s.main i with
  | peer k t stmt =>
    rw [hpc] at h hb
    obtain ⟨hcm, hnd, hr, -⟩ := hb t rfl
    obtain ⟨h₁, h₂, h₃, h₄, h₅, h₆, h₇⟩ := h
    simp only [MainOk, hpool, hcm, hnd, hr, Node.slot, Node.baseAddr]
    exact ⟨h₁, h₂, h₃, h₄.trans_le hnext, h₅, h₆, h₇⟩
  | connect k t pc =>
    rw [hpc] at h hb
    obtain ⟨h₁, h₂, h₃, h₄, h₅⟩ := h
    refine ⟨h₁, h₂, hpool ▸ h₃, h₄.trans_le hnext, ?_⟩
    cases pc with
    | entry =>
      have ht := hb t rfl
      exact ⟨ht.located hpool h₅.1, ht.cmId.trans h₅.2⟩
    | createId =>
      have ht := hb t rfl
      obtain ⟨hl, hcm, ha⟩ := h₅
      exact ⟨ht.located hpool hl, ht.cmId.trans hcm, ht.peerAddr ▸ ha⟩
    | resolveAddr =>
      have ht := hb t rfl
      obtain ⟨hl, ha, d, hcm, hd⟩ := h₅
      exact ⟨ht.located hpool hl, ht.peerAddr ▸ ha, d, ht.cmId.trans hcm, hc d hd⟩
    | setState | returned => trivial
  | exited => trivial
  | loop k =>
    rw [hpc] at h
    exact ⟨h.1, hpool ▸ h.2⟩
  | _ => simpa only [hpc, MainOk, hpool] using h

theorem MainOk.building (h : MainOk cfg s i (s.main i)) (hb : (s.main i).building = some t) :
    t < (s.node i).nextTrans ∧ (((s.node i).trans t).cmId = none ∨
      ∃ d, ((s.node i).trans t).cmId = some ⟨d, true⟩ ∧ (s.conn d).phase = .created) := by
  cases hpc : s.main i with
  | peer k u stmt =>
    rw [hpc] at h hb
    obtain rfl : u = t := Option.some.inj hb
    obtain ⟨-, -, -, h₄, h₅, -⟩ := h
    exact ⟨h₄, .inl h₅⟩
  | connect k u pc =>
    rw [hpc] at h hb
    obtain ⟨-, -, -, h₄, h₅⟩ := h
    cases pc with
    | entry =>
      obtain rfl : u = t := Option.some.inj hb
      exact ⟨h₄, .inl h₅.2⟩
    | createId =>
      obtain rfl : u = t := Option.some.inj hb
      exact ⟨h₄, .inl h₅.2.1⟩
    | resolveAddr =>
      obtain rfl : u = t := Option.some.inj hb
      exact ⟨h₄, .inr h₅.2.2⟩
    | setState | returned => simp [MainPc.building] at hb
  | _ => simp [hpc, MainPc.building] at hb

theorem Local.of_eq {n : Node} {m : MainPc} {l : LoopPc} {x : Conn}
    (hnode : s'.node = Function.update s.node i n)
    (hmain : s'.main = Function.update s.main i m) (hloop : s'.loop = Function.update s.loop i l)
    (hconn : s'.conn = Function.update s.conn c x) (hnconn : s'.nconn = s.nconn)
    (hx : c < s.nconn → Evolves (s.conn c) x)
    (hcr : c < s.nconn → (s.conn c).phase = .created → x.phase = .created ∨ (s.conn c).src = i) :
    Local s s' i c := by
  have hci : s'.conn c = x := by rw [hconn, Function.update_self]
  exact ⟨fun k hk => by simp [hnode, hk], fun k hk => by simp [hmain, hk],
    fun k hk => by simp [hloop, hk], fun d hd => by simp [hconn, hd], hnconn.ge,
    fun d hd => .inl (hnconn ▸ hd), hci ▸ hx, hci ▸ hcr⟩

/-- The step changes no connection. -/
theorem Local.of_node {nd : Node} {m : MainPc} {l : LoopPc}
    (hnode : s'.node = Function.update s.node i nd)
    (hmain : s'.main = Function.update s.main i m) (hloop : s'.loop = Function.update s.loop i l)
    (hconn : s'.conn = s.conn) (hnconn : s'.nconn = s.nconn) : Local s s' i s.nconn :=
  .of_eq (x := s.conn s.nconn) hnode hmain hloop (by rw [hconn, Function.update_eq_self]) hnconn
    (fun h => absurd h (lt_irrefl _)) (fun h => absurd h (lt_irrefl _))

/-- The step creates a connection. -/
theorem Local.of_new {nd : Node} {m : MainPc} {x : Conn}
    (hnode : s'.node = Function.update s.node i nd)
    (hmain : s'.main = Function.update s.main i m) (hloop : s'.loop = s.loop)
    (hconn : s'.conn = Function.update s.conn s.nconn x) (hnconn : s'.nconn = s.nconn + 1) :
    Local s s' i s.nconn :=
  ⟨fun k hk => by simp [hnode, hk], fun k hk => by simp [hmain, hk], fun k _ => by rw [hloop],
    fun d hd => by simp [hconn, hd], by omega, fun d hd => by omega,
    fun h => absurd h (lt_irrefl _), fun h => absurd h (lt_irrefl _)⟩

/-- The rule for the steps that set no transport up. -/
theorem PlaceInv.quiet {nd : Node} {m : MainPc} {l : LoopPc} {x : Conn} (h : PlaceInv cfg s)
    (hi : i < cfg.nodeCnt) (hnode : s'.node = Function.update s.node i nd)
    (hmain : s'.main = Function.update s.main i m) (hloop : s'.loop = Function.update s.loop i l)
    (hconn : s'.conn = Function.update s.conn c x) (hnconn : s'.nconn = s.nconn)
    (hst : (s.node i).Steady nd u)
    (hli : nd.listenState = (s.node i).listenState ∨ (s.node i).dramMempool ≠ none)
    (hx : Progress (s.conn c) x)
    (hm : MainOk cfg s' i m ∨ m = s.main i ∧ ∀ t, (s.main i).building = some t →
      SameSetup ((s.node i).trans t) (nd.trans t))
    (hl : LoopOk cfg s' i l ∨ l = s.loop i)
    (hacc : (s.conn c).phase = .answering → x.phase = .accepted →
      ∃ t j, (s.conn c).dst = some j ∧ (s.conn c).dstTrans = some t ∧
        ((s.node j).trans t).cmId = some ⟨c, false⟩ ∧ Placed cfg s j t (s.conn c).src) :
    Kept cfg s s' i := by
  have hni : s'.node i = nd := by rw [hnode, Function.update_self]
  have hci : s'.conn c = x := by rw [hconn, Function.update_self]
  have hk := h.1 i hi
  have hs : Local s s' i c := .of_eq hnode hmain hloop hconn hnconn (fun _ => hx.evolves)
    (fun _ hcr => .inl (hx.created hcr))
  subst hni
  have hcreated : ∀ d, (s.conn d).phase = .created → (s'.conn d).phase = .created := by
    intro d hd
    by_cases hdc : d = c
    · subst hdc
      rw [hci]
      exact hx.created hd
    · rwa [hs.conn d hdc]
  have hp : ∀ t j, Placed cfg s i t j → Placed cfg s' i t j := fun t j hp => hp.steady hk hs hst
  have hcm : ∀ k t, ((s'.node k).trans t).cmId = ((s.node k).trans t).cmId := by
    intro k t
    by_cases hki : k = i
    · rw [hki, hst.cmId_eq]
    · rw [hs.node k hki]
  refine h.step hs hp (fun t cm ht _ => (hcm i t).trans ht) (fun pool hp => hst.pool.trans hp) ?_
    (fun hc hpa => ?_)
  · refine ⟨hst.curnodeId.trans hk.curnodeId, hst.nodeCnt.trans hk.nodeCnt,
      fun k => (hst.addr k).trans (hk.addr k),
      fun t ht => (hcm i t).trans (hk.fresh t (hst.nextTrans.trans ht)),
      fun t => hst.curRecv_lt (hk.curRecv t), ?_, ?_, ?_,
      fun t cm ht => hs.endOk (hk.ends t cm ((hcm i t).symm.trans ht))⟩
    · intro hl
      rw [hst.pool]
      rcases hli with he | hp
      · exact hk.listening (he ▸ hl)
      · exact hp
    · rw [hmain, Function.update_self]
      rcases hm with hm | ⟨rfl, hb⟩
      · exact hm
      · exact hk.main.others hst.pool hst.nextTrans hb hcreated
    · rw [hloop, Function.update_self]
      rcases hl with hl | rfl
      · exact hl
      · exact hk.loop.mono (fun t d ht => ⟨(hcm i t).trans ht, hs.evolve (hk.ends t _ ht).1⟩)
          (hst.pool ▸ id) hp
  · exact (h.2 c (hnconn ▸ hc)).progress (hci ▸ hx) (fun k t cm ht _ => (hcm k t).trans ht) hpa
      (hci ▸ hacc)

/-- The rule for the steps that set transport `t` up or create it. -/
theorem PlaceInv.setup {nd : Node} (h : PlaceInv cfg s) (hi : i < cfg.nodeCnt)
    (hs : Local s s' i c) (hni : s'.node i = nd) (hconf : nd.config = (s.node i).config)
    (hpool : nd.dramMempool = (s.node i).dramMempool)
    (hlis : nd.listenState = (s.node i).listenState) (hnext : (s.node i).nextTrans ≤ nd.nextTrans)
    (htn : t < nd.nextTrans) (ho : ∀ u ≠ t, nd.trans u = (s.node i).trans u)
    (hrecv : (nd.trans t).region.curRecv < 3)
    (hpt : ∀ j, Placed cfg s i t j → Placed cfg s' i t j)
    (hcmt : ∀ cm, ((s.node i).trans t).cmId = some cm →
      (cm.active = true → (s.conn cm.conn).dst ≠ none) → (nd.trans t).cmId = some cm)
    (hm : MainOk cfg s' i (s'.main i))
    (hl : (∀ u j, Placed cfg s i u j → Placed cfg s' i u j) → LoopOk cfg s' i (s'.loop i))
    (het : ∀ cm, (nd.trans t).cmId = some cm → EndOk s' i t cm)
    (hc : c < s'.nconn → (∀ k < cfg.nodeCnt, ∀ t j, Placed cfg s k t j → Placed cfg s' k t j) →
      ConnOk cfg s' c) : Kept cfg s s' i := by
  have hk := h.1 i hi
  have hp : ∀ u j, Placed cfg s i u j → Placed cfg s' i u j := by
    intro u j hp
    by_cases hut : u = t
    · exact hut ▸ hpt j (hut ▸ hp)
    · obtain ⟨cm, hcm, -, -⟩ := hp.cmId
      have hu : (s'.node i).trans u = (s.node i).trans u := by rw [hni, ho u hut]
      exact ⟨(SameSetup.of_eq hu).located (hni ▸ hpool) hp.located,
        by rw [hni, hpool]; exact hp.pool, hp.lt,
        hp.ne, hs.otherEnd hcm (by rw [hu, hcm]) (hk.ends u cm hcm).1 hp.far⟩
  refine h.step hs hp ?_ (fun pool hp => by rw [hni, hpool, hp]) ?_ hc
  · intro u cm hcm ha
    rw [hni]
    by_cases hut : u = t
    · exact hut ▸ hcmt cm (hut ▸ hcm) ha
    · rw [ho u hut, hcm]
  · refine ⟨by rw [hni, hconf, hk.curnodeId], by rw [hni, hconf, hk.nodeCnt],
      fun k => by rw [hni, hconf, hk.addr], fun u hu => ?_, fun u => ?_, fun hl => ?_, hm, hl hp,
      fun u cm hcm => ?_⟩
    · rw [hni] at hu ⊢
      rw [ho u (by omega), hk.fresh u (hnext.trans hu)]
    · rw [hni]
      by_cases hut : u = t
      · exact hut ▸ hrecv
      · rw [ho u hut]
        exact hk.curRecv u
    · rw [hni, hpool]
      exact hk.listening (by rw [← hlis, ← hni, hl])
    · by_cases hut : u = t
      · subst hut
        exact het cm (hni ▸ hcm)
      · rw [hni, ho u hut] at hcm
        exact hs.endOk (hk.ends u cm hcm)

end Cluster

end HMP
