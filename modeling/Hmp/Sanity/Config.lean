import Hmp.Spec.Config

/-! The loops of `hmp_config_init`: an access out of bounds stays in the record, and a document within
the limits is read entry by entry. -/

namespace HMP

theorem Mem.int_lt (m : Mem) (a : ℕ) : m.int a < 2 ^ 31 := by
  have := BitVec.toInt_lt (x := BitVec.ofNat 32 (m.word a 4))
  simpa [Mem.int] using this

namespace ConfigRun

variable {config index : ℕ} {s s' s'' : ConfigRun}

theorem andThen_of_running (f : ConfigRun → ConfigRun) (h : s.phase = .running) :
    s.andThen f = f s := if_pos h

/-! ## What stays -/

structure Grows (s s' : ConfigRun) : Prop where
  uses : s.uses <+: s'.uses
  ended : s.phase ≠ .running → s' = s

theorem Grows.refl (s : ConfigRun) : Grows s s := ⟨List.prefix_refl _, fun _ => rfl⟩

theorem Grows.trans (h : Grows s s') (h' : Grows s' s'') : Grows s s'' := by
  refine ⟨h.uses.trans h'.uses, fun hs => ?_⟩
  have heq := h.ended hs
  subst heq
  exact h'.ended hs

theorem Grows.andThen {f : ConfigRun → ConfigRun} (hf : ∀ s, s.uses <+: (f s).uses)
    (s : ConfigRun) : Grows s (s.andThen f) := by
  unfold ConfigRun.andThen
  split_ifs with hs
  · exact ⟨hf s, fun h => absurd hs h⟩
  · exact Grows.refl s

theorem parseChild_uses (config index : ℕ) (child : XmlNode) (s : ConfigRun) :
    s.uses <+: (parseChild config index child s).uses := by
  have haddr (s : ConfigRun) : s.uses <+: (copyAddr config index child.text s).uses := by
    unfold copyAddr
    split <;> exact List.prefix_append ..
  have hport (s : ConfigRun) : s.uses <+: (setPort config index child.text s).uses := by
    unfold setPort
    split <;> exact List.prefix_append ..
  unfold parseChild
  split_ifs
  · exact (haddr s).trans (hport _)
  · exact haddr s
  · exact hport s
  · exact List.prefix_refl _

theorem children_grows (config index : ℕ) (l : List XmlNode) (s : ConfigRun) :
    Grows s (l.foldl (fun s child => s.andThen (parseChild config index child)) s) := by
  induction l generalizing s with
  | nil => exact Grows.refl s
  | cons child l ih => exact (Grows.andThen (parseChild_uses config index child) s).trans (ih _)

theorem countNode_uses (config index : ℕ) (s : ConfigRun) :
    s.uses <+: (countNode config index s).uses := by
  unfold countNode
  dsimp only
  split_ifs <;> exact List.prefix_refl _

/-- The body of the loop for a child named `node`. -/
def stepNode (config index : ℕ) (node : XmlNode) (s : ConfigRun) : ConfigRun :=
  (s.andThen (hmpParseNode config index node)).andThen (countNode config index)

theorem stepNode_grows (config index : ℕ) (node : XmlNode) (s : ConfigRun) :
    Grows s (stepNode config index node s) :=
  (Grows.andThen (fun s => (children_grows config index node.children s).uses) s).trans
    (Grows.andThen (countNode_uses config index) _)

theorem setCurnodeId_uses (config : ℕ) (ifs : List IfReq) (s : ConfigRun) :
    s.uses <+: (hmpSetCurnodeId config ifs s).uses := by
  unfold hmpSetCurnodeId
  split
  · exact List.prefix_refl _
  · split <;> exact List.prefix_append ..

/-- The run has left the bounds. -/
def Bad (s : ConfigRun) : Prop := s.phase = .crashed ∨ ¬ s.StaysInBounds

theorem Grows.bad (h : Grows s s') (hb : Bad s) : Bad s' := by
  rcases hb with hc | hb
  · left
    rw [h.ended (by rw [hc]; decide), hc]
  · right
    intro hin
    exact hb fun u hu => hin u (h.uses.subset hu)

theorem not_staysInBounds {u : ConfigUse} (h : u ∈ s.uses) (hu : u.ok = false) :
    ¬ s.StaysInBounds := fun hin => by simp [hin u h] at hu

/-! ## One step -/

/-- Only bytes of `P` have changed, and the accesses have been in bounds. -/
structure Within (P : ℕ → Prop) (s s' : ConfigRun) : Prop where
  phase : s'.phase = .running
  uses : s.StaysInBounds → s'.StaysInBounds
  mem : ∀ x, ¬ P x → s'.mem x = s.mem x

theorem Within.refl {P : ℕ → Prop} (h : s.phase = .running) : Within P s s :=
  ⟨h, id, fun _ _ => rfl⟩

theorem Within.trans {P : ℕ → Prop} (h : Within P s s') (h' : Within P s' s'') : Within P s s'' :=
  ⟨h'.phase, h'.uses ∘ h.uses, fun x hx => (h'.mem x hx).trans (h.mem x hx)⟩

theorem StaysInBounds.use {us : List ConfigUse} (h : s.StaysInBounds) (hus : ∀ u ∈ us, u.ok = true) :
    (s.use us).StaysInBounds := by
  intro u hu
  rcases List.mem_append.mp hu with hu | hu
  · exact h u hu
  · exact hus u hu

/-- The address and the port of entry `index`. -/
def EntryBytes (config index x : ℕ) : Prop :=
  index < HMP_NODE_NUM ∧ addrAt config index ≤ x ∧ x < addrAt config index + 24

/-- The child can be read into entry `index`. -/
structure ChildFits (index : ℕ) (child : XmlNode) : Prop where
  text : child.TextFits
  index : child.name = "addr" ∨ child.name = "port" → index < HMP_NODE_NUM

theorem parseChild_addr {child : XmlNode} (h : child.name = "addr") (s : ConfigRun) :
    parseChild config index child s = copyAddr config index child.text s := by
  simp [parseChild, h]

theorem parseChild_port {child : XmlNode} (h : child.name = "port") (s : ConfigRun) :
    parseChild config index child s = setPort config index child.text s := by
  simp [parseChild, h]

theorem parseChild_other {child : XmlNode} (h : child.name ≠ "addr") (h' : child.name ≠ "port")
    (s : ConfigRun) : parseChild config index child s = s := by
  simp [parseChild, h, h']

theorem copyAddr_within {t : CString} (hi : index < HMP_NODE_NUM) (ht : t.1.length < HMP_ADDR_LEN)
    (hs : s.phase = .running) :
    Within (EntryBytes config index) s (copyAddr config index (some t) s) := by
  refine ⟨hs, fun h => h.use ?_, fun x hx => ?_⟩
  · intro u hu
    simp only [List.mem_cons, List.not_mem_nil, or_false] at hu
    rcases hu with rfl | rfl | rfl
    · rfl
    · exact decide_eq_true hi
    · exact decide_eq_true ht
  · simp only [EntryBytes, hi, true_and, HMP_ADDR_LEN] at hx ht
    rcases Nat.lt_or_ge x (addrAt config index) with hlt | hge
    · exact Mem.write_of_lt _ _ hlt
    · apply Mem.write_of_le _ _
      rw [List.length_append, List.length_singleton]
      omega

theorem setPort_within {t : CString} (hi : index < HMP_NODE_NUM) (hs : s.phase = .running) :
    Within (EntryBytes config index) s (setPort config index (some t) s) := by
  refine ⟨hs, fun h => h.use ?_, fun x hx => ?_⟩
  · intro u hu
    simp only [List.mem_cons, List.not_mem_nil, or_false] at hu
    rcases hu with rfl | rfl
    · rfl
    · exact decide_eq_true hi
  · simp only [EntryBytes, hi, true_and, addrAt] at hx
    apply Mem.setInt_apply _ _
    simp only [portAt]
    omega

theorem parseChild_within {child : XmlNode} (h : ChildFits index child) (hs : s.phase = .running) :
    Within (EntryBytes config index) s (parseChild config index child s) := by
  by_cases haddr : child.name = "addr"
  · obtain ⟨t, ht, hlen⟩ := h.text.addr haddr
    rw [parseChild_addr haddr, ht]
    exact copyAddr_within (h.index (.inl haddr)) hlen hs
  · by_cases hport : child.name = "port"
    · obtain ⟨t, ht⟩ := h.text.port hport
      rw [parseChild_port hport, ht]
      exact setPort_within (h.index (.inr hport)) hs
    · rw [parseChild_other haddr hport]
      exact Within.refl hs

theorem copyAddr_bad {val : Option CString}
    (h : ¬ ((∃ t, val = some t ∧ t.1.length < HMP_ADDR_LEN) ∧ index < HMP_NODE_NUM))
    (s : ConfigRun) : Bad (copyAddr config index val s) := by
  cases val with
  | none => exact .inl rfl
  | some t =>
    right
    by_cases hi : index < HMP_NODE_NUM
    · have hlen : ¬ t.1.length < HMP_ADDR_LEN := fun hlt => h ⟨⟨t, rfl, hlt⟩, hi⟩
      exact not_staysInBounds (u := .copyAddr (t.1.length + 1)) (by simp [copyAddr, use])
        (decide_eq_false hlen)
    · exact not_staysInBounds (u := .nodeInfo index) (by simp [copyAddr, use])
        (decide_eq_false hi)

theorem setPort_bad {val : Option CString} (h : ¬ ((∃ t, val = some t) ∧ index < HMP_NODE_NUM))
    (s : ConfigRun) : Bad (setPort config index val s) := by
  cases val with
  | none => exact .inl rfl
  | some t =>
    have hi : ¬ index < HMP_NODE_NUM := fun hi => h ⟨⟨t, rfl⟩, hi⟩
    exact .inr (not_staysInBounds (u := .nodeInfo index) (by simp [setPort, use])
      (decide_eq_false hi))

theorem parseChild_bad {child : XmlNode} (h : ¬ ChildFits index child) (s : ConfigRun) :
    Bad (parseChild config index child s) := by
  by_cases haddr : child.name = "addr"
  · rw [parseChild_addr haddr]
    refine copyAddr_bad (fun hfit => h ⟨⟨fun _ => hfit.1, fun hport => ?_⟩, fun _ => hfit.2⟩) s
    simp [haddr] at hport
  · by_cases hport : child.name = "port"
    · rw [parseChild_port hport]
      exact setPort_bad (fun hfit => h ⟨⟨fun ha => absurd ha haddr, fun _ => hfit.1⟩,
        fun _ => hfit.2⟩) s
    · exact absurd ⟨⟨fun ha => absurd ha haddr, fun hp => absurd hp hport⟩,
        fun hor => absurd hor (not_or.mpr ⟨haddr, hport⟩)⟩ h

/-! ## `hmp_parse_node` -/

def NodeFits (index : ℕ) (node : XmlNode) : Prop := ∀ child ∈ node.children, ChildFits index child

theorem children_within {l : List XmlNode} (h : ∀ child ∈ l, ChildFits index child)
    (hs : s.phase = .running) :
    Within (EntryBytes config index) s
      (l.foldl (fun s child => s.andThen (parseChild config index child)) s) := by
  induction l generalizing s with
  | nil => exact Within.refl hs
  | cons child l ih =>
    have hstep : Within (EntryBytes config index) s (parseChild config index child s) :=
      parseChild_within (h child List.mem_cons_self) hs
    rw [List.foldl_cons, andThen_of_running _ hs]
    exact hstep.trans (ih (fun c hc => h c (List.mem_cons_of_mem _ hc)) hstep.phase)

theorem children_bad {l : List XmlNode} (h : ¬ ∀ child ∈ l, ChildFits index child)
    (hs : s.phase = .running) :
    Bad (l.foldl (fun s child => s.andThen (parseChild config index child)) s) := by
  induction l generalizing s with
  | nil => exact absurd (fun _ hc => by cases hc) h
  | cons child l ih =>
    rw [List.foldl_cons, andThen_of_running _ hs]
    by_cases hchild : ChildFits index child
    · refine ih (fun hl => h fun c hc => ?_) (parseChild_within hchild hs).phase
      rcases List.mem_cons.mp hc with rfl | hc
      · exact hchild
      · exact hl c hc
    · exact (children_grows config index l _).bad (parseChild_bad hchild s)

theorem hmpParseNode_within {node : XmlNode} (h : NodeFits index node) (hs : s.phase = .running) :
    Within (EntryBytes config index) s (hmpParseNode config index node s) := children_within h hs

theorem hmpParseNode_bad {node : XmlNode} (h : ¬ NodeFits index node) (hs : s.phase = .running) :
    Bad (hmpParseNode config index node s) := children_bad h hs

/-- The text of the last child with this name, of any type. -/
def lastOf (l : List XmlNode) (name : String) : Option CString :=
  ((l.filter (·.name = name)).getLast?).bind (·.text)

@[simp] theorem lastOf_nil (name : String) : lastOf [] name = none := rfl

theorem lastOf_concat_same {l : List XmlNode} {child : XmlNode} {name : String}
    (h : child.name = name) : lastOf (l ++ [child]) name = child.text := by
  simp [lastOf, h]

theorem lastOf_concat_other {l : List XmlNode} {child : XmlNode} {name : String}
    (h : child.name ≠ name) : lastOf (l ++ [child]) name = lastOf l name := by
  simp [lastOf, h]

/-- What the children `l` give is in the entry. -/
structure EntryHolds (m : Mem) (config index : ℕ) (l : List XmlNode) : Prop where
  short : (((lastOf l "addr").map (·.1)).getD []).length < HMP_ADDR_LEN
  addr : m.HasCString (addrAt config index) (((lastOf l "addr").map (·.1)).getD [])
  port : m.int (portAt config index) = ((lastOf l "port").map fun t => atoi t.1).getD 0

theorem EntryHolds.congr {m m' : Mem} {l : List XmlNode} (h : EntryHolds m config index l)
    (hm : ∀ x, addrAt config index ≤ x → x < addrAt config index + 24 → m' x = m x) :
    EntryHolds m' config index l := by
  have hshort := h.short
  simp only [HMP_ADDR_LEN] at hshort
  refine ⟨h.short, h.addr.congr fun x hx hx' => hm x hx (by omega), ?_⟩
  rw [← h.port]
  refine Mem.int_congr fun x hx hx' => hm x ?_ ?_ <;> simp only [portAt, addrAt] at * <;> omega

/-- A later `addr` takes the place of an earlier one, whatever their lengths. -/
theorem EntryHolds.copyAddr {l : List XmlNode} {child : XmlNode} {t : CString}
    (h : EntryHolds s.mem config index l) (hname : child.name = "addr") (ht : child.text = some t)
    (hlen : t.1.length < HMP_ADDR_LEN) :
    EntryHolds (copyAddr config index child.text s).mem config index (l ++ [child]) := by
  have haddr : lastOf (l ++ [child]) "addr" = some t := by rw [lastOf_concat_same hname, ht]
  have hport : lastOf (l ++ [child]) "port" = lastOf l "port" :=
    lastOf_concat_other (by rw [hname]; decide)
  rw [ht]
  refine ⟨by rw [haddr]; exact hlen, ?_, ?_⟩
  · rw [haddr]
    exact s.mem.hasCString_write (addrAt config index) t.1
  · rw [hport, ← h.port]
    refine Mem.int_congr fun x hx hx' => Mem.write_of_le _ _ ?_
    simp only [List.length_append, List.length_singleton, HMP_ADDR_LEN, portAt, addrAt] at *
    omega

theorem EntryHolds.setPort {l : List XmlNode} {child : XmlNode} {t : CString}
    (h : EntryHolds s.mem config index l) (hname : child.name = "port") (ht : child.text = some t) :
    EntryHolds (setPort config index child.text s).mem config index (l ++ [child]) := by
  have haddr : lastOf (l ++ [child]) "addr" = lastOf l "addr" :=
    lastOf_concat_other (by rw [hname]; decide)
  have hport : lastOf (l ++ [child]) "port" = some t := by rw [lastOf_concat_same hname, ht]
  have hshort := h.short
  simp only [HMP_ADDR_LEN] at hshort
  rw [ht]
  refine ⟨by rw [haddr]; exact h.short, ?_, ?_⟩
  · rw [haddr]
    refine h.addr.congr fun x hx hx' => Mem.setInt_apply _ _ (.inl ?_)
    simp only [portAt, addrAt] at *
    omega
  · rw [hport]
    -- `atoi` is narrowed to an `int` already
    have hint : BitVec.ofInt 32 (atoi t.1) = BitVec.ofInt 32 (strtol t.1) := BitVec.ofInt_toInt
    exact (s.mem.int_setInt _ _).trans (by rw [hint]; rfl)

theorem children_hold {l : List XmlNode} (h : ∀ child ∈ l, ChildFits index child)
    (hs : s.phase = .running) (hzero : EntryHolds s.mem config index []) :
    EntryHolds (l.foldl (fun s child => s.andThen (parseChild config index child)) s).mem config
      index l := by
  induction l using List.reverseRecOn with
  | nil => exact hzero
  | append_singleton l child ih =>
    have hl : ∀ c ∈ l, ChildFits index c := fun c hc => h c (List.mem_append_left _ hc)
    have hchild : ChildFits index child := h child (by simp)
    have hih := ih hl
    rw [List.foldl_append, List.foldl_cons, List.foldl_nil,
      andThen_of_running _ (children_within hl hs).phase]
    by_cases haddr : child.name = "addr"
    · obtain ⟨t, ht, hlen⟩ := hchild.text.addr haddr
      rw [parseChild_addr haddr]
      exact hih.copyAddr haddr ht hlen
    · by_cases hport : child.name = "port"
      · obtain ⟨t, ht⟩ := hchild.text.port hport
        rw [parseChild_port hport]
        exact hih.setPort hport ht
      · rw [parseChild_other haddr hport]
        exact ⟨by rw [lastOf_concat_other haddr]; exact hih.short,
          by rw [lastOf_concat_other haddr]; exact hih.addr,
          by rw [lastOf_concat_other hport]; exact hih.port⟩

/-! ## The loop of `hmp_config_init` -/

/-- The loop has read the nodes `ns`. -/
structure Parsed (config : ℕ) (ns : List XmlNode) (s : ConfigRun) : Prop where
  phase : s.phase = .running
  uses : s.StaysInBounds
  cnt : s.mem.int (nodeCntAt config) = ns.length
  texts : ∀ node ∈ ns, ∀ child ∈ node.children, child.TextFits

theorem Parsed.start (config : ℕ) (m : Mem) : Parsed config [] (start config m) := by
  refine ⟨rfl, fun _ hu => (by cases hu), ?_, fun _ hn => (by cases hn)⟩
  have hframe : (ConfigRun.start config m).mem.int (nodeCntAt config) =
      (m.setInt (nodeCntAt config) 0).int (nodeCntAt config) :=
    Mem.int_congr fun x hx _ => Mem.setInt_apply _ _ (.inr hx)
  rw [hframe, Mem.int_setInt_of_lt _ _ (by omega) (by omega)]
  rfl

theorem countNode_eq (hcnt : s.mem.int (nodeCntAt config) ≠ 2 ^ 31 - 1)
    (hi : index ≠ 2 ^ 31 - 1) :
    countNode config index s =
      { s with mem := s.mem.setInt (nodeCntAt config) (s.mem.int (nodeCntAt config) + 1) } := by
  rw [countNode, if_neg (not_or.mpr ⟨hcnt, hi⟩)]

/-- The entries do not reach `node_cnt`. -/
theorem Within.nodeCnt (h : Within (EntryBytes config index) s s') :
    s'.mem.int (nodeCntAt config) = s.mem.int (nodeCntAt config) := by
  refine Mem.int_congr fun x hx hx' => h.mem x fun hb => ?_
  have hi := hb.1
  have hlt := hb.2.2
  simp only [nodeCntAt, addrAt, nodeInfoSize, HMP_NODE_NUM] at *
  omega

variable {ns : List XmlNode} {node : XmlNode}

theorem Parsed.within (h : Parsed config ns s) (hfit : NodeFits ns.length node) :
    Within (EntryBytes config ns.length) s (hmpParseNode config ns.length node s) :=
  hmpParseNode_within hfit h.phase

theorem Parsed.cnt_parseNode (h : Parsed config ns s) (hfit : NodeFits ns.length node) :
    (hmpParseNode config ns.length node s).mem.int (nodeCntAt config) = ns.length :=
  (h.within hfit).nodeCnt.trans h.cnt

theorem stepNode_eq (h : Parsed config ns s) (hfit : NodeFits ns.length node)
    (hlt : ns.length < 2 ^ 31 - 1) :
    stepNode config ns.length node s =
      { hmpParseNode config ns.length node s with
        mem := (hmpParseNode config ns.length node s).mem.setInt (nodeCntAt config)
          (ns.length + 1) } := by
  have hw := h.within hfit
  have hcnt := h.cnt_parseNode hfit
  rw [stepNode, andThen_of_running _ h.phase, andThen_of_running _ hw.phase,
    countNode_eq (by rw [hcnt]; omega) (by omega), hcnt]

theorem Parsed.step (h : Parsed config ns s) (hfit : NodeFits ns.length node)
    (hlt : ns.length < 2 ^ 31 - 1) :
    Parsed config (ns ++ [node]) (stepNode config ns.length node s) := by
  have hw := h.within hfit
  rw [stepNode_eq h hfit hlt]
  refine ⟨hw.phase, hw.uses h.uses, ?_, ?_⟩
  · apply (Mem.int_setInt_of_lt _ _ (by omega) (by omega)).trans
    simp
  · intro n hn
    rcases List.mem_append.mp hn with hn | hn
    · exact h.texts n hn
    · obtain rfl := List.mem_singleton.mp hn
      exact fun c hc => (hfit c hc).text

/-- A node that does not fit takes the run out of the bounds, as does one too many for an
`int`. -/
theorem Parsed.step_or_bad (h : Parsed config ns s) (node : XmlNode) :
    Parsed config (ns ++ [node]) (stepNode config ns.length node s) ∨
      Bad (stepNode config ns.length node s) := by
  by_cases hfit : NodeFits ns.length node
  · by_cases hlt : ns.length < 2 ^ 31 - 1
    · exact .inl (h.step hfit hlt)
    · right
      have hw := h.within hfit
      have hcnt := h.cnt_parseNode hfit
      have hmax := Mem.int_lt (hmpParseNode config ns.length node s).mem (nodeCntAt config)
      rw [stepNode, andThen_of_running _ h.phase, andThen_of_running _ hw.phase]
      left
      rw [countNode, if_pos (.inl (by omega))]
  · right
    rw [stepNode, andThen_of_running _ h.phase]
    exact (Grows.andThen (countNode_uses config ns.length) _).bad (hmpParseNode_bad hfit h.phase)

/-- The entries are those of `ns`, and the rest of `node_infos` is zero. -/
structure Entries (config : ℕ) (ns : List XmlNode) (s : ConfigRun) : Prop where
  entry : ∀ k node, ns[k]? = some node → EntryHolds s.mem config k node.children
  rest : ∀ x, addrAt config ns.length ≤ x → x < curnodeIdAt config → s.mem x = 0

theorem entryHolds_zero {m : Mem}
    (h : ∀ x, addrAt config index ≤ x → x < addrAt config index + 24 → m x = 0) :
    EntryHolds m config index [] := by
  refine ⟨Nat.zero_lt_succ _, Mem.hasCString_nil (h _ le_rfl (by omega)), ?_⟩
  refine Mem.int_of_zero fun x hx hx' => h x ?_ ?_ <;> simp only [portAt, addrAt] at * <;> omega

theorem Entries.step (h : Parsed config ns s) (he : Entries config ns s)
    (hfit : NodeFits ns.length node) (hlt : ns.length < HMP_NODE_NUM) :
    Entries config (ns ++ [node]) (stepNode config ns.length node s) := by
  have hw := h.within hfit
  have hbound : ns.length < 8 := hlt
  rw [stepNode_eq h hfit (by omega)]
  -- `node_cnt++` is behind all entries
  have hcnt {x : ℕ} (hx : x < curnodeIdAt config) :
      (hmpParseNode config ns.length node s).mem.setInt (nodeCntAt config) (ns.length + 1) x =
        (hmpParseNode config ns.length node s).mem x :=
    Mem.setInt_apply _ _ (.inl (by simp only [curnodeIdAt, nodeCntAt] at *; omega))
  have hentry {k : ℕ} (hk : k ≤ ns.length) {x : ℕ} (hx : x < addrAt config k + 24) :
      x < curnodeIdAt config := by
    simp only [curnodeIdAt, addrAt, nodeInfoSize, HMP_NODE_NUM] at *
    omega
  constructor
  · intro k n hk
    rcases Nat.lt_or_ge k ns.length with hlt' | hge
    · rw [List.getElem?_append_left hlt'] at hk
      refine (he.entry k n hk).congr fun x hx hx' => ?_
      refine (hcnt (hentry hlt'.le hx')).trans (hw.mem x fun hb => ?_)
      have := hb.2.1
      simp only [addrAt, nodeInfoSize] at *
      omega
    · obtain ⟨rfl, rfl⟩ : k = ns.length ∧ n = node := by
        rw [List.getElem?_append_right hge] at hk
        have hz : k - ns.length = 0 := by
          by_contra hne
          rw [List.getElem?_eq_none (by simp; omega)] at hk
          cases hk
        rw [hz] at hk
        exact ⟨by omega, (Option.some.inj hk).symm⟩
      have hzero : EntryHolds s.mem config ns.length [] :=
        entryHolds_zero fun x hx hx' => he.rest x hx (hentry le_rfl hx')
      exact (children_hold hfit h.phase hzero).congr fun x _ hx' => hcnt (hentry le_rfl hx')
  · intro x hx hx'
    rw [List.length_append, List.length_singleton] at hx
    refine (hcnt hx').trans ((hw.mem x fun hb => ?_).trans (he.rest x ?_ hx'))
    · have := hb.2.2
      simp only [addrAt, nodeInfoSize] at *
      omega
    · simp only [addrAt, nodeInfoSize] at *
      omega

theorem Entries.start {m : Mem} (h : m.read config configSize = List.replicate configSize 0) :
    Entries config [] (start config m) := by
  refine ⟨fun k node hk => by simp at hk, fun x hx hx' => ?_⟩
  have hzero : m x = 0 := by
    have hread : m.read config configSize = Mem.read (fun _ => 0) config configSize := by
      rw [h]
      simp [Mem.read]
    refine Mem.read_eq_iff.mp hread x ?_ ?_
    · simpa [addrAt] using hx
    · simp only [curnodeIdAt, configSize] at *
      omega
  have hnot {a : ℕ} (ha : curnodeIdAt config ≤ a) : x < a ∨ a + 4 ≤ x := .inl (by omega)
  rw [← hzero]
  refine (Mem.setInt_apply _ _ (hnot le_rfl)).trans (Mem.setInt_apply _ _ (hnot ?_))
  simp only [curnodeIdAt, nodeCntAt]
  omega

/-! ## Foreign nodes -/

/-- The children that are taken for nodes. -/
def nodesOf (l : List XmlNode) : List XmlNode := l.filter (·.name = "node")

theorem parseRoot_snd (config : ℕ) (l : List XmlNode) (s : ConfigRun) :
    (l.foldl (parseRootChild config) (s, 0)).2 = (nodesOf l).length := by
  induction l using List.reverseRecOn with
  | nil => rfl
  | append_singleton l child ih =>
    rw [List.foldl_append, List.foldl_cons, List.foldl_nil, parseRootChild, nodesOf,
      List.filter_append]
    by_cases h : child.name = "node"
    · simp [h, ih, nodesOf]
    · simp [h, ih, nodesOf]

theorem nodesOf_concat_node {l : List XmlNode} {child : XmlNode} (h : child.name = "node") :
    nodesOf (l ++ [child]) = nodesOf l ++ [child] := by
  simp [nodesOf, h]

theorem nodesOf_concat_other {l : List XmlNode} {child : XmlNode} (h : child.name ≠ "node") :
    nodesOf (l ++ [child]) = nodesOf l := by
  simp [nodesOf, h]

theorem parseRoot_concat_node {l : List XmlNode} {child : XmlNode} (h : child.name = "node")
    (s : ConfigRun) : parseRoot config (l ++ [child]) s =
      stepNode config (nodesOf l).length child (parseRoot config l s) := by
  rw [parseRoot, List.foldl_append, List.foldl_cons, List.foldl_nil, parseRootChild, if_pos h,
    parseRoot_snd]
  rfl

theorem parseRoot_concat_other {l : List XmlNode} {child : XmlNode} (h : child.name ≠ "node")
    (s : ConfigRun) : parseRoot config (l ++ [child]) s = parseRoot config l s := by
  rw [parseRoot, List.foldl_append, List.foldl_cons, List.foldl_nil, parseRootChild, if_neg h]
  rfl

/-- A loop over the children of the root keeps what its steps for the nodes keep. -/
theorem parseRoot_induction {P : List XmlNode → ConfigRun → Prop} (h₀ : P [] s)
    (hstep : ∀ ns node s, P ns s → P (ns ++ [node]) (stepNode config ns.length node s))
    (l : List XmlNode) : P (nodesOf l) (parseRoot config l s) := by
  induction l using List.reverseRecOn with
  | nil => exact h₀
  | append_singleton l child ih =>
    by_cases h : child.name = "node"
    · rw [nodesOf_concat_node h, parseRoot_concat_node h]
      exact hstep _ _ _ ih
    · rw [nodesOf_concat_other h, parseRoot_concat_other h]
      exact ih

end ConfigRun

end HMP
