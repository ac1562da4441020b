import Hmp.Proofs.HashKey
import Hmp.Sanity.Config
import Hmp.Spec.Startup
import Mathlib.Data.List.Find

/-! A document within the limits of `struct hmp_config` is read as it stands, and any other takes
`hmp_config_init` out of them: nothing there looks at a count, a length or the type of a node. -/

namespace HMP

namespace ConfigRun

variable {config : ℕ} {s : ConfigRun} {root : XmlNode}

/-! ## Documents within the limits -/

theorem parseRoot_of_fits (config : ℕ) (h : root.Fits) (m : Mem) :
    Parsed config root.nodes (parseRoot config root.children (start config m)) ∧
      (m.read config configSize = List.replicate configSize 0 →
        Entries config root.nodes (parseRoot config root.children (start config m))) := by
  refine parseRoot_induction
    (P := fun ns s => ns.length ≤ HMP_NODE_NUM →
      (∀ node ∈ ns, ∀ child ∈ node.children, child.TextFits) →
        Parsed config ns s ∧
          (m.read config configSize = List.replicate configSize 0 → Entries config ns s))
    (fun _ _ => ⟨Parsed.start config m, Entries.start⟩) ?_ root.children h.nodes h.texts
  intro ns node s ih hlen htexts
  rw [List.length_append, List.length_singleton] at hlen
  obtain ⟨hp, he⟩ := ih (by omega) fun n hn => htexts n (List.mem_append_left _ hn)
  have hfit : NodeFits ns.length node := fun c hc =>
    ⟨htexts node (by simp) c hc, fun _ => by omega⟩
  have hlt : ns.length < HMP_NODE_NUM := by omega
  refine ⟨hp.step hfit ?_, fun hzero => (he hzero).step hp hfit hlt⟩
  simp only [HMP_NODE_NUM] at hlt
  omega

theorem parseRoot_parsed_or_bad (config : ℕ) (root : XmlNode) (m : Mem) :
    Parsed config root.nodes (parseRoot config root.children (start config m)) ∨
      Bad (parseRoot config root.children (start config m)) := by
  refine parseRoot_induction (P := fun ns s => Parsed config ns s ∨ Bad s)
    (.inl (Parsed.start config m)) ?_ root.children
  rintro ns node s (hp | hb)
  · exact hp.step_or_bad node
  · exact .inr ((stepNode_grows config ns.length node s).bad hb)

theorem Parsed.nodeCnt_eq {ns : List XmlNode} (h : Parsed config ns s) :
    s.nodeCnt config = ns.length := by
  rw [nodeCnt, h.cnt, Int.toNat_natCast]

theorem beforeId_eq (config : ℕ) (root : XmlNode) (m : Mem) :
    beforeId config root m =
      (parseRoot config root.children (start config m)).andThen (hmrPrintNodesInfo config) := by
  rw [beforeId, andThen_of_running (s := start config m) _ rfl]

theorem beforeId_of_parsed {m : Mem}
    (h : Parsed config root.nodes (parseRoot config root.children (start config m))) :
    beforeId config root m =
      (parseRoot config root.children (start config m)).use
        ((List.range root.nodes.length).map .nodeInfo) := by
  rw [beforeId_eq, andThen_of_running _ h.phase, hmrPrintNodesInfo, h.nodeCnt_eq]

theorem hmpConfigInit_nodesInfo (ifs : List IfReq) (m : Mem) (h : root.name = "nodes_info") :
    hmpConfigInit config ifs (some (some root)) m =
      (beforeId config root m).andThen (hmpSetCurnodeId config ifs) := by
  rw [hmpConfigInit, if_neg (not_not_intro h)]

/-! ## Bounds -/

theorem range_nodeInfo_ok {n : ℕ} (h : n ≤ HMP_NODE_NUM) :
    ∀ u ∈ (List.range n).map ConfigUse.nodeInfo, u.ok = true := by
  intro u hu
  obtain ⟨i, hi, rfl⟩ := List.mem_map.mp hu
  exact decide_eq_true ((List.mem_range.mp hi).trans_le h)

theorem setCurnodeId_staysInBounds {n : ℕ} (ifs : List IfReq) (h : s.StaysInBounds)
    (hn : s.nodeCnt config = n) (hle : n ≤ HMP_NODE_NUM) :
    (hmpSetCurnodeId config ifs s).StaysInBounds := by
  unfold hmpSetCurnodeId
  split
  · exact h
  · split
    · rw [hn]
      exact h.use (range_nodeInfo_ok hle)
    · next addr _ i hi =>
      have hmem := List.mem_range.mp (List.mem_of_find?_eq_some hi)
      exact h.use (range_nodeInfo_ok (by omega))

theorem staysInBounds_of_fits (ifs : List IfReq) (m : Mem) (hname : root.name = "nodes_info")
    (h : root.Fits) : (hmpConfigInit config ifs (some (some root)) m).StaysInBounds := by
  obtain ⟨hp, -⟩ := parseRoot_of_fits config h m
  have hphase : (beforeId config root m).phase = .running := by
    rw [beforeId_of_parsed hp]
    exact hp.phase
  rw [hmpConfigInit_nodesInfo ifs m hname, andThen_of_running _ hphase, beforeId_of_parsed hp]
  exact setCurnodeId_staysInBounds ifs (hp.uses.use (range_nodeInfo_ok h.nodes)) hp.nodeCnt_eq
    h.nodes

/-- A document beyond the limits takes the run out of the bounds. -/
theorem beforeId_bad (m : Mem) (h : ¬ root.Fits) : Bad (beforeId config root m) := by
  rcases parseRoot_parsed_or_bad config root m with hp | hb
  · -- every node has been read, so there are too many: `hmr_print_nodes_info` goes through all
    have hmany : ¬ root.nodes.length ≤ HMP_NODE_NUM := fun hle => h ⟨hle, hp.texts⟩
    rw [beforeId_of_parsed hp]
    refine .inr (not_staysInBounds (u := .nodeInfo HMP_NODE_NUM) ?_ (by decide))
    refine List.mem_append_right _ (List.mem_map.mpr ⟨HMP_NODE_NUM, List.mem_range.mpr ?_, rfl⟩)
    omega
  · rw [beforeId_eq]
    exact (Grows.andThen (fun s => List.prefix_append s.uses _) _).bad hb

theorem bad_of_not_fits (ifs : List IfReq) (m : Mem) (hname : root.name = "nodes_info")
    (h : ¬ root.Fits) : Bad (hmpConfigInit config ifs (some (some root)) m) := by
  rw [hmpConfigInit_nodesInfo ifs m hname]
  exact (Grows.andThen (setCurnodeId_uses config ifs) _).bad (beforeId_bad m h)

end ConfigRun

open ConfigRun

/-! ## Elements and other nodes -/

namespace XmlNode

variable {root node : XmlNode}

theorem mem_elements {child : XmlNode} {name : String} :
    child ∈ node.elements name ↔
      child ∈ node.children ∧ child.type = .elementNode ∧ child.name = name := by
  simp [elements]

theorem elements_eq_filter (node : XmlNode) (name : String) :
    node.elements name =
      (node.children.filter (·.name = name)).filter (·.type = .elementNode) := by
  simp [elements, List.filter_filter]

theorem elements_eq_of_only {name : String}
    (h : ∀ child ∈ node.children, child.name = name → child.type = .elementNode) :
    node.elements name = node.children.filter (·.name = name) := by
  rw [elements_eq_filter, List.filter_eq_self]
  intro child hc
  obtain ⟨hc, hname⟩ := List.mem_filter.mp hc
  exact decide_eq_true (h child hc (of_decide_eq_true hname))

theorem elements_node_subset {child : XmlNode} (h : child ∈ root.elements "node") :
    child ∈ root.nodes := by
  obtain ⟨hc, -, hname⟩ := mem_elements.mp h
  exact List.mem_filter.mpr ⟨hc, decide_eq_true hname⟩

theorem length_elements_le (root : XmlNode) :
    (root.elements "node").length ≤ root.nodes.length := by
  rw [elements_eq_filter]
  exact List.length_filter_le ..

theorem Fits.elementsFit (h : root.Fits) : root.ElementsFit :=
  ⟨root.length_elements_le.trans h.nodes,
    fun node hn child hc _ => h.texts node (elements_node_subset hn) child hc⟩

namespace OnlyElements

variable (h : root.OnlyElements)
include h

theorem nodes_eq : root.elements "node" = root.nodes := elements_eq_of_only h.nodes

theorem fits (hfit : root.ElementsFit) : root.Fits := by
  refine ⟨h.nodes_eq ▸ hfit.nodes, fun node hn child hc => ?_⟩
  rw [← h.nodes_eq] at hn
  have hchild (hname : child.name = "addr" ∨ child.name = "port") : child.TextFits :=
    hfit.texts node hn child hc (h.texts node hn child hc hname)
  exact ⟨fun ha => (hchild (.inl ha)).addr ha, fun hp => (hchild (.inr hp)).port hp⟩

theorem lastText_addr (hn : node ∈ root.elements "node") :
    node.lastText "addr" = lastOf node.children "addr" := by
  rw [lastText, lastOf, elements_eq_of_only fun c hc hname => h.texts node hn c hc (.inl hname)]

theorem lastText_port (hn : node ∈ root.elements "node") :
    node.lastText "port" = lastOf node.children "port" := by
  rw [lastText, lastOf, elements_eq_of_only fun c hc hname => h.texts node hn c hc (.inr hname)]

end OnlyElements

end XmlNode

theorem readsDocument_of_only {m : Mem} (h : root.OnlyElements) (hfit : root.ElementsFit)
    (hzero : m.read config configSize = List.replicate configSize 0) :
    ReadsDocument config root m := by
  have hfits := h.fits hfit
  obtain ⟨hp, he⟩ := parseRoot_of_fits config hfits m
  have hentry : ∀ k node, (root.elements "node")[k]? = some node →
      EntryHolds (parseRoot config root.children (start config m)).mem config k node.children := by
    rw [h.nodes_eq]
    exact (he hzero).entry
  constructor
  · rw [beforeId_of_parsed hp]
    exact hp.phase
  · rw [beforeId_of_parsed hp]
    exact hp.uses.use (range_nodeInfo_ok hfits.nodes)
  · rw [beforeId_of_parsed hp]
    refine ⟨h.nodes_eq ▸ hp.cnt, fun k node hk => ?_, fun k node hk => ?_⟩
    · rw [XmlNode.addr, h.lastText_addr (List.mem_of_getElem? hk)]
      exact (hentry k node hk).addr
    · rw [XmlNode.port, h.lastText_port (List.mem_of_getElem? hk)]
      exact (hentry k node hk).port

/-- A node of another type that is taken for an element is counted, or has no text. -/
theorem onlyElements_of_reads {m : Mem} (htext : root.TextOfElements)
    (h : ReadsDocument config root m) : root.OnlyElements := by
  have hfits : root.Fits := by
    by_contra hnot
    rcases beforeId_bad m hnot with hcrash | hout
    · rw [h.phase] at hcrash
      cases hcrash
    · exact hout h.inBounds
  obtain ⟨hp, -⟩ := parseRoot_of_fits config hfits m
  have hcnt : (root.elements "node").length = root.nodes.length := by
    have hmem := h.holds.nodeCnt
    rw [beforeId_of_parsed hp] at hmem
    exact Int.ofNat_inj.mp (hmem.symm.trans hp.cnt)
  constructor
  · intro child hc hname
    rw [XmlNode.elements_eq_filter] at hcnt
    have hall := List.length_filter_eq_length_iff.mp hcnt
    exact of_decide_eq_true (hall child (List.mem_filter.mpr ⟨hc, decide_eq_true hname⟩))
  · intro node hn child hc hname
    by_contra htype
    have hnone := htext node hn child hc htype
    have hchild := hfits.texts node (XmlNode.elements_node_subset hn) child hc
    rcases hname with hname | hname
    · obtain ⟨t, ht, -⟩ := hchild.addr hname
      rw [hnone] at ht
      cases ht
    · obtain ⟨t, ht⟩ := hchild.port hname
      rw [hnone] at ht
      cases ht

/-- The entries are those of the document exactly if nothing but elements has the names that are looked
for, and a document without `nodes_info` changes nothing. -/
theorem config_equals_document_iff (config : ℕ) (ifs : List IfReq) (m : Mem)
    (root : Option XmlNode) :
    (∀ r, root = some r → r.name = "nodes_info" → r.ElementsFit → r.TextOfElements →
      m.read config configSize = List.replicate configSize 0 →
        hmpConfigInit config ifs (some root) m =
          (beforeId config r m).andThen (ConfigRun.hmpSetCurnodeId config ifs) ∧
        (ReadsDocument config r m ↔ r.OnlyElements)) ∧
    ((∀ r, root = some r → r.name ≠ "nodes_info") →
      hmpConfigInit config ifs (some root) m = { mem := m, phase := .returned (-1) }) := by
  constructor
  · rintro r rfl hname hfit htext hzero
    exact ⟨hmpConfigInit_nodesInfo ifs m hname, onlyElements_of_reads htext,
      fun h => readsDocument_of_only h hfit hzero⟩
  · intro h
    cases root with
    | none => rfl
    | some r => rw [hmpConfigInit, if_pos (h r rfl)]

def blank : XmlNode := { type := .textNode, name := "text" }

/-- A `node` element, with the blanks between its children. -/
def sampleElement (addr : String) : XmlNode :=
  { name := "node"
    children := [blank, { name := "addr", text := some (.ofBytes (bytes addr)) }, blank,
      { name := "port", text := some (.ofBytes (bytes "2345")) }, blank] }

/-- `config.xml`. -/
def sampleDocument : XmlNode :=
  { name := "nodes_info"
    children := [blank, sampleElement "192.168.31.182", blank, sampleElement "192.168.31.183",
      blank] }

theorem sampleElement_fits {addr : String}
    (h : (CString.ofBytes (bytes addr)).1.length < HMP_ADDR_LEN) :
    ∀ child ∈ (sampleElement addr).children, child.TextFits := by
  intro child hchild
  simp only [sampleElement, List.mem_cons, List.not_mem_nil, or_false] at hchild
  rcases hchild with rfl | rfl | rfl | rfl | rfl <;> constructor <;> intro hname <;>
    first
      | exact ⟨_, rfl, h⟩
      | exact ⟨_, rfl⟩
      | exact absurd hname (by decide)

theorem sampleDocument_fits : sampleDocument.Fits := by
  refine ⟨by decide, ?_⟩
  have hnodes : sampleDocument.nodes =
      [sampleElement "192.168.31.182", sampleElement "192.168.31.183"] := rfl
  rw [hnodes]
  intro node hnode
  simp only [List.mem_cons, List.not_mem_nil, or_false] at hnode
  rcases hnode with rfl | rfl <;> exact sampleElement_fits (by decide)

theorem config_equals_document_sample : ReadsDocument 0 sampleDocument fun _ => 0 :=
  ((config_equals_document_iff 0 [] (fun _ => 0) (some sampleDocument)).1 sampleDocument rfl rfl
    sampleDocument_fits.elementsFit (by unfold XmlNode.TextOfElements; decide)
    (by simp [Mem.read])).2.mpr ⟨by decide, by decide⟩

/-- A processing instruction `<?node x?>` behind the first node. -/
def sampleInstruction : XmlNode :=
  { name := "nodes_info"
    children := [sampleElement "192.168.31.182", { type := .piNode, name := "node" }] }

theorem sampleInstruction_fits : sampleInstruction.Fits := by
  refine ⟨by decide, ?_⟩
  have hnodes : sampleInstruction.nodes = sampleInstruction.children := rfl
  rw [hnodes]
  intro node hnode
  simp only [sampleInstruction, List.mem_cons, List.not_mem_nil, or_false] at hnode
  rcases hnode with rfl | rfl
  · exact sampleElement_fits (by decide)
  · exact fun _ hc => by cases hc

/-- There is one `node` element, and `node_cnt` is 2. -/
theorem instruction_counted_as_node :
    sampleInstruction.ElementsFit ∧ sampleInstruction.TextOfElements ∧
      ¬ HoldsDocument (beforeId 0 sampleInstruction fun _ => 0).mem 0 sampleInstruction := by
  refine ⟨sampleInstruction_fits.elementsFit, by unfold XmlNode.TextOfElements; decide,
    fun h => ?_⟩
  have hcnt := h.nodeCnt
  obtain ⟨hp, -⟩ := parseRoot_of_fits 0 sampleInstruction_fits fun _ => 0
  rw [beforeId_of_parsed hp] at hcnt
  exact absurd (hp.cnt.symm.trans hcnt) (by decide)

/-- The bounds are kept, or the document is refused, exactly if it is within the limits. -/
theorem config_in_bounds_iff (config : ℕ) (ifs : List IfReq) (m : Mem) {root : XmlNode}
    (hname : root.name = "nodes_info") :
    ((hmpConfigInit config ifs (some (some root)) m).StaysInBounds ∧
      (¬ root.Fits → (hmpConfigInit config ifs (some (some root)) m).Reported)) ↔ root.Fits := by
  constructor
  · rintro ⟨hin, hreported⟩
    by_contra h
    rcases bad_of_not_fits ifs m hname h with hcrash | hout
    · rcases hreported h with hp | hp <;> rw [hcrash] at hp <;> cases hp
    · exact hout hin
  · intro h
    exact ⟨staysInBounds_of_fits ifs m hname h, fun hn => absurd h hn⟩

theorem config_in_bounds_sample :
    (hmpConfigInit 0 [] (some (some sampleDocument)) fun _ => 0).StaysInBounds :=
  ((@config_in_bounds_iff 0 [] (fun _ => 0) sampleDocument rfl).mpr sampleDocument_fits).1

/-- The name of a host takes 30 bytes, and an address has 18. -/
theorem config_copies_too_much :
    ¬ ((hmpConfigInit 0 []
          (some (some { name := "nodes_info"
                        children := [sampleElement "compute-node-17.cluster.local"] }))
          fun _ => 0).StaysInBounds ∧
        (¬ XmlNode.Fits { name := "nodes_info"
                          children := [sampleElement "compute-node-17.cluster.local"] } →
          (hmpConfigInit 0 []
            (some (some { name := "nodes_info"
                          children := [sampleElement "compute-node-17.cluster.local"] }))
            fun _ => 0).Reported)) := by
  rintro ⟨hin, -⟩
  have hall := List.all_eq_true.mpr hin
  revert hall
  decide

/-! ## The configuration that the other modules read -/

namespace XmlNode

theorem zero_notMem_addr (node : XmlNode) : 0 ∉ node.addr := by
  unfold addr
  cases node.lastText "addr" with
  | none => simp
  | some t => exact t.2

end XmlNode

variable {config : ℕ} {c : HmpConfig} {m : Mem} {root : XmlNode}

theorem HoldsDocument.isAt (h : HoldsDocument m config root) (hc : root.Describes c) :
    c.IsAt m config := by
  have hget {k : ℕ} (hk : k < c.nodeCnt) : ∃ node, (root.elements "node")[k]? = some node :=
    ⟨_, List.getElem?_eq_getElem (hc.nodeCnt ▸ hk)⟩
  refine ⟨by rw [h.nodeCnt, hc.nodeCnt], fun k hk => ?_, fun k hk => ?_⟩
  · obtain ⟨node, hnode⟩ := hget hk
    exact ⟨⟨node.addr, node.zero_notMem_addr⟩, hc.addr k node hnode, h.addr k node hnode⟩
  · obtain ⟨node, hnode⟩ := hget hk
    rw [h.port k node hnode, hc.port k node hnode]

/-- `strcmp` finds the entry that `hmpSetCurnodeId` finds by its address. -/
theorem HmpConfig.IsAt.findNode {s : ConfigRun} (h : c.IsAt s.mem config) {addr : CString}
    {a : String} (ha : addr.1 = bytes a) : s.findNode config addr = hmpSetCurnodeId c a := by
  have hcnt : s.nodeCnt config = c.nodeCnt := by rw [ConfigRun.nodeCnt, h.nodeCnt, Int.toNat_natCast]
  rw [ConfigRun.findNode, hmpSetCurnodeId, hcnt]
  refine List.find?_congr fun i hi => ?_
  obtain ⟨t, ht, hstr⟩ := h.addr i (List.mem_range.mp hi)
  rw [Bool.eq_iff_iff, decide_eq_true_eq, decide_eq_true_eq]
  constructor
  · intro haddr
    have := haddr.unique hstr
    rw [← bytes_injective.eq_iff, ← ht, ← ha, this]
  · intro heq
    rw [ha, ← heq, ← ht]
    exact hstr

/-- The result of `hmp_config_init` is that of the search in the configuration of the document. -/
theorem configInit_result (ifs : List IfReq) (hname : root.name = "nodes_info")
    (honly : root.OnlyElements) (hfit : root.ElementsFit)
    (hzero : m.read config configSize = List.replicate configSize 0) (hc : root.Describes c)
    {addr : CString} {a : String} (hib : ibAddr ifs = some addr) (ha : addr.1 = bytes a) :
    match hmpSetCurnodeId c a with
    | some i => (hmpConfigInit config ifs (some (some root)) m).phase = .returned 0 ∧
        (hmpConfigInit config ifs (some (some root)) m).mem.int (curnodeIdAt config) = i
    | none => (hmpConfigInit config ifs (some (some root)) m).phase = .exited := by
  have hreads := readsDocument_of_only honly hfit hzero
  have hat := hreads.holds.isAt hc
  rw [hmpConfigInit_nodesInfo ifs m hname, andThen_of_running _ hreads.phase, ConfigRun.hmpSetCurnodeId,
    hib]
  dsimp only
  rw [hat.findNode ha]
  cases hfind : hmpSetCurnodeId c a with
  | none => rfl
  | some i =>
    have hlt : i < c.nodeCnt := List.mem_range.mp (List.mem_of_find?_eq_some hfind)
    have hle : c.nodeCnt ≤ 8 := by
      rw [hc.nodeCnt]
      exact hfit.nodes
    exact ⟨rfl, Mem.int_setInt_of_lt _ _ (by omega) (by omega)⟩

end HMP
