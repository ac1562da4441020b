import Hmp.Lib.CMem
import Hmp.Spec.HashRing

/-! `hmp_config.c` on the memory of a `struct hmp_config`. Every access that has a bound to keep is
recorded. -/

namespace HMP

def HMP_ADDR_LEN : ℕ := 18

inductive XmlElementType where
  | elementNode | attributeNode | textNode | cdataSectionNode | entityRefNode | entityNode | piNode
  | commentNode | documentNode | documentTypeNode | documentFragNode | notationNode
  | htmlDocumentNode | dtdNode | elementDecl | attributeDecl | entityDecl | namespaceDecl
  | xincludeStart | xincludeEnd
  deriving DecidableEq

/-- A node of the tree that libxml makes. `name`: of an element, but also the target of a processing
instruction and the name of an entity that is referred to. `text`: what `xmlNodeListGetString`
returns for its children, `none` being `NULL`. -/
structure XmlNode where
  type : XmlElementType := .elementNode
  name : String
  text : Option CString := none
  children : List XmlNode := []

/-! ## `atoi` -/

def isSpace (c : UInt8) : Bool := c = 32 || (9 ≤ c && c ≤ 13)

def isDigit (c : UInt8) : Bool := 48 ≤ c && c ≤ 57

def digits (t : List UInt8) : ℕ := (t.takeWhile isDigit).foldl (fun n c => 10 * n + (c.toNat - 48)) 0

/-- In the range of `long`. -/
def strtol (t : List UInt8) : ℤ :=
  match t.dropWhile isSpace with
  | 45 :: t => max (-2 ^ 63) (-digits t)
  | 43 :: t => min (2 ^ 63 - 1) (digits t)
  | t => min (2 ^ 63 - 1) (digits t)

def atoi (t : List UInt8) : ℤ := (BitVec.ofInt 32 (strtol t)).toInt

/-! ## `struct hmp_config` at `config` -/

/-- `sizeof(struct hmp_node_info)`. -/
def nodeInfoSize : ℕ := 72

def addrAt (config i : ℕ) : ℕ := config + i * nodeInfoSize

def portAt (config i : ℕ) : ℕ := config + i * nodeInfoSize + 20

def curnodeIdAt (config : ℕ) : ℕ := config + HMP_NODE_NUM * nodeInfoSize

def nodeCntAt (config : ℕ) : ℕ := config + HMP_NODE_NUM * nodeInfoSize + 4

/-- `sizeof(struct hmp_config)`. -/
def configSize : ℕ := HMP_NODE_NUM * nodeInfoSize + 8

/-- `nodeInfo i`: `node_infos[i]`. `copyAddr n`: `memcpy` of `n` bytes into an `addr`. `text val`:
the length or the value of `val` is taken. -/
inductive ConfigUse where
  | nodeInfo (i : ℕ)
  | copyAddr (n : ℕ)
  | text (val : Option CString)

def ConfigUse.ok : ConfigUse → Bool
  | .nodeInfo i => i < HMP_NODE_NUM
  | .copyAddr n => n ≤ HMP_ADDR_LEN
  | .text val => val.isSome

/-- `exited`: `exit(-1)`. `crashed`: `NULL` has been read, or an `int` has overflowed. -/
inductive ConfigPhase where
  | running
  | returned (ret : ℤ)
  | exited
  | crashed
  deriving DecidableEq

structure ConfigRun where
  mem : Mem
  phase : ConfigPhase := .running
  uses : List ConfigUse := []

/-- An interface that `SIOCGIFCONF` lists, with the flags of `SIOCGIFFLAGS`. -/
structure IfReq where
  name : String
  loopback : Bool := false
  up : Bool := true
  addr : CString

namespace ConfigRun

def use (s : ConfigRun) (us : List ConfigUse) : ConfigRun := { s with uses := s.uses ++ us }

/-- The next statement, unless the run has ended. -/
def andThen (s : ConfigRun) (f : ConfigRun → ConfigRun) : ConfigRun :=
  if s.phase = .running then f s else s

/-- `memcpy` of the text of an `addr` element, with its NUL. -/
def copyAddr (config index : ℕ) (val : Option CString) (s : ConfigRun) : ConfigRun :=
  match val with
  | none => { s.use [.text none] with phase := .crashed }
  | some t =>
    { s.use [.text (some t), .nodeInfo index, .copyAddr (t.1.length + 1)] with
      mem := s.mem.write (addrAt config index) (t.1 ++ [0]) }

/-- `atoi` of the text of a `port` element. -/
def setPort (config index : ℕ) (val : Option CString) (s : ConfigRun) : ConfigRun :=
  match val with
  | none => { s.use [.text none] with phase := .crashed }
  | some t =>
    { s.use [.text (some t), .nodeInfo index] with
      mem := s.mem.setInt (portAt config index) (atoi t.1) }

/-- The body of the loop of `hmp_parse_node`. -/
def parseChild (config index : ℕ) (child : XmlNode) (s : ConfigRun) : ConfigRun :=
  let s := if child.name = "addr" then copyAddr config index child.text s else s
  if child.name = "port" then setPort config index child.text s else s

def hmpParseNode (config index : ℕ) (curnode : XmlNode) (s : ConfigRun) : ConfigRun :=
  curnode.children.foldl (fun s child => s.andThen (parseChild config index child)) s

/-- `config->node_cnt++` and `index++`, the second as far as it can overflow. -/
def countNode (config index : ℕ) (s : ConfigRun) : ConfigRun :=
  let nodeCnt := s.mem.int (nodeCntAt config)
  if nodeCnt = 2 ^ 31 - 1 ∨ index = 2 ^ 31 - 1 then { s with phase := .crashed }
  else { s with mem := s.mem.setInt (nodeCntAt config) (nodeCnt + 1) }

/-- The body of the loop of `hmp_config_init`, with `index`. -/
def parseRootChild (config : ℕ) (x : ConfigRun × ℕ) (child : XmlNode) : ConfigRun × ℕ :=
  if child.name = "node" then
    ((x.1.andThen (hmpParseNode config x.2 child)).andThen (countNode config x.2), x.2 + 1)
  else x

def parseRoot (config : ℕ) (children : List XmlNode) (s : ConfigRun) : ConfigRun :=
  (children.foldl (parseRootChild config) (s, 0)).1

/-- `i < node_cnt` in a loop from 0. -/
def nodeCnt (config : ℕ) (s : ConfigRun) : ℕ := (s.mem.int (nodeCntAt config)).toNat

def hmrPrintNodesInfo (config : ℕ) (s : ConfigRun) : ConfigRun :=
  s.use ((List.range (s.nodeCnt config)).map .nodeInfo)

/-- The address of the interface that the first loop of `hmp_set_curnode_id` stops at. -/
def ibAddr (ifs : List IfReq) : Option CString :=
  (ifs.find? fun ifr => !ifr.loopback && ifr.up && ifr.name = "ib0").map (·.addr)

/-- The entry with that address. -/
def findNode (config : ℕ) (s : ConfigRun) (addr : CString) : Option ℕ :=
  (List.range (s.nodeCnt config)).find? fun i => s.mem.HasCString (addrAt config i) addr.1

def hmpSetCurnodeId (config : ℕ) (ifs : List IfReq) (s : ConfigRun) : ConfigRun :=
  match ibAddr ifs with
  | none => { s with phase := .exited }
  | some addr =>
    match s.findNode config addr with
    | none => { s.use ((List.range (s.nodeCnt config)).map .nodeInfo) with phase := .exited }
    | some i =>
      { s.use ((List.range (i + 1)).map .nodeInfo) with
        mem := s.mem.setInt (curnodeIdAt config) i
        phase := .returned 0 }

/-- `node_cnt` and `curnode_id` before the loop. -/
def start (config : ℕ) (m : Mem) : ConfigRun :=
  { mem := (m.setInt (nodeCntAt config) 0).setInt (curnodeIdAt config) (-1) }

/-- `hmp_config_init` before it calls `hmp_set_curnode_id`, for a root `nodes_info`. -/
def beforeId (config : ℕ) (root : XmlNode) (m : Mem) : ConfigRun :=
  ((start config m).andThen (parseRoot config root.children)).andThen (hmrPrintNodesInfo config)

/-- `doc`: what `xmlParseFile` returns, with the root element. -/
def hmpConfigInit (config : ℕ) (ifs : List IfReq) (doc : Option (Option XmlNode)) (m : Mem) :
    ConfigRun :=
  match doc with
  | none => { mem := m, phase := .returned (-1) }
  | some none => { mem := m, phase := .returned (-1) }
  | some (some root) =>
    if root.name ≠ "nodes_info" then { mem := m, phase := .returned (-1) }
    else (beforeId config root m).andThen (hmpSetCurnodeId config ifs)

/-- Every index, copy and text is as it must be. -/
def StaysInBounds (s : ConfigRun) : Prop := ∀ u ∈ s.uses, u.ok = true

/-- The caller or the user is told. -/
def Reported (s : ConfigRun) : Prop := s.phase = .returned (-1) ∨ s.phase = .exited

end ConfigRun

/-! ## The document -/

namespace XmlNode

/-- The children that the code takes for nodes: it compares names and does not look at the type. -/
def nodes (root : XmlNode) : List XmlNode := root.children.filter (·.name = "node")

/-- The elements with this name among the children. -/
def elements (node : XmlNode) (name : String) : List XmlNode :=
  node.children.filter fun child => child.type = .elementNode ∧ child.name = name

/-- A text for an address has room for its NUL. -/
structure TextFits (child : XmlNode) : Prop where
  addr : child.name = "addr" → ∃ t, child.text = some t ∧ t.1.length < HMP_ADDR_LEN
  port : child.name = "port" → ∃ t, child.text = some t

/-- The children named `node`, and in them those named `addr` and `port`, are within the limits of the
structure, whatever type of node they are. -/
structure Fits (root : XmlNode) : Prop where
  nodes : root.nodes.length ≤ HMP_NODE_NUM
  texts : ∀ node ∈ root.nodes, ∀ child ∈ node.children, child.TextFits

/-- The elements are within the limits of the structure. -/
structure ElementsFit (root : XmlNode) : Prop where
  nodes : (root.elements "node").length ≤ HMP_NODE_NUM
  texts : ∀ node ∈ root.elements "node", ∀ child ∈ node.children, child.type = .elementNode →
    child.TextFits

/-- No node of another type has the name of an element that is looked for. -/
structure OnlyElements (root : XmlNode) : Prop where
  nodes : ∀ child ∈ root.children, child.name = "node" → child.type = .elementNode
  texts : ∀ node ∈ root.elements "node", ∀ child ∈ node.children,
    child.name = "addr" ∨ child.name = "port" → child.type = .elementNode

/-- What libxml makes of the children of an element: a text, a comment or a processing instruction has
no children, and those of an entity reference are no text, so `xmlNodeListGetString` returns `NULL`. -/
def TextOfElements (root : XmlNode) : Prop :=
  ∀ node ∈ root.elements "node", ∀ child ∈ node.children, child.type ≠ .elementNode →
    child.text = none

/-- The text of the last element with this name. -/
def lastText (node : XmlNode) (name : String) : Option CString :=
  ((node.elements name).getLast?).bind (·.text)

/-- The address and the port that a node element gives. -/
def addr (node : XmlNode) : List UInt8 := ((node.lastText "addr").map (·.1)).getD []

def port (node : XmlNode) : ℤ := ((node.lastText "port").map fun t => atoi t.1).getD 0

end XmlNode

/-- The structure at `config` has the entries of the document. -/
structure HoldsDocument (m : Mem) (config : ℕ) (root : XmlNode) : Prop where
  nodeCnt : m.int (nodeCntAt config) = (root.elements "node").length
  addr : ∀ k node, (root.elements "node")[k]? = some node → m.HasCString (addrAt config k) node.addr
  port : ∀ k node, (root.elements "node")[k]? = some node → m.int (portAt config k) = node.port

/-- `hmp_config_init` gets to `hmp_set_curnode_id` with the entries of the document, and has kept to
the structure on the way. -/
structure ReadsDocument (config : ℕ) (root : XmlNode) (m : Mem) : Prop where
  phase : (ConfigRun.beforeId config root m).phase = .running
  inBounds : (ConfigRun.beforeId config root m).StaysInBounds
  holds : HoldsDocument (ConfigRun.beforeId config root m).mem config root

/-- `c` is the configuration that the document stands for. -/
structure XmlNode.Describes (root : XmlNode) (c : HmpConfig) : Prop where
  nodeCnt : c.nodeCnt = (root.elements "node").length
  addr : ∀ k node, (root.elements "node")[k]? = some node → node.addr = bytes (c.nodeInfos k).addr
  port : ∀ k node, (root.elements "node")[k]? = some node → node.port = (c.nodeInfos k).port

/-- `c` is what the code finds in the structure at `config`. -/
structure HmpConfig.IsAt (c : HmpConfig) (m : Mem) (config : ℕ) : Prop where
  nodeCnt : m.int (nodeCntAt config) = c.nodeCnt
  addr : ∀ k < c.nodeCnt, ∃ t : CString, t.1 = bytes (c.nodeInfos k).addr ∧
    m.HasCString (addrAt config k) t.1
  port : ∀ k < c.nodeCnt, m.int (portAt config k) = (c.nodeInfos k).port

end HMP
