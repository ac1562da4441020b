import Hmp.Lib.ListHead
import Hmp.Spec.Base

/-! `hmp_hash_init` of `hmp_node.c` with `murmur_hash`: the list of all nodes in the order of their
hashes, built by insertion into a linked list. -/

namespace HMP

/-- The bytes of a C string, without the NUL. -/
def bytes (s : String) : List UInt8 := s.toUTF8.data.toList

/-! ## `murmur_hash` -/

def rotl32 (x : UInt32) (r : ℕ) : UInt32 := (x <<< UInt32.ofNat r) ||| (x >>> UInt32.ofNat (32 - r))

/-- Four bytes are read as a little-endian word. -/
def getblock32 (data : List UInt8) (i : ℕ) : UInt32 :=
  UInt32.ofNat (leVal ((data.drop (4 * i)).take 4))

def fmix32 (h : UInt32) : UInt32 :=
  let h := h ^^^ (h >>> 16)
  let h := h * 0x85ebca6b
  let h := h ^^^ (h >>> 13)
  let h := h * 0xc2b2ae35
  h ^^^ (h >>> 16)

def mixK1 (k1 : UInt32) : UInt32 := rotl32 (k1 * 0xcc9e2d51) 15 * 0x1b873593

/-- One round of the loop over the blocks. -/
def murmurBlock (h1 k1 : UInt32) : UInt32 := rotl32 (h1 ^^^ mixK1 k1) 13 * 5 + 0xe6546b64

/-- The `switch`, whose cases fall through. -/
def murmurTail (h1 : UInt32) : List UInt8 → UInt32
  | [a] => h1 ^^^ mixK1 a.toUInt32
  | [a, b] => h1 ^^^ mixK1 ((b.toUInt32 <<< 8) ^^^ a.toUInt32)
  | [a, b, c] => h1 ^^^ mixK1 ((c.toUInt32 <<< 16) ^^^ (b.toUInt32 <<< 8) ^^^ a.toUInt32)
  | _ => h1

/-- The product `nblocks*4` is an `int`. -/
def IntKey (key : List UInt8) : Prop := key.length < 2 ^ 31

/-- For an `IntKey`; from `2 ^ 31` bytes on the product overflows. -/
def murmurHash (key : List UInt8) : UInt32 :=
  let nblocks := key.length / 4
  let h1 := (List.range nblocks).foldl (fun h1 i => murmurBlock h1 (getblock32 key i)) 0
  let h1 := murmurTail h1 (key.drop (nblocks * 4))
  fmix32 (h1 ^^^ UInt32.ofNat key.length)

/-! ## `hmp_hash_init` -/

/-- `"%d"` into the ten bytes of `port_str`, of which the last is for the NUL. -/
def portStr (port : ℤ) : String := String.ofList ((toString port).toList.take 9)

/-- What is passed to `murmur_hash`: address, port and NUL. -/
def hashKey (addr : String) (port : ℤ) : List UInt8 := bytes (addr ++ portStr port) ++ [0]

structure HashNode where
  key : UInt32
  nodeId : ℕ
  deriving DecidableEq

/-- A hash node is its number in the order of allocation, from 1 on, and 0 stands for
`&curnode.hash_node_list`. -/
structure HashList where
  heads : ListHeads ℕ
  node : ℕ → HashNode
  next : ℕ := 1

/-- The hash node that the loop makes for node `i`. -/
def hashNode (config : HmpConfig) (i : ℕ) : HashNode :=
  { key := murmurHash (hashKey (config.nodeInfos i).addr (config.nodeInfos i).port), nodeId := i }

namespace HashList

/-- The body of the loop behind `malloc`. `none`: the walk through the list does not end. -/
def insert (config : HmpConfig) (s : HashList) (i : ℕ) : Option HashList :=
  let new := s.next
  let s : HashList :=
    { heads := s.heads.initListHead new
      node := Function.update s.node new (hashNode config i)
      next := new + 1 }
  if s.heads.listEmpty 0 then some { s with heads := s.heads.listAdd new 0 }
  else
    (s.heads.find 0 (fun tmp => (s.node new).key < (s.node tmp).key) s.next (s.heads.next 0)).map fun
      | some tmp => { s with heads := s.heads.listAddTail new tmp }
      | none => { s with heads := s.heads.listAddTail new 0 }

/-- `hash_node_list` as `list_for_each_entry` goes through it. -/
def ring (s : HashList) : Option (List HashNode) :=
  (s.heads.entries 0 s.next (s.heads.next 0)).map (·.map s.node)

end HashList

/-- `L`: what the memory of the links holds before. -/
def hmpHashInit (config : HmpConfig) (L : ListHeads ℕ) : Option HashList :=
  (List.range config.nodeCnt).foldlM (HashList.insert config)
    { heads := L.initListHead 0, node := fun _ => { key := 0, nodeId := 0 } }

/-- The list that `hmp_hash_init` leaves. -/
def hashRing (config : HmpConfig) (L : ListHeads ℕ) : Option (List HashNode) :=
  (hmpHashInit config L).bind HashList.ring

namespace HmpConfig

/-- What the configuration says of node `i`. -/
def endpoint (config : HmpConfig) (i : ℕ) : String × ℤ :=
  ((config.nodeInfos i).addr, (config.nodeInfos i).port)

/-- The nodes in the order of the configuration. -/
def endpoints (config : HmpConfig) : List (String × ℤ) :=
  (List.range config.nodeCnt).map config.endpoint

end HmpConfig

/-- The position of a node in the ring. -/
def endpointKey (e : String × ℤ) : UInt32 := murmurHash (hashKey e.1 e.2)

end HMP
