import Hmp.Lib.Decimal
import Hmp.Spec.Devices

/-! What `hmp_transport_connect` hands to `rdma_resolve_addr`, and `inet_pton` for `AF_INET`. -/

namespace HMP

/-- A decimal number from 0 to 255 without leading zeros. -/
def octet (cs : List Char) : Bool :=
  cs ≠ [] ∧ cs.all (·.isDigit) ∧ (cs.head? = some '0' → cs = ['0']) ∧ Nat.ofDigitChars 10 cs 0 < 256

/-- 1 for a valid address, 0 for any other string. -/
def inetPton (src : String) : ℤ :=
  let parts := src.toList.splitOn '.'
  if parts.length = 4 ∧ ∀ p ∈ parts, octet p then 1 else 0

/-- The text of an address, which `inet_ntoa` gives. -/
def DottedQuad (s : String) : Prop :=
  ∃ quad : List ℕ, quad.length = 4 ∧ (∀ o ∈ quad, o < 256) ∧
    s.toList = ['.'].intercalate (quad.map (Nat.toDigits 10))

/-- The destination that `hmp_transport_connect` hands to `rdma_resolve_addr`, if it gets there. -/
def connectTarget (nd : Node) (t : ℕ) (url : String) (port : ℤ) (o : ConnectCalls) :
    Option SockAddr :=
  match connectEntry nd t url port o.pton with
  | (_, some _) => none
  | (nd, none) =>
    match connectCreateId nd t o.cm o.createId with
    | (_, some _) => none
    | (nd, none) => some (nd.trans t).peerAddr

/-- An address and a port that a connection can be made to. -/
def ValidEndpoint (url : String) (port : ℤ) : Prop := DottedQuad url ∧ 1 ≤ port ∧ port ≤ 65535

/-- `r`: what `hmp_transport_connect` has left and returned. -/
structure ConnectsOrFails (p : Proc) (t : ℕ) (url : String) (port : ℤ) (o : ConnectCalls)
    (r : Proc × ℤ) : Prop where
  connects : r.2 = 0 → ValidEndpoint url port ∧
    connectTarget p.node t url port o = some { addr := url, port := port.toNat }
  fails : ¬ ValidEndpoint url port ∨ o.createId ≠ 0 ∨ o.resolve ≠ 0 →
    r.2 ≠ 0 ∧ (r.1.node.trans t).transState = (p.node.trans t).transState ∧
      (r.1.node.trans t).cmId = none

end HMP
