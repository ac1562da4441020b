import Hmp.Proofs.Connect
import Hmp.Spec.HashRing

/-! `hmp_hash_init` puts address and port together without a separator: two nodes have one key exactly
if the digits of a port continue one address to the other. -/

namespace HMP

theorem bytes_injective : Function.Injective bytes := by
  intro s t h
  have hdata : s.toUTF8.data = t.toUTF8.data := Array.toList_inj.mp h
  exact String.toByteArray_inj.mp (ByteArray.ext hdata)

theorem portStr_toList {port : ℤ} (h : 1 ≤ port ∧ port ≤ 65535) :
    (portStr port).toList = Nat.toDigits 10 port.toNat := by
  obtain ⟨n, rfl⟩ := Int.eq_ofNat_of_zero_le (by omega : 0 ≤ port)
  have hlen : (Nat.toDigits 10 n).length ≤ 9 := by
    rw [Nat.length_toDigits_le_iff (by decide) (by decide)]
    omega
  have htext : (toString (n : ℤ)).toList = Nat.toDigits 10 n := Nat.toList_repr
  rw [portStr, String.toList_ofList, htext, List.take_of_length_le hlen, Int.toNat_natCast]

theorem hashKey_eq_iff {addr addr' : String} {port port' : ℤ} (h : 1 ≤ port ∧ port ≤ 65535)
    (h' : 1 ≤ port' ∧ port' ≤ 65535) :
    hashKey addr port = hashKey addr' port' ↔
      addr.toList ++ Nat.toDigits 10 port.toNat = addr'.toList ++ Nat.toDigits 10 port'.toNat := by
  rw [hashKey, hashKey, List.append_cancel_right_eq, bytes_injective.eq_iff, ← String.toList_inj,
    String.toList_append, String.toList_append, portStr_toList h, portStr_toList h']

/-- The first digits of `port` continue `addr` to `addr'`, and the number that is left of it is
`port'`. -/
def Continues (addr addr' : String) (port port' : ℤ) : Prop :=
  ∃ w : List Char, w ≠ [] ∧ (∀ c ∈ w, c.isDigit) ∧ w.head? ≠ some '0' ∧
    addr'.toList = addr.toList ++ w ∧
      port = Nat.ofDigitChars 10 w 0 * 10 ^ (Nat.log 10 port'.toNat + 1) + port'

theorem continues_iff {addr addr' : String} {port port' : ℤ} (h : 1 ≤ port ∧ port ≤ 65535)
    (h' : 1 ≤ port' ∧ port' ≤ 65535) :
    Continues addr addr' port port' ↔
      ∃ w, w ≠ [] ∧ addr'.toList = addr.toList ++ w ∧
        Nat.toDigits 10 port.toNat = w ++ Nat.toDigits 10 port'.toNat := by
  obtain ⟨n, rfl⟩ := Int.eq_ofNat_of_zero_le (by omega : 0 ≤ port)
  obtain ⟨m, rfl⟩ := Int.eq_ofNat_of_zero_le (by omega : 0 ≤ port')
  have hm : m ≠ 0 := by omega
  refine exists_congr fun w => ⟨?_, ?_⟩
  · rintro ⟨hw, hd, h0, haddr, hport⟩
    refine ⟨hw, haddr, (toDigits_eq_append_iff hw hm).mpr ⟨hd, h0, ?_⟩⟩
    exact_mod_cast hport
  · rintro ⟨hw, haddr, hdigits⟩
    obtain ⟨hd, h0, hport⟩ := (toDigits_eq_append_iff hw hm).mp hdigits
    refine ⟨hw, hd, h0, haddr, ?_⟩
    exact_mod_cast hport

/-- Two nodes that differ have different keys exactly if no port continues one address to the
other. -/
theorem hash_keys_differ_iff {addr addr' : String} {port port' : ℤ} (h : 1 ≤ port ∧ port ≤ 65535)
    (h' : 1 ≤ port' ∧ port' ≤ 65535) (hne : (addr, port) ≠ (addr', port')) :
    hashKey addr port ≠ hashKey addr' port' ↔
      ¬ Continues addr addr' port port' ∧ ¬ Continues addr' addr port' port := by
  rw [← not_or, not_iff_not, hashKey_eq_iff h h', List.append_eq_append_iff, continues_iff h h',
    continues_iff h' h]
  have hsame : addr.toList = addr'.toList → Nat.toDigits 10 port.toNat ≠ Nat.toDigits 10 port'.toNat := by
    intro haddr hdigits
    have hport : port.toNat = port'.toNat := by
      have := congrArg (fun ds => Nat.ofDigitChars 10 ds 0) hdigits
      simpa using this
    exact hne (Prod.ext (String.toList_inj.mp haddr) (by omega))
  constructor
  · rintro (⟨w, haddr, hdigits⟩ | ⟨w, haddr, hdigits⟩)
    · refine .inl ⟨w, ?_, haddr, hdigits⟩
      rintro rfl
      exact hsame (by simpa using haddr.symm) (by simpa using hdigits)
    · refine .inr ⟨w, ?_, haddr, hdigits⟩
      rintro rfl
      exact hsame (by simpa using haddr) (by simpa using hdigits.symm)
  · rintro (⟨w, -, haddr, hdigits⟩ | ⟨w, -, haddr, hdigits⟩)
    · exact .inl ⟨w, haddr, hdigits⟩
    · exact .inr ⟨w, haddr, hdigits⟩

/-- A port continues an address to longer ones only. -/
theorem not_continues_of_length_le {addr addr' : String} (port port' : ℤ)
    (h : addr'.toList.length ≤ addr.toList.length) : ¬ Continues addr addr' port port' := by
  rintro ⟨w, hw, -, -, haddr, -⟩
  have hpos := List.length_pos_iff.mpr hw
  rw [haddr, List.length_append] at h
  omega

/-- The nodes of `config.xml`. -/
theorem hash_keys_differ_sample :
    hashKey "192.168.31.182" 2345 ≠ hashKey "192.168.31.183" 2345 :=
  (hash_keys_differ_iff (by decide) (by decide) (by decide)).mpr
    ⟨not_continues_of_length_le _ _ (by decide),
      not_continues_of_length_le _ _ (by decide)⟩

/-- The digit 2 is either the end of the address or the beginning of the port. -/
theorem hash_keys_clash :
    ∃ e e' : String × ℤ, ValidEndpoint e.1 e.2 ∧ ValidEndpoint e'.1 e'.2 ∧
      (bytes e.1).length < 18 ∧ (bytes e'.1).length < 18 ∧ e ≠ e' ∧
        hashKey e.1 e.2 = hashKey e'.1 e'.2 := by
  refine ⟨("192.168.31.1", 2345), ("192.168.31.12", 345), ?_⟩
  simp only [ValidEndpoint]
  decide

end HMP
