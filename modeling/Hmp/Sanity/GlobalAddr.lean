import Hmp.Spec.Mem

/-! A global address made of a hybrid base and an address in a pool splits into
the two again. -/

namespace HMP

theorem hmpGetHybridMempoolAddr_toNat {j : ℕ} (hj : j < 2 ^ 16) :
    (hmpGetHybridMempoolAddr j).toNat = j * 2 ^ 48 := by
  rw [hmpGetHybridMempoolAddr, BitVec.toNat_shiftLeft, BitVec.toNat_ofNat, Nat.shiftLeft_eq]
  omega

theorem globalAddr_toNat {j a : ℕ} (hj : j < 2 ^ 16) (ha : a < 2 ^ 48) :
    (hmpGetHybridMempoolAddr j + BitVec.ofNat 64 a).toNat = j * 2 ^ 48 + a := by
  rw [BitVec.toNat_add, hmpGetHybridMempoolAddr_toNat hj, BitVec.toNat_ofNat]
  omega

/-- The arithmetic shift gives the upper 16 bits while these are not the sign of a negative number. -/
theorem toInt_shiftRight_of_lt {hmAddr : BitVec 64} (h : hmAddr.toNat / 2 ^ 48 < 32768) :
    hmAddr.toInt >>> (48 : ℕ) = ((hmAddr.toNat / 2 ^ 48 : ℕ) : ℤ) := by
  rw [Int.shiftRight_eq_div_pow, BitVec.toInt_eq_toNat_of_lt (by omega)]
  omega

theorem toInt_shiftRight_neg {hmAddr : BitVec 64} (h : 32768 ≤ hmAddr.toNat / 2 ^ 48) :
    hmAddr.toInt >>> (48 : ℕ) < 0 := by
  have hlt := hmAddr.isLt
  have hneg : hmAddr.toInt < 0 := by
    rw [BitVec.toInt_eq_toNat_cond, if_neg (by omega)]
    omega
  rw [Int.shiftRight_eq_div_pow]
  exact Int.ediv_neg_of_neg_of_pos hneg (by norm_num)

/-- On an address that is not negative the C remainder is the one of the natural numbers. -/
theorem toInt_tmod {hmAddr : BitVec 64} (h : hmAddr.toNat / 2 ^ 48 < 32768) :
    hmAddr.toInt.tmod 281474976710656 = ((hmAddr.toNat % 2 ^ 48 : ℕ) : ℤ) := by
  rw [BitVec.toInt_eq_toNat_of_lt (by omega), Int.tmod_eq_emod_of_nonneg (by omega)]
  omega

/-- For at most 32768 nodes the assertion holds when the upper 16 bits are an id, and the stored
address is the rest. -/
theorem hmpGetHmNodeId_eq {cnt : ℕ} (hcnt : cnt ≤ 32768) (hmAddr : BitVec 64) :
    hmpGetHmNodeId cnt hmAddr =
      if hmAddr.toNat / 2 ^ 48 < cnt then
        some (hmAddr.toNat / 2 ^ 48, BitVec.ofNat 64 (hmAddr.toNat % 2 ^ 48))
      else none := by
  unfold hmpGetHmNodeId
  rcases lt_or_ge (hmAddr.toNat / 2 ^ 48) 32768 with h15 | h15
  · simp only [toInt_shiftRight_of_lt h15, toInt_tmod h15, Int.toNat_natCast,
      BitVec.ofInt_natCast]
    by_cases hid : hmAddr.toNat / 2 ^ 48 < cnt
    · rw [if_pos ⟨by omega, by exact_mod_cast hid⟩, if_pos hid]
    · rw [if_neg fun h => hid (by exact_mod_cast h.2), if_neg hid]
  · have hneg := toInt_shiftRight_neg h15
    rw [if_neg fun h => absurd h.1 (by omega), if_neg (by omega)]

/-- `hmp_get_hm_node_id` gives back the node and the address. -/
theorem hmpGetHmNodeId_globalAddr {cnt j a : ℕ} (hcnt : cnt ≤ 32768) (hj : j < cnt)
    (ha : a < 2 ^ 48) :
    hmpGetHmNodeId cnt (hmpGetHybridMempoolAddr j + BitVec.ofNat 64 a) =
      some (j, BitVec.ofNat 64 a) := by
  have hj16 : j < 2 ^ 16 := by omega
  have hdiv : (j * 2 ^ 48 + a) / 2 ^ 48 = j := by omega
  have hmod : (j * 2 ^ 48 + a) % 2 ^ 48 = a := by omega
  rw [hmpGetHmNodeId_eq hcnt, globalAddr_toNat hj16 ha, hdiv, hmod, if_pos hj]

end HMP
