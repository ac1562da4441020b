import Hmp.Spec.GlobalAddr
import Hmp.Sanity.GlobalAddr

/-! Global addresses split and rebuild exactly for up to 32768 nodes. -/

namespace HMP.Machine

/-! ## The machine functions compute what those of the model compute -/

theorem hmpGetHybridMempoolAddr_eq {n : ℕ} (hn : n < 2 ^ 31) :
    hmpGetHybridMempoolAddr (BitVec.ofNat 32 n) = HMP.hmpGetHybridMempoolAddr n := by
  have hext : (BitVec.ofNat 32 n).signExtend 64 = BitVec.ofNat 64 n := by
    apply BitVec.eq_of_toInt_eq
    rw [BitVec.toInt_signExtend_of_le (by decide), BitVec.toInt_ofNat', BitVec.toInt_ofNat',
      Int.bmod_eq_of_le (by omega) (by omega), Int.bmod_eq_of_le (by omega) (by omega)]
  rw [hmpGetHybridMempoolAddr, HMP.hmpGetHybridMempoolAddr, hext]

/-- The upper 16 bits fit an `int`. -/
theorem toInt_narrow (hmAddr : BitVec 64) :
    ((hmAddr.sshiftRight 48).setWidth 32).toInt = hmAddr.toInt >>> (48 : ℕ) := by
  have hle := BitVec.le_toInt hmAddr
  have hlt := @BitVec.toInt_lt 64 hmAddr
  rw [← BitVec.signExtend_eq_setWidth_of_le _ (by decide),
    BitVec.toInt_signExtend_eq_toInt_bmod_of_le _ (by decide), BitVec.toInt_sshiftRight,
    Int.shiftRight_eq_div_pow]
  exact Int.bmod_eq_of_le (by omega) (by omega)

theorem srem_eq_ofInt (hmAddr : BitVec 64) :
    hmAddr.srem 281474976710656 = BitVec.ofInt 64 (hmAddr.toInt.tmod 281474976710656) := by
  rw [← @BitVec.ofInt_toInt 64 (hmAddr.srem _), BitVec.toInt_srem]
  rfl

theorem hmpGetHmNodeId_eq (nodeCnt : ℕ) (hmAddr : BitVec 64) :
    hmpGetHmNodeId nodeCnt hmAddr =
      (HMP.hmpGetHmNodeId nodeCnt hmAddr).map fun r => (BitVec.ofNat 32 r.1, r.2) := by
  unfold hmpGetHmNodeId HMP.hmpGetHmNodeId
  simp only [toInt_narrow, srem_eq_ofInt]
  split_ifs with hid
  · have hnode : (hmAddr.sshiftRight 48).setWidth 32 =
        BitVec.ofNat 32 (hmAddr.toInt >>> (48 : ℕ)).toNat := by
      rw [← BitVec.ofInt_natCast, Int.toNat_of_nonneg hid.1, ← toInt_narrow, BitVec.ofInt_toInt]
    rw [hnode, Option.map_some]
  · rfl

/-! ## Splitting and rebuilding -/

theorem hmpGetHmNodeId_of_lt {nodeCnt : ℕ} (hcnt : nodeCnt ≤ 32768) {hmAddr : BitVec 64}
    (h : hmAddr.toNat / 2 ^ 48 < nodeCnt) :
    hmpGetHmNodeId nodeCnt hmAddr =
      some (BitVec.ofNat 32 (hmAddr.toNat / 2 ^ 48), BitVec.ofNat 64 (hmAddr.toNat % 2 ^ 48)) := by
  rw [hmpGetHmNodeId_eq, HMP.hmpGetHmNodeId_eq hcnt, if_pos h, Option.map_some]

theorem hmpGetHmNodeId_of_ge {nodeCnt : ℕ} (hcnt : nodeCnt ≤ 32768) {hmAddr : BitVec 64}
    (h : nodeCnt ≤ hmAddr.toNat / 2 ^ 48) : hmpGetHmNodeId nodeCnt hmAddr = none := by
  rw [hmpGetHmNodeId_eq, HMP.hmpGetHmNodeId_eq hcnt, if_neg (by omega), Option.map_none]

/-- The converse: what an accepted address is made of. -/
theorem rebuild {nodeCnt : ℕ} (hcnt : nodeCnt ≤ 32768) {hmAddr : BitVec 64} {n : BitVec 32}
    {a : BitVec 64} (h : hmpGetHmNodeId nodeCnt hmAddr = some (n, a)) :
    n.toNat < nodeCnt ∧ a.toNat < 2 ^ 48 ∧ hmpGetHybridMempoolAddr n + a = hmAddr := by
  have hlt := hmAddr.isLt
  rcases lt_or_ge (hmAddr.toNat / 2 ^ 48) nodeCnt with hid | hid
  · rw [hmpGetHmNodeId_of_lt hcnt hid, Option.some.injEq, Prod.mk.injEq] at h
    obtain ⟨rfl, rfl⟩ := h
    refine ⟨?_, ?_, ?_⟩
    · rw [BitVec.toNat_ofNat]
      omega
    · rw [BitVec.toNat_ofNat]
      omega
    · apply BitVec.eq_of_toNat_eq
      rw [hmpGetHybridMempoolAddr_eq (by omega), globalAddr_toNat (by omega) (by omega)]
      omega
  · rw [hmpGetHmNodeId_of_ge hcnt hid] at h
    cases h

/-- A range that stays below the next multiple of `2 ^ 48` does not wrap either. -/
theorem add_toNat {hmAddr : BitVec 64} {k : ℕ} (hk : hmAddr.toNat % 2 ^ 48 + k < 2 ^ 48) :
    (hmAddr + BitVec.ofNat 64 k).toNat = hmAddr.toNat + k := by
  have hlt := hmAddr.isLt
  rw [BitVec.toNat_add, BitVec.toNat_ofNat]
  omega

theorem range {nodeCnt : ℕ} (hcnt : nodeCnt ≤ 32768) {hmAddr : BitVec 64} {k : ℕ}
    (hk : hmAddr.toNat % 2 ^ 48 + k < 2 ^ 48) :
    hmpGetHmNodeId nodeCnt (hmAddr + BitVec.ofNat 64 k) =
      (hmpGetHmNodeId nodeCnt hmAddr).map fun r => (r.1, r.2 + BitVec.ofNat 64 k) := by
  have hadd := add_toNat hk
  have hdiv : (hmAddr + BitVec.ofNat 64 k).toNat / 2 ^ 48 = hmAddr.toNat / 2 ^ 48 := by omega
  have hmod : (hmAddr + BitVec.ofNat 64 k).toNat % 2 ^ 48 = hmAddr.toNat % 2 ^ 48 + k := by omega
  rcases lt_or_ge (hmAddr.toNat / 2 ^ 48) nodeCnt with hid | hid
  · rw [hmpGetHmNodeId_of_lt hcnt hid, hmpGetHmNodeId_of_lt hcnt (hdiv ▸ hid), hdiv, hmod,
      Option.map_some, BitVec.ofNat_add]
  · rw [hmpGetHmNodeId_of_ge hcnt hid, hmpGetHmNodeId_of_ge hcnt (hdiv ▸ hid), Option.map_none]

theorem splits_exactly {nodeCnt : ℕ} (hcnt : nodeCnt ≤ 32768) : SplitsExactly nodeCnt where
  split n hn a ha := by
    rw [hmpGetHmNodeId_eq, hmpGetHybridMempoolAddr_eq (by omega)]
    have h := hmpGetHmNodeId_globalAddr hcnt hn ha
    rw [BitVec.ofNat_toNat, BitVec.setWidth_eq] at h
    rw [h, Option.map_some]
  rebuild _ _ _ := rebuild hcnt
  accepts hmAddr := by
    rw [BitVec.toNat_ushiftRight, Nat.shiftRight_eq_div_pow]
    rcases lt_or_ge (hmAddr.toNat / 2 ^ 48) nodeCnt with hid | hid
    · simp only [hmpGetHmNodeId_of_lt hcnt hid, Option.isSome_some, hid]
    · simp only [hmpGetHmNodeId_of_ge hcnt hid, Option.isSome_none, Bool.false_eq_true, hid.not_gt]
  range _ _ := range hcnt

/-- The last address but a few of the largest number of nodes that the upper bits can name. -/
theorem splits_exactly_last :
    hmpGetHmNodeId 32768 (hmpGetHybridMempoolAddr 32767 + 281474976710650) =
      some (32767, 281474976710650) :=
  (splits_exactly (le_refl 32768)).split 32767 (by decide) 281474976710650 (by decide)

end HMP.Machine
