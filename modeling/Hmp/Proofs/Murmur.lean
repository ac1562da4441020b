import Hmp.Lib.Mix
import Hmp.Proofs.HashRing
import Mathlib.Data.Fintype.EquivFin

/-! `murmur_hash` as a function of one word of its key: it loses none of the word, so keys that differ
in one word have different hashes. -/

namespace HMP

open Function

/-! ## The rounds -/

theorem injective_of_toBitVec {f : UInt32 → UInt32} {g : BitVec 32 → BitVec 32}
    (hg : Injective g) (h : ∀ x, (f x).toBitVec = g x.toBitVec) : Injective f := by
  intro x y hxy
  have hb := congrArg UInt32.toBitVec hxy
  rw [h, h] at hb
  exact UInt32.toBitVec_inj.mp (hg hb)

theorem rotl32_injective {r : ℕ} (h0 : 0 < r) (hr : r < 32) : Injective fun x => rotl32 x r := by
  refine injective_of_toBitVec (rotateLeft_injective hr) fun x => ?_
  have h₁ : r % 32 = r := by omega
  have h₂ : (32 - r) % 32 = 32 - r := by omega
  rw [BitVec.rotateLeft_def, Nat.mod_eq_of_lt hr]
  simp [rotl32, BitVec.shiftLeft_eq', BitVec.ushiftRight_eq', h₁, h₂]

theorem mul_injective {c d : UInt32} (h : c * d = 1) : Injective fun x : UInt32 => x * c := by
  refine injective_of_toBitVec (mul_const_injective (d := d.toBitVec) (c := c.toBitVec) ?_) fun x => rfl
  exact congrArg UInt32.toBitVec h

theorem xorShift16_injective : Injective fun x : UInt32 => x ^^^ (x >>> 16) :=
  injective_of_toBitVec (xorShift_injective (s := 16) (by decide)) fun x => rfl

theorem xorShift13_injective : Injective fun x : UInt32 => x ^^^ (x >>> 13) :=
  injective_of_toBitVec (xorShift_injective (s := 13) (by decide)) fun x => rfl

theorem fmix32_injective : Injective fmix32 :=
  xorShift16_injective.comp <| (mul_injective (d := 0x7ed1b41d) (by decide)).comp <|
    xorShift13_injective.comp <| (mul_injective (d := 0xa5cb9243) (by decide)).comp
      xorShift16_injective

theorem mixK1_injective : Injective mixK1 :=
  (mul_injective (d := 0x56ed309b) (by decide)).comp <|
    (rotl32_injective (r := 15) (by decide) (by decide)).comp
      (mul_injective (d := 0xdee13bb1) (by decide))

theorem xor_left_injective (a : UInt32) : Injective fun x => a ^^^ x := by
  intro x y h
  simpa using h

theorem xor_right_injective (a : UInt32) : Injective fun x => x ^^^ a := by
  intro x y h
  simpa using h

/-- A round loses nothing of the state, and nothing of the block. -/
theorem murmurBlock_injective (k1 : UInt32) : Injective fun h1 => murmurBlock h1 k1 := by
  intro x y h
  have h₁ : rotl32 (x ^^^ mixK1 k1) 13 * 5 = rotl32 (y ^^^ mixK1 k1) 13 * 5 := by
    simpa [murmurBlock] using h
  have h₂ := rotl32_injective (by decide) (by decide) (mul_injective (d := 0xcccccccd) (by decide) h₁)
  exact xor_right_injective _ h₂

theorem murmurBlock_block_injective (h1 : UInt32) : Injective (murmurBlock h1) := by
  intro x y h
  have h₁ : rotl32 (h1 ^^^ mixK1 x) 13 * 5 = rotl32 (h1 ^^^ mixK1 y) 13 * 5 := by
    simpa [murmurBlock] using h
  have h₂ := rotl32_injective (by decide) (by decide) (mul_injective (d := 0xcccccccd) (by decide) h₁)
  exact mixK1_injective (xor_left_injective _ h₂)

/-! ## Words of the key -/

theorem ofNat_leVal_inj {b b' : List UInt8} (hl : b.length = b'.length) (h4 : b.length ≤ 4)
    (h : UInt32.ofNat (leVal b) = UInt32.ofNat (leVal b')) : b = b' := by
  have hpow : 256 ^ b.length ≤ 2 ^ 32 := by
    calc 256 ^ b.length ≤ 256 ^ 4 := Nat.pow_le_pow_right (by decide) h4
      _ = 2 ^ 32 := by decide
  have h₁ : leVal b < 2 ^ 32 := (leVal_lt b).trans_le hpow
  have h₂ : leVal b' < 2 ^ 32 := (hl ▸ leVal_lt b').trans_le hpow
  have hn := congrArg UInt32.toNat h
  rw [UInt32.toNat_ofNat_of_lt' h₁, UInt32.toNat_ofNat_of_lt' h₂] at hn
  exact leVal_inj hl hn

/-- The `switch` takes what is left of the key as one more word. -/
theorem murmurTail_eq (h1 : UInt32) {t : List UInt8} (ht : t.length < 4) :
    murmurTail h1 t = h1 ^^^ mixK1 (UInt32.ofNat (leVal t)) := by
  have hword : ∀ a b : UInt8, (b.toUInt32 <<< 8) ^^^ a.toUInt32 =
      UInt32.ofNat (a.toNat + 256 * b.toNat) := by
    intro a b
    have ha : a.toNat < 2 ^ 8 := a.toNat_lt
    have hb : b.toNat < 2 ^ 8 := b.toNat_lt
    have hs : (b.toNat <<< 8) % 4294967296 = b.toNat <<< 8 := by
      rw [Nat.shiftLeft_eq]
      omega
    refine UInt32.toNat_inj.mp ?_
    rw [UInt32.toNat_ofNat_of_lt' (show _ < 2 ^ 32 by omega)]
    simp only [UInt32.toNat_xor, UInt32.toNat_shiftLeft, UInt8.toNat_toUInt32, UInt32.reduceToNat,
      Nat.reduceMod, Nat.reducePow]
    rw [hs, shiftLeft_xor_of_lt ha]
    omega
  have hword₃ : ∀ a b c : UInt8, (c.toUInt32 <<< 16) ^^^ (b.toUInt32 <<< 8) ^^^ a.toUInt32 =
      UInt32.ofNat (a.toNat + 256 * (b.toNat + 256 * c.toNat)) := by
    intro a b c
    have ha : a.toNat < 2 ^ 8 := a.toNat_lt
    have hb : b.toNat < 2 ^ 8 := b.toNat_lt
    have hc : c.toNat < 2 ^ 8 := c.toNat_lt
    have hs : (c.toNat <<< 16) % 4294967296 = c.toNat <<< 16 := by
      rw [Nat.shiftLeft_eq]
      omega
    have hlow : a.toNat + 256 * b.toNat < 2 ^ 16 := by omega
    rw [UInt32.xor_assoc, hword]
    refine UInt32.toNat_inj.mp ?_
    rw [UInt32.toNat_xor, UInt32.toNat_ofNat_of_lt' (show _ < 2 ^ 32 by omega),
      UInt32.toNat_ofNat_of_lt' (show _ < 2 ^ 32 by omega)]
    simp only [UInt32.toNat_shiftLeft, UInt8.toNat_toUInt32, UInt32.reduceToNat, Nat.reduceMod,
      Nat.reducePow]
    rw [hs, shiftLeft_xor_of_lt hlow]
    omega
  match t, ht with
  | [], _ =>
    have h0 : mixK1 (UInt32.ofNat (leVal [])) = 0 := by decide
    rw [h0, UInt32.xor_zero]
    rfl
  | [a], _ => simp [murmurTail, leVal_cons]
  | [a, b], _ => simp [murmurTail, leVal_cons, hword]
  | [a, b, c], _ => simp [murmurTail, leVal_cons, hword₃]

/-! ## The rest of the hash -/

/-- The state of the loop after the blocks of `key`, from `h1`. -/
def murmurBlocks (h1 : UInt32) (key : List UInt8) : UInt32 :=
  (List.range (key.length / 4)).foldl (fun h1 i => murmurBlock h1 (getblock32 key i)) h1

/-- What becomes of the state `h1` in front of the last bytes of a key of `n` bytes. -/
def murmurRest (n : ℕ) (key : List UInt8) (h1 : UInt32) : UInt32 :=
  fmix32 (murmurTail (murmurBlocks h1 key) (key.drop (key.length / 4 * 4)) ^^^ UInt32.ofNat n)

theorem murmurHash_eq (key : List UInt8) : murmurHash key = murmurRest key.length key 0 := rfl

theorem murmurBlocks_append (h1 : UInt32) {p : List UInt8} (hp : 4 ∣ p.length) (q : List UInt8) :
    murmurBlocks h1 (p ++ q) = murmurBlocks (murmurBlocks h1 p) q := by
  obtain ⟨m, hm⟩ := hp
  have hlen : (p ++ q).length / 4 = p.length / 4 + q.length / 4 := by
    rw [List.length_append]
    omega
  have hleft : ∀ i < p.length / 4, getblock32 (p ++ q) i = getblock32 p i := by
    intro i hi
    rw [getblock32, getblock32, List.drop_append_of_le_length (by omega),
      List.take_append_of_le_length (by rw [List.length_drop]; omega)]
  have hright : ∀ i, getblock32 (p ++ q) (p.length / 4 + i) = getblock32 q i := by
    intro i
    have hi : 4 * (p.length / 4 + i) = p.length + 4 * i := by omega
    rw [getblock32, getblock32, hi, List.drop_length_add_append]
  have hfront : (List.range (p.length / 4)).foldl
      (fun h i => murmurBlock h (getblock32 (p ++ q) i)) h1 = murmurBlocks h1 p := by
    refine List.foldl_ext _ _ _ fun h i hi => ?_
    rw [hleft i (List.mem_range.mp hi)]
  simp only [murmurBlocks, hlen, List.range_add, List.foldl_append, List.foldl_map, hright] at hfront ⊢
  rw [hfront]

theorem murmurRest_append (n : ℕ) (h1 : UInt32) {p : List UInt8} (hp : 4 ∣ p.length)
    (q : List UInt8) : murmurRest n (p ++ q) h1 = murmurRest n q (murmurBlocks h1 p) := by
  have hdrop : (p ++ q).drop ((p ++ q).length / 4 * 4) = q.drop (q.length / 4 * 4) := by
    have hlen : (p ++ q).length / 4 * 4 = p.length + q.length / 4 * 4 := by
      rw [List.length_append]
      omega
    rw [hlen, List.drop_length_add_append]
  rw [murmurRest, murmurRest, murmurBlocks_append h1 hp, hdrop]

theorem murmurRest_injective (n : ℕ) (key : List UInt8) : Injective (murmurRest n key) := by
  intro x y h
  have h₁ := xor_right_injective _ (fmix32_injective h)
  have ht : (key.drop (key.length / 4 * 4)).length < 4 := by
    rw [List.length_drop]
    omega
  simp only [murmurTail_eq _ ht] at h₁
  exact foldl_injective (fun i => murmurBlock_injective (getblock32 key i)) _
    (xor_right_injective _ h₁)

theorem murmurHash_word (p q : List UInt8) {b : List UInt8} (hp : 4 ∣ p.length)
    (hb : b.length = 4) : murmurHash (p ++ b ++ q) = murmurRest (p.length + 4 + q.length) q
      (murmurBlock (murmurBlocks 0 p) (UInt32.ofNat (leVal b))) := by
  have hblock : ∀ h1, murmurBlocks h1 b = murmurBlock h1 (UInt32.ofNat (leVal b)) := by
    intro h1
    have ht : b.take 4 = b := List.take_of_length_le hb.le
    simp [murmurBlocks, hb, getblock32, ht]
  have hlen : (p ++ b ++ q).length = p.length + 4 + q.length := by
    rw [List.length_append, List.length_append, hb]
  rw [murmurHash_eq, hlen, List.append_assoc, murmurRest_append _ _ hp,
    murmurRest_append _ _ ⟨1, hb⟩, hblock]

theorem murmurHash_last (p : List UInt8) {b : List UInt8} (hp : 4 ∣ p.length) (hb : b.length < 4) :
    murmurHash (p ++ b) = fmix32 ((murmurBlocks 0 p ^^^ mixK1 (UInt32.ofNat (leVal b))) ^^^
      UInt32.ofNat (p.length + b.length)) := by
  have h0 : b.length / 4 = 0 := by omega
  have hblocks : ∀ h1, murmurBlocks h1 b = h1 := fun h1 => by simp [murmurBlocks, h0]
  rw [murmurHash_eq, List.length_append, murmurRest_append _ _ hp]
  simp only [murmurRest, hblocks, h0, Nat.zero_mul, List.drop_zero, murmurTail_eq _ hb]

/-! ## One word -/

/-- Whatever stands before and behind it, each hash belongs to exactly one aligned word of a key. -/
theorem murmur_hash_bijective (p q : List UInt8) (hp : 4 ∣ p.length)
    (hint : p.length + 4 + q.length < 2 ^ 31) (h : UInt32) :
    ∃! b : List UInt8, b.length = 4 ∧ IntKey (p ++ b ++ q) ∧ murmurHash (p ++ b ++ q) = h := by
  have hinj : Injective fun k => murmurRest (p.length + 4 + q.length) q
      (murmurBlock (murmurBlocks 0 p) k) :=
    (murmurRest_injective _ q).comp (murmurBlock_block_injective _)
  have hfin : Finite UInt32 := .of_injective UInt32.toFin fun _ _ h => UInt32.toFin_inj.mp h
  obtain ⟨k, hk⟩ := Finite.surjective_of_injective hinj h
  have hle : UInt32.ofNat (leVal (le 4 k.toNat)) = k := by
    rw [leVal_le_of_lt k.toNat_lt, UInt32.ofNat_toNat]
  refine ⟨le 4 k.toNat, ⟨le_length 4 _, ?_, ?_⟩, ?_⟩
  · rw [IntKey, List.length_append, List.length_append, le_length]
    exact hint
  · rw [murmurHash_word p q hp (le_length 4 _), hle]
    exact hk
  · rintro b ⟨hb, -, hbh⟩
    rw [murmurHash_word p q hp hb] at hbh
    refine ofNat_leVal_inj (hb.trans (le_length 4 _).symm) hb.le ?_
    rw [hle]
    exact hinj (hbh.trans hk.symm)

theorem murmur_hash_bijective_sample : ∃! b : List UInt8, b.length = 4 ∧
    IntKey (bytes "10.0" ++ b ++ bytes "18515") ∧
      murmurHash (bytes "10.0" ++ b ++ bytes "18515") = 77 :=
  murmur_hash_bijective (bytes "10.0") (bytes "18515") (by decide) (by decide) 77

/-- Two keys of one length that differ in one aligned word; the last may be shorter. -/
def OneWord (key key' : List UInt8) : Prop :=
  ∃ p b b' q, key = p ++ b ++ q ∧ key' = p ++ b' ++ q ∧ 4 ∣ p.length ∧ b.length = b'.length ∧
    (b.length = 4 ∨ b.length < 4 ∧ q = []) ∧ b ≠ b'

theorem murmurHash_ne {key key' : List UInt8} (h : OneWord key key') :
    murmurHash key ≠ murmurHash key' := by
  obtain ⟨p, b, b', q, rfl, rfl, hp, hl, hw, hne⟩ := h
  intro h
  refine hne (ofNat_leVal_inj hl (by omega) ?_)
  rcases hw with hw | ⟨hw, rfl⟩
  · rw [murmurHash_word p q hp hw, murmurHash_word p q hp (hl ▸ hw)] at h
    exact murmurBlock_block_injective _ (murmurRest_injective _ q h)
  · rw [List.append_nil, List.append_nil, murmurHash_last p hp hw, murmurHash_last p hp (hl ▸ hw),
      hl] at h
    exact mixK1_injective (xor_left_injective _ (xor_right_injective _ (fmix32_injective h)))

/-- Nodes whose key strings differ in one aligned word have positions of their own on the ring. -/
theorem hash_ring_strict (config : HmpConfig) (L : ListHeads ℕ)
    (h : ∀ i < config.nodeCnt, ∀ j < i,
      OneWord (hashKey (config.endpoint j).1 (config.endpoint j).2)
        (hashKey (config.endpoint i).1 (config.endpoint i).2)) :
    ∃ ring, hashRing config L = some ring ∧ ring.Pairwise (fun a b => a.key < b.key) ∧
      ring.Perm ((List.range config.nodeCnt).map (hashNode config)) := by
  obtain ⟨ring, hring, hsorted, hperm⟩ := hashRing_spec config L
  refine ⟨ring, hring, hsorted.imp_of_mem fun {a b} ha hb hab => ?_, hperm⟩
  rcases hab with hlt | ⟨hkey, hid⟩
  · exact hlt
  · obtain ⟨j, hj, rfl⟩ := List.mem_map.mp (hperm.mem_iff.mp ha)
    obtain ⟨i, hi, rfl⟩ := List.mem_map.mp (hperm.mem_iff.mp hb)
    exact absurd hkey (murmurHash_ne (h i (List.mem_range.mp hi) j hid))

def sampleSubnet : HmpConfig where
  nodeInfos k := { addr := if k = 0 then "10.0.0.1" else if k = 1 then "10.0.0.2" else "10.0.0.3"
                   port := 18515 }
  curnodeId := 0
  nodeCnt := 3

theorem hash_ring_strict_sample : ∃ ring, hashRing sampleSubnet ⟨id, id⟩ = some ring ∧
    ring.Pairwise (fun a b => a.key < b.key) := by
  have h : ∀ i < 3, ∀ j < i, OneWord (hashKey (sampleSubnet.endpoint j).1 (sampleSubnet.endpoint j).2)
      (hashKey (sampleSubnet.endpoint i).1 (sampleSubnet.endpoint i).2) := by
    intro i hi j hj
    refine ⟨(hashKey (sampleSubnet.endpoint j).1 18515).take 4,
      ((hashKey (sampleSubnet.endpoint j).1 18515).drop 4).take 4,
      ((hashKey (sampleSubnet.endpoint i).1 18515).drop 4).take 4,
      (hashKey (sampleSubnet.endpoint j).1 18515).drop 8, ?_⟩
    revert i j
    decide
  obtain ⟨ring, hring, hstrict, -⟩ := hash_ring_strict sampleSubnet ⟨id, id⟩ h
  exact ⟨ring, hring, hstrict⟩

end HMP
