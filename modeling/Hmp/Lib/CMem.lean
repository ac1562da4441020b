import Hmp.Lib.Bytes
import Mathlib.Data.List.TakeWhile

/-! C strings and `int`s in a memory. -/

namespace HMP

/-- A text without the NUL that ends it. -/
abbrev CString : Type := { t : List UInt8 // 0 ∉ t }

/-- The text as far as its first NUL. -/
def CString.ofBytes (l : List UInt8) : CString :=
  ⟨l.takeWhile (· ≠ 0), fun h => by simpa using List.mem_takeWhile_imp h⟩

namespace Mem

/-! ## Strings -/

/-- The string at `a` is `t`. -/
def HasCString (m : Mem) (a : ℕ) (t : List UInt8) : Prop := m.read a (t.length + 1) = t ++ [0]

instance (m : Mem) (a : ℕ) (t : List UInt8) : Decidable (m.HasCString a t) :=
  inferInstanceAs (Decidable (_ = _))

theorem hasCString_write (m : Mem) (a : ℕ) (t : List UInt8) :
    (m.write a (t ++ [0])).HasCString a t := by
  have := m.read_write_self a (t ++ [0])
  rwa [List.length_append] at this

theorem hasCString_nil {m : Mem} {a : ℕ} (h : m a = 0) : m.HasCString a [] := by
  simp [HasCString, read, h]

theorem HasCString.congr {m m' : Mem} {a : ℕ} {t : List UInt8} (h : m.HasCString a t)
    (hm : ∀ x, a ≤ x → x ≤ a + t.length → m' x = m x) : m'.HasCString a t := by
  rw [HasCString, ← h]
  exact read_congr fun x hx hx' => hm x hx (by omega)

theorem HasCString.nul {m : Mem} {a : ℕ} {t : List UInt8} (h : m.HasCString a t) :
    m (a + t.length) = 0 := by
  rw [HasCString, read_add] at h
  have := (List.append_inj h (by simp)).2
  simpa [read] using this

theorem HasCString.read {m : Mem} {a : ℕ} {t : List UInt8} (h : m.HasCString a t) :
    m.read a t.length = t := by
  rw [HasCString, read_add] at h
  exact (List.append_inj h (by simp)).1

theorem HasCString.ne_zero {m : Mem} {a k : ℕ} {t : CString} (h : m.HasCString a t.1)
    (hk : k < t.1.length) : m (a + k) ≠ 0 := by
  have hget : m (a + k) = t.1[k] := by
    have := congrArg (·[k]?) h.read
    simpa [Mem.read, hk] using this
  intro h0
  have hmem : t.1[k] ∈ t.1 := List.getElem_mem hk
  rw [← hget, h0] at hmem
  exact t.2 hmem

/-- There is only one string at an address. -/
theorem HasCString.unique {m : Mem} {a : ℕ} {t t' : CString} (h : m.HasCString a t.1)
    (h' : m.HasCString a t'.1) : t = t' := by
  have hlen : t.1.length = t'.1.length := by
    rcases lt_trichotomy t.1.length t'.1.length with hlt | heq | hgt
    · exact absurd h.nul (h'.ne_zero hlt)
    · exact heq
    · exact absurd h'.nul (h.ne_zero hgt)
  apply Subtype.ext
  rw [← h.read, ← h'.read, hlen]

/-- The number of bytes before the first NUL among `n` bytes from `a` on. -/
def strlen (m : Mem) : ℕ → ℕ → Option ℕ
  | _, 0 => none
  | a, n + 1 => if m a = 0 then some 0 else (m.strlen (a + 1) n).map (· + 1)

theorem strlen_eq_some {m : Mem} {a n k : ℕ} :
    m.strlen a n = some k ↔ k < n ∧ m (a + k) = 0 ∧ ∀ j < k, m (a + j) ≠ 0 := by
  induction n generalizing a k with
  | zero => simp [strlen]
  | succ n ih =>
    by_cases h : m a = 0
    · rw [strlen, if_pos h]
      constructor
      · intro hk
        obtain rfl := Option.some.inj hk
        exact ⟨Nat.succ_pos n, h, fun _ hj => absurd hj (Nat.not_lt_zero _)⟩
      · rintro ⟨-, -, hne⟩
        cases k with
        | zero => rfl
        | succ k => exact absurd h (hne 0 (Nat.succ_pos k))
    · rw [strlen, if_neg h, Option.map_eq_some_iff]
      constructor
      · rintro ⟨k, hk, rfl⟩
        obtain ⟨hlt, hz, hne⟩ := ih.mp hk
        refine ⟨by omega, by rwa [Nat.add_assoc, Nat.add_comm 1] at hz, fun j hj => ?_⟩
        cases j with
        | zero => exact h
        | succ j =>
          have := hne j (by omega)
          rwa [Nat.add_assoc, Nat.add_comm 1] at this
      · rintro ⟨hlt, hz, hne⟩
        cases k with
        | zero => exact absurd hz h
        | succ k =>
          refine ⟨k, ih.mpr ⟨by omega, ?_, fun j hj => ?_⟩, rfl⟩
          · rwa [Nat.add_assoc, Nat.add_comm 1]
          · rw [Nat.add_assoc, Nat.add_comm 1]
            exact hne (j + 1) (by omega)

/-- A NUL bounds the length. -/
theorem strlen_le {m : Mem} {a n i : ℕ} (hi : i < n) (h : m (a + i) = 0) :
    ∃ k ≤ i, m.strlen a n = some k := by
  have hex : ∃ k, m (a + k) = 0 := ⟨i, h⟩
  have hle : Nat.find hex ≤ i := Nat.find_min' hex h
  exact ⟨Nat.find hex, hle, strlen_eq_some.mpr
    ⟨by omega, Nat.find_spec hex, fun _ hj => Nat.find_min hex hj⟩⟩

/-! ## `int` -/

/-- The `int` at `a`. -/
def int (m : Mem) (a : ℕ) : ℤ := (BitVec.ofNat 32 (m.word a 4)).toInt

def setInt (m : Mem) (a : ℕ) (v : ℤ) : Mem := m.write a (le 4 (BitVec.ofInt 32 v).toNat)

theorem int_setInt (m : Mem) (a : ℕ) (v : ℤ) : (m.setInt a v).int a = (BitVec.ofInt 32 v).toInt := by
  have hread : (m.setInt a v).read a 4 = le 4 (BitVec.ofInt 32 v).toNat := by
    have := m.read_write_self a (le 4 (BitVec.ofInt 32 v).toNat)
    rwa [le_length] at this
  have hlt : (BitVec.ofInt 32 v).toNat < 256 ^ 4 := (BitVec.ofInt 32 v).isLt
  rw [int, word, hread, leVal_le_of_lt hlt, BitVec.ofNat_toNat, BitVec.setWidth_eq]

theorem int_setInt_of_lt (m : Mem) (a : ℕ) {v : ℤ} (h : -2 ^ 31 ≤ v) (h' : v < 2 ^ 31) :
    (m.setInt a v).int a = v := by
  rw [int_setInt, BitVec.toInt_ofInt]
  exact Int.bmod_eq_of_le (by omega) (by omega)

theorem int_congr {m m' : Mem} {a : ℕ} (h : ∀ x, a ≤ x → x < a + 4 → m x = m' x) :
    m.int a = m'.int a := by
  rw [int, int, word, word, read_congr h]

theorem int_of_zero {m : Mem} {a : ℕ} (h : ∀ x, a ≤ x → x < a + 4 → m x = 0) : m.int a = 0 := by
  have heq : m.int a = Mem.int (fun _ => 0) a := int_congr h
  rw [heq]
  rfl

theorem setInt_apply (m : Mem) {a x : ℕ} (v : ℤ) (h : x < a ∨ a + 4 ≤ x) :
    m.setInt a v x = m x := by
  rcases h with h | h
  · exact write_of_lt m _ h
  · exact write_of_le m _ (by simpa using h)

end Mem

end HMP
