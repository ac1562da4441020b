import Mathlib.Data.Nat.Digits.Lemmas
import Mathlib.Data.List.GetD

/-! Byte-addressed memories: reading and writing ranges, frames of a write, and
little-endian words. -/

namespace HMP

/-- The contents of an address space. -/
abbrev Mem := ℕ → UInt8

namespace Mem

def read (m : Mem) (a n : ℕ) : List UInt8 := (List.range n).map fun k => m (a + k)

def write (m : Mem) (a : ℕ) (bs : List UInt8) : Mem := fun x =>
  if a ≤ x ∧ x < a + bs.length then bs.getD (x - a) 0 else m x

@[simp] theorem read_length (m : Mem) (a n : ℕ) : (m.read a n).length = n := by simp [read]

@[simp] theorem read_zero (m : Mem) (a : ℕ) : m.read a 0 = [] := rfl

theorem read_add (m : Mem) (a n k : ℕ) : m.read a (n + k) = m.read a n ++ m.read (a + n) k := by
  simp [read, List.range_add, Nat.add_assoc]

theorem read_congr {m m' : Mem} {a n : ℕ} (h : ∀ x, a ≤ x → x < a + n → m x = m' x) :
    m.read a n = m'.read a n := by
  apply List.map_congr_left
  intro k hk
  have := List.mem_range.mp hk
  exact h _ (by omega) (by omega)

theorem read_eq_iff {m m' : Mem} {a n : ℕ} :
    m.read a n = m'.read a n ↔ ∀ x, a ≤ x → x < a + n → m x = m' x := by
  refine ⟨fun h x hx hx' => ?_, read_congr⟩
  have hk := List.map_inj_left.mp h (x - a) (List.mem_range.mpr (by omega))
  simpa [show a + (x - a) = x by omega] using hk

@[simp] theorem write_nil (m : Mem) (a : ℕ) : m.write a [] = m := by
  funext x
  simp only [write, List.length_nil, Nat.add_zero]
  rw [if_neg (by omega)]

theorem write_of_lt (m : Mem) {a x : ℕ} (bs : List UInt8) (h : x < a) : m.write a bs x = m x := by
  simp only [write]
  rw [if_neg (by omega)]

theorem write_of_le (m : Mem) {a x : ℕ} (bs : List UInt8) (h : a + bs.length ≤ x) :
    m.write a bs x = m x := by
  simp only [write]
  rw [if_neg (by omega)]

theorem write_in (m : Mem) {a k : ℕ} (bs : List UInt8) (h : k < bs.length) :
    m.write a bs (a + k) = bs[k] := by
  simp only [write]
  rw [if_pos (by omega), Nat.add_sub_cancel_left, List.getD_eq_getElem _ _ h]

/-- Reading a written range gives the bytes written. -/
@[simp] theorem read_write_self (m : Mem) (a : ℕ) (bs : List UInt8) :
    (m.write a bs).read a bs.length = bs := by
  apply List.ext_getElem
  · simp
  · intro k _ hk
    simp [read, write_in m bs hk]

/-- A write leaves every range it does not meet unchanged. -/
theorem read_write_of_disjoint (m : Mem) {a b n : ℕ} (bs : List UInt8)
    (h : b + n ≤ a ∨ a + bs.length ≤ b) : (m.write a bs).read b n = m.read b n := by
  apply read_congr
  intro x hx hx'
  rcases h with h | h
  · exact write_of_lt m bs (by omega)
  · exact write_of_le m bs (by omega)

theorem write_apply_congr {m m' : Mem} {x : ℕ} (a : ℕ) (bs : List UInt8) (h : m x = m' x) :
    m.write a bs x = m'.write a bs x := by
  simp only [write, h]

/-- Writing two lists behind each other. -/
theorem write_append (m : Mem) (a : ℕ) (bs cs : List UInt8) :
    m.write a (bs ++ cs) = (m.write a bs).write (a + bs.length) cs := by
  funext x
  simp only [write, List.length_append]
  rcases lt_or_ge x (a + bs.length) with h | h
  · by_cases ha : a ≤ x
    · rw [if_pos ⟨ha, by omega⟩, if_neg (by omega), if_pos ⟨ha, h⟩, List.getD_append _ _ _ _ (by omega)]
    · rw [if_neg (by omega), if_neg (by omega), if_neg (by omega)]
  · by_cases hx : x < a + bs.length + cs.length
    · rw [if_pos (by omega), if_pos ⟨h, hx⟩, List.getD_append_right _ _ _ _ (by omega)]
      congr 1
      omega
    · rw [if_neg (by omega), if_neg (by omega), if_neg (by omega)]

/-- A list of writes, the first one first. -/
def puts (m : Mem) (ps : List (ℕ × List UInt8)) : Mem := ps.foldl (fun m p => m.write p.1 p.2) m

@[simp] theorem puts_nil (m : Mem) : m.puts [] = m := rfl

@[simp] theorem puts_cons (m : Mem) (p : ℕ × List UInt8) (ps : List (ℕ × List UInt8)) :
    m.puts (p :: ps) = (m.write p.1 p.2).puts ps := rfl

@[simp] theorem puts_append (m : Mem) (ps qs : List (ℕ × List UInt8)) :
    m.puts (ps ++ qs) = (m.puts ps).puts qs := List.foldl_append

/-- What a list of writes leaves at an address depends on nothing but that address. -/
theorem puts_apply_congr {x : ℕ} (ps : List (ℕ × List UInt8)) :
    ∀ {m m' : Mem}, m x = m' x → m.puts ps x = m'.puts ps x := by
  induction ps with
  | nil => exact fun h => h
  | cons p ps ih => exact fun h => ih (write_apply_congr p.1 p.2 h)

/-- Writes inside a range leave the rest unchanged. -/
theorem puts_of_outside {lo hi x : ℕ} (ps : List (ℕ × List UInt8))
    (h : ∀ p ∈ ps, lo ≤ p.1 ∧ p.1 + p.2.length ≤ hi) (hx : x < lo ∨ hi ≤ x) (m : Mem) :
    m.puts ps x = m x := by
  induction ps generalizing m with
  | nil => rfl
  | cons p ps ih =>
    have hp := h p List.mem_cons_self
    rw [puts_cons, ih (fun q hq => h q (List.mem_cons_of_mem _ hq))]
    rcases hx with hx | hx
    · exact write_of_lt m p.2 (by omega)
    · exact write_of_le m p.2 (by omega)

/-- Writing back what a range holds changes nothing. -/
theorem write_read (m : Mem) (a n : ℕ) : m.write a (m.read a n) = m := by
  funext x
  by_cases h : a ≤ x ∧ x < a + n
  · obtain ⟨k, rfl⟩ := Nat.exists_eq_add_of_le h.1
    rw [write_in m _ (by simp; omega)]
    simp [read]
  · simp only [write, read_length]
    rw [if_neg h]

end Mem

/-- The `w` little-endian bytes of `n`. -/
def le (w n : ℕ) : List UInt8 := (List.range w).map fun k => UInt8.ofNat (n / 256 ^ k)

/-- The number a little-endian byte list stands for. -/
def leVal (bs : List UInt8) : ℕ := Nat.ofDigits 256 (bs.map UInt8.toNat)

@[simp] theorem le_length (w n : ℕ) : (le w n).length = w := by simp [le]

@[simp] theorem leVal_nil : leVal [] = 0 := rfl

theorem leVal_cons (b : UInt8) (bs : List UInt8) : leVal (b :: bs) = b.toNat + 256 * leVal bs := by
  simp [leVal, Nat.ofDigits_cons]

theorem le_succ (w n : ℕ) : le (w + 1) n = UInt8.ofNat n :: le w (n / 256) := by
  simp only [le, List.range_succ_eq_map, List.map_cons, List.map_map, pow_zero, Nat.div_one]
  congr 1
  apply List.map_congr_left
  intro k _
  simp [Nat.div_div_eq_div_mul, pow_succ, Nat.mul_comm]

/-- Decoding `w` encoded bytes gives the value modulo `256 ^ w`. -/
theorem leVal_le (w n : ℕ) : leVal (le w n) = n % 256 ^ w := by
  induction w generalizing n with
  | zero => simp [le, Nat.mod_one]
  | succ w ih =>
    rw [le_succ, leVal_cons, ih, pow_succ', Nat.mod_mul]
    simp

theorem leVal_lt (bs : List UInt8) : leVal bs < 256 ^ bs.length := by
  induction bs with
  | nil => simp
  | cons b bs ih =>
    have hb : b.toNat < 256 := b.toNat_lt
    rw [leVal_cons, List.length_cons, pow_succ']
    omega

/-- A number has one encoding of each width. -/
theorem leVal_inj {bs cs : List UInt8} (hl : bs.length = cs.length) (h : leVal bs = leVal cs) :
    bs = cs := by
  induction bs generalizing cs with
  | nil => exact (List.length_eq_zero_iff.mp hl.symm).symm
  | cons b bs ih =>
    obtain ⟨c, cs, rfl⟩ := List.exists_cons_of_length_pos (show 0 < cs.length by simp [← hl])
    have hb : b.toNat < 256 := b.toNat_lt
    have hc : c.toNat < 256 := c.toNat_lt
    rw [leVal_cons, leVal_cons] at h
    rw [show b = c from UInt8.toNat_inj.mp (by omega), ih (by simpa using hl) (by omega)]

theorem leVal_le_of_lt {w n : ℕ} (h : n < 256 ^ w) : leVal (le w n) = n := by
  rw [leVal_le, Nat.mod_eq_of_lt h]

namespace Mem

/-- The little-endian word of `w` bytes at `a`. -/
def word (m : Mem) (a w : ℕ) : ℕ := leVal (m.read a w)

/-- A word inside a range that holds a known byte string. -/
theorem word_of_read {m : Mem} {a n off w : ℕ} {bs : List UInt8} (h : m.read a n = bs)
    (hn : off + w ≤ n) : m.word (a + off) w = leVal ((bs.drop off).take w) := by
  subst h
  rw [word]
  congr 1
  obtain ⟨k, rfl⟩ := Nat.exists_eq_add_of_le hn
  rw [read_add, read_add, List.append_assoc, List.drop_left' (by simp), List.take_left' (by simp)]

end Mem

end HMP
