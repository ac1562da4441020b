import Mathlib.Data.Nat.Digits.Lemmas
import Mathlib.Data.List.Induction
import Mathlib.Data.Nat.Log

/-! Decimal numbers as text: `Nat.toDigits 10 n` is the text without leading zeros. -/

namespace HMP

theorem digitChar_sub {c : Char} (h : c.isDigit) : Nat.digitChar (c.toNat - 48) = c := by
  obtain ⟨h0, h9⟩ := Char.isDigit_iff_toNat.mp h
  change 48 ≤ c.toNat at h0
  change c.toNat ≤ 57 at h9
  apply Char.toNat_inj.mp
  rw [Nat.toNat_digitChar_of_lt_ten (by omega)]
  omega

/-- A digit text that does not begin with zero stands for a positive number. -/
theorem ofDigitChars_pos {l : List Char} (hne : l ≠ []) (hd : ∀ c ∈ l, c.isDigit)
    (h0 : l.head? ≠ some '0') : 0 < Nat.ofDigitChars 10 l 0 := by
  obtain ⟨c, cs, rfl⟩ := List.exists_cons_of_ne_nil hne
  have hc : c.toNat ≠ 48 := fun he => h0 (congrArg some (Char.toNat_inj.mp he))
  have hge : 48 ≤ c.toNat := (Char.isDigit_iff_toNat.mp (hd c List.mem_cons_self)).1
  rw [Nat.ofDigitChars_cons, Nat.ofDigitChars_eq_ofDigitChars_zero]
  have hpow : 0 < 10 ^ cs.length := Nat.pow_pos (by decide)
  have hval : 0 < 10 * 0 + (c.toNat - '0'.toNat) := by
    change 0 < 10 * 0 + (c.toNat - 48)
    omega
  exact Nat.add_pos_left (Nat.mul_pos hpow hval) _

/-- A digit text without leading zero is the text of its value. -/
theorem toDigits_ofDigitChars {l : List Char} (hne : l ≠ []) (hd : ∀ c ∈ l, c.isDigit)
    (h0 : l.head? ≠ some '0') : Nat.toDigits 10 (Nat.ofDigitChars 10 l 0) = l := by
  induction l using List.reverseRecOn with
  | nil => exact absurd rfl hne
  | append_singleton l c ih =>
    have hc : c.isDigit := hd c (by simp)
    have hlt : c.toNat - 48 < 10 := by
      have := (Char.isDigit_iff_toNat.mp hc).2
      change c.toNat ≤ 57 at this
      omega
    have hlast : Nat.toDigits 10 (c.toNat - 48) = [c] := by
      rw [Nat.toDigits_of_lt_base hlt, digitChar_sub hc]
    rcases List.eq_nil_or_concat l with rfl | hl
    · simpa [Nat.ofDigitChars_cons] using hlast
    · have hlne : l ≠ [] := by
        obtain ⟨l', b, rfl⟩ := hl
        simp
      have hld : ∀ b ∈ l, b.isDigit := fun b hb => hd b (List.mem_append_left _ hb)
      have hl0 : l.head? ≠ some '0' := by
        obtain ⟨b, l', rfl⟩ := List.exists_cons_of_ne_nil hlne
        exact h0
      calc Nat.toDigits 10 (Nat.ofDigitChars 10 (l ++ [c]) 0)
          = Nat.toDigits 10 (10 * Nat.ofDigitChars 10 l 0 + (c.toNat - 48)) := by
            rw [Nat.ofDigitChars_append, Nat.ofDigitChars_cons, Nat.ofDigitChars_nil]; rfl
        _ = Nat.toDigits 10 (Nat.ofDigitChars 10 l 0) ++ Nat.toDigits 10 (c.toNat - 48) :=
            (Nat.toDigits_append_toDigits (by decide) (ofDigitChars_pos hlne hld hl0) hlt).symm
        _ = l ++ [c] := by rw [ih hlne hld hl0, hlast]

/-- Only zero begins with a zero. -/
theorem eq_zero_of_head?_toDigits {n : ℕ} (h : (Nat.toDigits 10 n).head? = some '0') : n = 0 := by
  induction n using Nat.strong_induction_on with
  | _ n ih =>
    by_cases hn : n < 10
    · simpa [Nat.toDigits_of_lt_base hn] using h
    · have hdiv : n / 10 = 0 := by
        apply ih (n / 10) (by omega)
        obtain ⟨c, cs, hcs⟩ := List.exists_cons_of_ne_nil (Nat.toDigits_ne_nil (n := n / 10) (b := 10))
        rw [Nat.toDigits_of_base_le (by decide) (by omega), hcs] at h
        rw [hcs]
        exact h
      omega

theorem length_toDigits {n : ℕ} (hn : n ≠ 0) : (Nat.toDigits 10 n).length = Nat.log 10 n + 1 := by
  refine le_antisymm ?_ ?_
  · rw [Nat.length_toDigits_le_iff (by decide) (Nat.succ_pos _)]
    exact Nat.lt_pow_succ_log_self (by decide) n
  · by_contra hlt
    have hle := (Nat.length_toDigits_le_iff (by decide) Nat.length_toDigits_pos).mp
      (le_refl (Nat.toDigits 10 n).length)
    have := Nat.log_lt_of_lt_pow hn hle
    omega

/-- A text in front of a number, taken as one number. -/
theorem ofDigitChars_append_toDigits (w : List Char) {n : ℕ} (hn : n ≠ 0) :
    Nat.ofDigitChars 10 (w ++ Nat.toDigits 10 n) 0 =
      Nat.ofDigitChars 10 w 0 * 10 ^ (Nat.log 10 n + 1) + n := by
  rw [Nat.ofDigitChars_append, Nat.ofDigitChars_eq_ofDigitChars_zero,
    Nat.ofDigitChars_ten_toDigits, length_toDigits hn, Nat.mul_comm]

/-- When the text of a number is `w` in front of the text of another one. -/
theorem toDigits_eq_append_iff {n m : ℕ} {w : List Char} (hw : w ≠ []) (hm : m ≠ 0) :
    Nat.toDigits 10 n = w ++ Nat.toDigits 10 m ↔
      (∀ c ∈ w, c.isDigit) ∧ w.head? ≠ some '0' ∧
        n = Nat.ofDigitChars 10 w 0 * 10 ^ (Nat.log 10 m + 1) + m := by
  obtain ⟨b, w', rfl⟩ := List.exists_cons_of_ne_nil hw
  constructor
  · intro h
    have hd : ∀ c ∈ b :: w' ++ Nat.toDigits 10 m, c.isDigit := fun c hc =>
      Nat.isDigit_of_mem_toDigits (by decide) (by decide) (h ▸ hc)
    have hn : n = Nat.ofDigitChars 10 (b :: w' ++ Nat.toDigits 10 m) 0 := by
      rw [← h, Nat.ofDigitChars_ten_toDigits]
    refine ⟨fun c hc => hd c (List.mem_append_left _ hc), fun h0 => ?_, ?_⟩
    · have hzero : n = 0 := eq_zero_of_head?_toDigits (by rw [h]; exact h0)
      have hlen := congrArg List.length h
      simp [hzero] at hlen
    · rw [hn, ofDigitChars_append_toDigits _ hm]
  · rintro ⟨hd, h0, hn⟩
    have hd' : ∀ c ∈ b :: w' ++ Nat.toDigits 10 m, c.isDigit := fun c hc => by
      rcases List.mem_append.mp hc with hc | hc
      · exact hd c hc
      · exact Nat.isDigit_of_mem_toDigits (by decide) (by decide) hc
    rw [hn, ← ofDigitChars_append_toDigits _ hm]
    exact toDigits_ofDigitChars (by simp) hd' h0

end HMP
