import Mathlib.Algebra.Group.Nat.Defs
import Mathlib.Data.Nat.Notation
import Mathlib.Logic.Function.Basic

/-! The operations that mix the bits of a word lose none of them: each is a bijection of the words,
and so is a hash as a function of one word of its input. -/

namespace HMP

variable {w s r : ℕ}

/-- The bits are found from the highest down. -/
theorem xorShift_injective (hs : 0 < s) :
    Function.Injective fun x : BitVec w => x ^^^ (x >>> s) := by
  intro x y h
  have hbit : ∀ i, (x.getLsbD i ^^ x.getLsbD (s + i)) = (y.getLsbD i ^^ y.getLsbD (s + i)) := by
    intro i
    simpa using congrArg (fun z => z.getLsbD i) h
  have hall : ∀ k i, w ≤ i + k → x.getLsbD i = y.getLsbD i := by
    intro k
    induction k with
    | zero =>
      intro i hi
      rw [BitVec.getLsbD_of_ge x i hi, BitVec.getLsbD_of_ge y i hi]
    | succ k ih =>
      intro i hi
      have hhigh := ih (s + i) (by omega)
      have hi := hbit i
      rw [hhigh] at hi
      simpa using hi
  exact BitVec.eq_of_getLsbD_eq fun i _ => hall w i (by omega)

theorem rotateRight_rotateLeft (x : BitVec w) (hr : r < w) : (x.rotateLeft r).rotateRight r = x := by
  refine BitVec.eq_of_getLsbD_eq fun i hi => ?_
  rw [BitVec.getLsbD_rotateRight_of_lt hr]
  by_cases h : i < w - r
  · have h₁ : ¬ r + i < r := by omega
    simp only [h, decide_true, cond_true, BitVec.getLsbD_rotateLeft_of_le hr, h₁, decide_false,
      cond_false, Nat.add_sub_cancel_left]
    simp [show r + i < w by omega]
  · have h₁ : i - (w - r) < r := by omega
    simp only [h, decide_false, cond_false, BitVec.getLsbD_rotateLeft_of_le hr, h₁, decide_true,
      cond_true, hi, Bool.true_and]
    congr 1
    omega

theorem rotateLeft_injective (hr : r < w) :
    Function.Injective fun x : BitVec w => x.rotateLeft r :=
  Function.LeftInverse.injective (g := fun x => x.rotateRight r) fun x => rotateRight_rotateLeft x hr

/-- A factor with an inverse. -/
theorem mul_const_injective {c d : BitVec w} (h : c * d = 1) :
    Function.Injective fun x : BitVec w => x * c := by
  refine Function.LeftInverse.injective (g := fun x => x * d) fun x => ?_
  simp only [BitVec.mul_assoc, h]
  exact BitVec.mul_one x

/-- A shifted word and one that fits below it. -/
theorem shiftLeft_xor_of_lt {a b i : ℕ} (h : a < 2 ^ i) : (b <<< i) ^^^ a = 2 ^ i * b + a := by
  refine Nat.eq_of_testBit_eq fun j => ?_
  rw [Nat.testBit_xor, Nat.testBit_shiftLeft, Nat.testBit_two_pow_mul_add _ h]
  by_cases hj : j < i
  · simp [hj, Nat.not_le.mpr hj]
  · have ha : a.testBit j = false :=
      Nat.testBit_lt_two_pow
        (Nat.lt_of_lt_of_le h (Nat.pow_le_pow_right (by decide) (Nat.le_of_not_lt hj)))
    simp [hj, ha, Nat.le_of_not_lt hj]

/-- Rounds that lose nothing of the accumulator. -/
theorem foldl_injective {α β : Type} {f : α → β → α} (h : ∀ b, Function.Injective fun a => f a b) :
    ∀ bs : List β, Function.Injective fun a => bs.foldl f a := by
  intro bs
  induction bs with
  | nil => exact fun _ _ h => h
  | cons b bs ih =>
    intro x y hxy
    exact h b (ih hxy)

end HMP
