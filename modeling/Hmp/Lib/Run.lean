import Mathlib.Data.Nat.Notation
import Mathlib.Logic.Function.Iterate
import Mathlib.Logic.Relation

/-! Guarded executable transition systems: `step s e` is `some s'` when event
`e` is enabled in `s`. A run is taken under a condition on its steps, so that
one induction rule serves both the runs of a system and the runs in which some
branch is never taken. -/

namespace HMP

structure Sys (σ ε : Type) where
  init : σ → Prop
  step : σ → ε → Option σ

namespace Sys

variable {σ ε : Type} (S : Sys σ ε)

/-- Runs from `s` whose steps are all taken where `ok` allows them. -/
inductive Run (ok : σ → ε → Prop) (s : σ) : σ → Prop
  | nil : Run ok s s
  | snoc {s₁ s₂ : σ} {e : ε} : Run ok s s₁ → ok s₁ e → S.step s₁ e = some s₂ → Run ok s s₂

/-- No condition on the steps. -/
def Always (_ : σ) (_ : ε) : Prop := True

/-- States reached from an initial state by steps that `ok` allows. -/
def Reach (ok : σ → ε → Prop) (s : σ) : Prop := ∃ s₀, S.init s₀ ∧ S.Run ok s₀ s

/-- No event in `E` is enabled. -/
def Stuck (E : ε → Prop) (s : σ) : Prop := ∀ e, E e → S.step s e = none

variable {S} {ok : σ → ε → Prop}

theorem Run.trans {s s₁ s₂ : σ} (h₁ : S.Run ok s s₁) (h₂ : S.Run ok s₁ s₂) : S.Run ok s s₂ := by
  induction h₂ with
  | nil => exact h₁
  | snoc _ hok hs ih => exact ih.snoc hok hs

theorem Run.weaken {ok' : σ → ε → Prop} (hw : ∀ s e, ok s e → ok' s e) {s s' : σ}
    (h : S.Run ok s s') : S.Run ok' s s' := by
  induction h with
  | nil => exact .nil
  | snoc _ hok hs ih => exact ih.snoc (hw _ _ hok) hs

/-- A property kept by every allowed step is kept by every allowed run. -/
theorem Run.keeps {I : σ → Prop}
    (hstep : ∀ s e s', I s → ok s e → S.step s e = some s' → I s') {s s' : σ}
    (h : S.Run ok s s') (hs : I s) : I s' := by
  induction h with
  | nil => exact hs
  | snoc _ hok hst ih => exact hstep _ _ _ ih hok hst

/-- The induction rule for invariants. -/
theorem Reach.inv {I : σ → Prop} (h0 : ∀ s, S.init s → I s)
    (hstep : ∀ s e s', I s → ok s e → S.step s e = some s' → I s') {s : σ}
    (h : S.Reach ok s) : I s := by
  obtain ⟨s₀, hi, hr⟩ := h
  exact hr.keeps hstep (h0 _ hi)

/-- A step property that holds under an invariant holds along a run from a reachable state. -/
theorem Run.keeps_of_inv {I J : σ → Prop}
    (hinv : ∀ s e s', I s → ok s e → S.step s e = some s' → I s')
    (hstep : ∀ s e s', I s → J s → ok s e → S.step s e = some s' → J s') {s s' : σ}
    (h : S.Run ok s s') (hI : I s) (hJ : J s) : J s' :=
  (h.keeps (I := fun x => I x ∧ J x)
    (fun _ _ _ hx hok hst => ⟨hinv _ _ _ hx.1 hok hst, hstep _ _ _ hx.1 hx.2 hok hst⟩)
    ⟨hI, hJ⟩).2

instance (s : σ) (e : ε) : Decidable (Always s e) := .isTrue trivial

variable (S) (ok) in
/-- No step that `ok` allows is enabled. -/
def Halted (s : σ) : Prop := ∀ e, ok s e → S.step s e = none

variable (S) (ok) in
/-- The states of a run that goes on as long as `ok` allows a step. -/
def Follows (f : ℕ → σ) : Prop :=
  ∀ n, (∃ e, ok (f n) e ∧ S.step (f n) e = some (f (n + 1))) ∨
    S.Halted ok (f n) ∧ f (n + 1) = f n

theorem Follows.tail {f : ℕ → σ} (h : S.Follows ok f) : S.Follows ok fun n => f (n + 1) :=
  fun n => h (n + 1)

theorem Follows.rest {f : ℕ → σ} (h : S.Follows ok f) {n m : ℕ} (h0 : S.Halted ok (f n))
    (hm : n ≤ m) : f m = f n := by
  induction hm with
  | refl => rfl
  | @step m _ ih =>
    rcases h m with ⟨e, he, hst⟩ | ⟨-, hn⟩
    · rw [ih, h0 e (ih ▸ he)] at hst
      cases hst
    · rw [hn, ih]

theorem Follows.run {f : ℕ → σ} (h : S.Follows ok f) (n : ℕ) : S.Run ok (f 0) (f n) := by
  induction n with
  | zero => exact .nil
  | succ n ih =>
    rcases h n with ⟨e, he, hst⟩ | ⟨-, hn⟩
    · exact ih.snoc he hst
    · rwa [hn]

open Classical in
variable (S) (ok) in
/-- From every state a run goes on as long as it can. -/
theorem exists_follows (s : σ) : ∃ f : ℕ → σ, f 0 = s ∧ S.Follows ok f := by
  let next : σ → σ := fun s =>
    if h : ∃ s' e, ok s e ∧ S.step s e = some s' then h.choose else s
  refine ⟨fun n => next^[n] s, rfl, fun n => ?_⟩
  simp only [Function.iterate_succ_apply']
  generalize next^[n] s = x
  by_cases h : ∃ s' e, ok x e ∧ S.step x e = some s'
  · refine .inl ?_
    rw [show next x = h.choose from dif_pos h]
    exact h.choose_spec
  · refine .inr ⟨fun e he => ?_, dif_neg h⟩
    rw [Option.eq_none_iff_forall_ne_some]
    exact fun s' hs => h ⟨s', e, he, hs⟩

theorem Follows.cons {s : σ} {e : ε} {f : ℕ → σ} (h : S.Follows ok f) (hok : ok s e)
    (hs : S.step s e = some (f 0)) : S.Follows ok (Nat.rec s fun n _ => f n) := by
  intro n
  cases n with
  | zero => exact .inl ⟨e, hok, hs⟩
  | succ n => exact h n

/-- A run is the beginning of one that goes on. -/
theorem Run.exists_follows {s s' : σ} (h : S.Run ok s s') :
    ∃ f : ℕ → σ, f 0 = s ∧ S.Follows ok f ∧ ∃ n, f n = s' := by
  obtain ⟨g, h0, hg⟩ := S.exists_follows ok s'
  suffices hf : ∃ f : ℕ → σ, f 0 = s ∧ S.Follows ok f ∧ ∃ n, ∀ m, f (n + m) = g m by
    obtain ⟨f, hf0, hf, n, hn⟩ := hf
    exact ⟨f, hf0, hf, n, (hn 0).trans h0⟩
  induction h generalizing g with
  | nil => exact ⟨g, h0, hg, 0, fun m => by rw [Nat.zero_add]⟩
  | snoc _ hok hs ih =>
    obtain ⟨f, hf0, hf, n, hn⟩ := ih _ rfl (hg.cons hok (h0 ▸ hs))
    refine ⟨f, hf0, hf, n + 1, fun m => ?_⟩
    rw [Nat.add_right_comm]
    exact hn (m + 1)

/-- The rule for termination: a number that every allowed step makes smaller bounds the steps of
a run, and the state that the run stays in has the invariant. -/
theorem Follows.halts {I : σ → Prop} {μ : σ → ℕ}
    (hinv : ∀ s e s', I s → ok s e → S.step s e = some s' → I s')
    (hdec : ∀ s e s', I s → ok s e → S.step s e = some s' → μ s' < μ s) {f : ℕ → σ}
    (h : S.Follows ok f) (h0 : I (f 0)) :
    ∃ n ≤ μ (f 0), I (f n) ∧ S.Halted ok (f n) ∧ ∀ m ≥ n, f m = f n := by
  generalize hk : μ (f 0) = k
  induction k using Nat.strongRecOn generalizing f with
  | ind k ih =>
    subst hk
    rcases h 0 with ⟨e, he, hst⟩ | ⟨hhalt, -⟩
    · have hlt := hdec _ _ _ h0 he hst
      obtain ⟨n, hn, hI, hhalt, hrest⟩ := ih _ hlt h.tail (hinv _ _ _ h0 he hst) rfl
      refine ⟨n + 1, by omega, hI, hhalt, fun m hm => ?_⟩
      obtain ⟨m, rfl⟩ := Nat.exists_eq_succ_of_ne_zero (show m ≠ 0 by omega)
      exact hrest m (by omega)
    · exact ⟨0, Nat.zero_le _, h0, hhalt, fun m _ => h.rest hhalt (Nat.zero_le m)⟩

variable (S) (ok) in
/-- Replays a list of events, checking the condition at every step. -/
def replay [∀ s e, Decidable (ok s e)] : σ → List ε → Option σ
  | s, [] => some s
  | s, e :: es => if ok s e then (S.step s e).bind fun s' => replay s' es else none

theorem replay_run [∀ s e, Decidable (ok s e)] :
    ∀ (es : List ε) {s s' : σ}, S.replay ok s es = some s' → S.Run ok s s' := by
  intro es
  induction es with
  | nil =>
    intro s s' h
    obtain rfl : s = s' := by simpa [replay] using h
    exact .nil
  | cons e es ih =>
    intro s s' h
    simp only [replay, Option.ite_none_right_eq_some] at h
    obtain ⟨hok, hb⟩ := h
    obtain ⟨s₁, hs₁, hr⟩ := Option.bind_eq_some_iff.mp hb
    exact (Run.nil.snoc hok hs₁).trans (ih hr)

variable (S) (ok) in
/-- A replayed run that ends in a state with `p`. -/
theorem exists_run_of_replay [∀ s e, Decidable (ok s e)] (s : σ) (es : List ε) {p : σ → Prop}
    (h : ∃ s' ∈ S.replay ok s es, p s') : ∃ s', S.Run ok s s' ∧ p s' := by
  obtain ⟨s', hs, hp⟩ := h
  exact ⟨s', replay_run es hs, hp⟩

end Sys

end HMP
