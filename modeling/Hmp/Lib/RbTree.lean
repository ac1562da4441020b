import Mathlib.Algebra.Ring.Nat
import Mathlib.Data.Nat.Log
import Mathlib.Data.Nat.Notation
import Mathlib.Tactic.Tauto

/-! Red-black trees over any elements. No order of the elements is assumed: a tree stands for the
list of its elements from left to right. The work of an insertion or a removal is done on a tree
with a hole, a list of frames from the hole up to the root. Left and right are one case: `fork d`
is a node whose child on side `d` comes first. -/

namespace HMP

inductive Side
  | left | right
  deriving DecidableEq

inductive Color
  | red | black
  deriving DecidableEq

namespace Side

def other : Side → Side
  | left => right
  | right => left

@[simp] theorem other_other (d : Side) : d.other.other = d := by cases d <;> rfl

@[simp] theorem other_ne (d : Side) : d.other ≠ d := by cases d <;> decide

@[simp] theorem ne_other (d : Side) : d ≠ d.other := by cases d <;> decide

theorem eq_other_of_ne {d e : Side} (h : d ≠ e) : d = e.other := by
  cases d <;> cases e <;> first | rfl | exact absurd rfl h

/-- The last element of a list on a side. -/
def extreme {α : Type} (d : Side) (l : List α) : Option α :=
  match d with
  | left => l.head?
  | right => l.getLast?

end Side

theorem Color.eq_black_iff {c : Color} : c = .black ↔ c ≠ .red := by cases c <;> decide

inductive RbTree (α : Type)
  | nil
  | node (c : Color) (l : RbTree α) (a : α) (r : RbTree α)
  deriving DecidableEq

/-- A node above a hole: the side where the hole is, and the subtree on the other side. -/
structure RbFrame (α : Type) where
  side : Side
  color : Color
  elem : α
  sib : RbTree α

namespace RbTree

variable {α : Type}

/-- `near` is the child on side `d`. -/
def fork : Side → Color → RbTree α → α → RbTree α → RbTree α
  | .left, c, near, a, far => node c near a far
  | .right, c, near, a, far => node c far a near

/-- What `fork d` puts together. -/
def view : Side → RbTree α → Option (Color × RbTree α × α × RbTree α)
  | _, nil => none
  | .left, node c l a r => some (c, l, a, r)
  | .right, node c l a r => some (c, r, a, l)

def toList : RbTree α → List α
  | nil => []
  | node _ l a r => toList l ++ a :: toList r

def size : RbTree α → ℕ
  | nil => 0
  | node _ l _ r => size l + size r + 1

def height : RbTree α → ℕ
  | nil => 0
  | node _ l _ r => max (height l) (height r) + 1

/-- An empty tree counts as black. -/
def color : RbTree α → Color
  | nil => .black
  | node c _ _ _ => c

def blacken : RbTree α → RbTree α
  | nil => nil
  | node _ l a r => node .black l a r

@[simp] theorem color_fork (d : Side) (c : Color) (t : RbTree α) (a : α) (u : RbTree α) :
    (fork d c t a u).color = c := by cases d <;> rfl

@[simp] theorem blacken_fork (d : Side) (c : Color) (t : RbTree α) (a : α) (u : RbTree α) :
    (fork d c t a u).blacken = fork d .black t a u := by cases d <;> rfl

@[simp] theorem view_fork (d : Side) (c : Color) (t : RbTree α) (a : α) (u : RbTree α) :
    view d (fork d c t a u) = some (c, t, a, u) := by cases d <;> rfl

@[simp] theorem color_blacken (t : RbTree α) : t.blacken.color = .black := by cases t <;> rfl

@[simp] theorem toList_blacken (t : RbTree α) : t.blacken.toList = t.toList := by cases t <;> rfl

@[simp] theorem size_fork (d : Side) (c : Color) (t : RbTree α) (a : α) (u : RbTree α) :
    (fork d c t a u).size = t.size + u.size + 1 := by
  cases d
  · rfl
  · exact congrArg (· + 1) (Nat.add_comm ..)

@[simp] theorem height_fork (d : Side) (c : Color) (t : RbTree α) (a : α) (u : RbTree α) :
    (fork d c t a u).height = max t.height u.height + 1 := by
  cases d
  · rfl
  · exact congrArg (· + 1) (max_comm ..)

@[simp] theorem fork_ne_nil {d : Side} {c : Color} {t : RbTree α} {a : α} {u : RbTree α} :
    fork d c t a u ≠ nil := by cases d <;> simp [fork]

theorem fork_other (d : Side) (c : Color) (t : RbTree α) (a : α) (u : RbTree α) :
    fork d.other c t a u = fork d c u a t := by cases d <;> rfl

/-- The induction on trees, seen from one side. -/
theorem nil_or_fork (d : Side) (t : RbTree α) : t = nil ∨ ∃ c u a v, t = fork d c u a v := by
  cases t with
  | nil => exact .inl rfl
  | node c l a r => cases d with
    | left => exact .inr ⟨c, l, a, r, rfl⟩
    | right => exact .inr ⟨c, r, a, l, rfl⟩

/-- Colours do not matter for the elements. -/
theorem toList_fork_congr {t t' u u' : RbTree α} (ht : t.toList = t'.toList)
    (hu : u.toList = u'.toList) (d : Side) (c c' : Color) (a : α) :
    (fork d c t a u).toList = (fork d c' t' a u').toList := by
  cases d <;> simp [fork, toList, ht, hu]

/-- A rotation. -/
theorem toList_rotate (d : Side) (c₁ c₂ c₃ c₄ : Color) (t u v : RbTree α) (a b : α) :
    (fork d c₁ (fork d c₂ t a u) b v).toList = (fork d c₃ t a (fork d c₄ u b v)).toList := by
  cases d <;> simp [fork, toList]

/-- Without repetition, no element is on both sides. -/
theorem notMem_of_nodup {d : Side} {c : Color} {t u : RbTree α} {a b : α}
    (h : (fork d c t a u).toList.Nodup) (hb : b ∈ t.toList) : b ∉ u.toList := by
  intro hu
  cases d with
  | left =>
    exact (List.nodup_append.mp h).2.2 b hb b (List.mem_cons_of_mem a hu) rfl
  | right =>
    exact (List.nodup_append.mp h).2.2 b hu b (List.mem_cons_of_mem a hb) rfl

theorem elem_notMem_of_nodup {d : Side} {c : Color} {t u : RbTree α} {a : α}
    (h : (fork d c t a u).toList.Nodup) : a ∉ t.toList := by
  intro ha
  cases d with
  | left => exact (List.nodup_append.mp h).2.2 a ha a List.mem_cons_self rfl
  | right => exact (List.nodup_cons.mp (List.nodup_append.mp h).2.1).1 ha

theorem length_toList (t : RbTree α) : t.toList.length = t.size := by
  induction t with
  | nil => rfl
  | node c l a r ihl ihr => simp [toList, size, ihl, ihr]; omega

/-! ## Trees with a hole -/

/-- Puts `t` into the hole. -/
def fill : RbTree α → List (RbFrame α) → RbTree α
  | t, [] => t
  | t, f :: π => fill (fork f.side f.color t f.elem f.sib) π

/-- The elements to the left of the hole. -/
def before : List (RbFrame α) → List α
  | [] => []
  | f :: π => before π ++ match f.side with
    | .left => []
    | .right => f.sib.toList ++ [f.elem]

def after : List (RbFrame α) → List α
  | [] => []
  | f :: π => (match f.side with
    | .left => f.elem :: f.sib.toList
    | .right => []) ++ after π

@[simp] theorem fill_nil (t : RbTree α) : t.fill [] = t := rfl

theorem fill_cons (t : RbTree α) (f : RbFrame α) (π : List (RbFrame α)) :
    t.fill (f :: π) = (fork f.side f.color t f.elem f.sib).fill π := rfl

theorem fill_append (t : RbTree α) (σ π : List (RbFrame α)) :
    t.fill (σ ++ π) = (t.fill σ).fill π := by
  induction σ generalizing t with
  | nil => rfl
  | cons f σ ih => exact ih _

theorem toList_fill (t : RbTree α) (π : List (RbFrame α)) :
    (t.fill π).toList = before π ++ t.toList ++ after π := by
  induction π generalizing t with
  | nil => simp [before, after]
  | cons f π ih =>
    rw [fill_cons, ih]
    cases hd : f.side <;> simp [before, after, fork, toList, hd]

theorem before_append (σ π : List (RbFrame α)) : before (σ ++ π) = before π ++ before σ := by
  induction σ with
  | nil => simp [before]
  | cons f σ ih => simp [before, ih]

theorem after_append (σ π : List (RbFrame α)) : after (σ ++ π) = after σ ++ after π := by
  induction σ with
  | nil => rfl
  | cons f σ ih => simp [after, ih]

/-- There is nothing to the left of a way that only goes left. -/
theorem before_of_left {σ : List (RbFrame α)} (h : ∀ f ∈ σ, f.side = .left) : before σ = [] := by
  induction σ with
  | nil => rfl
  | cons f σ ih =>
    rw [before, ih fun g hg => h g (List.mem_cons_of_mem _ hg), h f List.mem_cons_self]
    rfl

/-- Trees with the same elements are exchangeable in a hole. -/
theorem toList_fill_congr {t u : RbTree α} (h : t.toList = u.toList) (π : List (RbFrame α)) :
    (t.fill π).toList = (u.fill π).toList := by rw [toList_fill, toList_fill, h]

theorem add_height_le_height_fill (t : RbTree α) (π : List (RbFrame α)) :
    π.length + t.height ≤ (t.fill π).height := by
  induction π generalizing t with
  | nil => simp
  | cons f π ih =>
    have := ih (fork f.side f.color t f.elem f.sib)
    rw [height_fork] at this
    rw [fill_cons, List.length_cons]
    omega

/-- The elements beyond a hole on a side. -/
def beyond (d : Side) (π : List (RbFrame α)) : List α :=
  match d with
  | .left => before π
  | .right => after π

/-- The elements of a tree and those beyond it. -/
def outTo (d : Side) (t : RbTree α) (π : List (RbFrame α)) : List α :=
  match d with
  | .left => before π ++ t.toList
  | .right => t.toList ++ after π

theorem extreme_fork_nil (d : Side) (c : Color) (a : α) (u : RbTree α) :
    d.extreme (fork d c nil a u).toList = some a := by
  cases d <;> simp [Side.extreme, fork, toList]

theorem exists_extreme {t : RbTree α} (h : t ≠ nil) (d : Side) :
    ∃ b, d.extreme t.toList = some b := by
  have hne : t.toList ≠ [] := by
    cases t with
    | nil => exact absurd rfl h
    | node c l a r => simp [toList]
  cases d with
  | left => exact Option.isSome_iff_exists.mp (List.isSome_head?.mpr hne)
  | right => exact Option.isSome_iff_exists.mp (List.getLast?_isSome.mpr hne)

theorem extreme_fork {t : RbTree α} (h : t ≠ nil) (d : Side) (c : Color) (a : α) (u : RbTree α) :
    d.extreme (fork d c t a u).toList = d.extreme t.toList := by
  obtain ⟨b, hb⟩ := exists_extreme h d
  rw [hb]
  cases d <;> simp_all [Side.extreme, fork, toList, List.getLast?_cons]

/-- The first element beyond a hole is the first node above that hangs the other way. -/
theorem extreme_beyond (d : Side) (π : List (RbFrame α)) :
    d.other.extreme (beyond d π) = (π.find? fun f => f.side ≠ d).map (·.elem) := by
  induction π with
  | nil => cases d <;> rfl
  | cons f π ih =>
    cases d <;> cases hf : f.side <;>
      simp_all [Side.extreme, Side.other, beyond, before, after]

/-- Seen from a node, the nearest element on a side is in its subtree there, if it has one. -/
theorem extreme_outTo {t : RbTree α} (h : t ≠ nil) (d : Side) (π : List (RbFrame α)) :
    d.other.extreme (outTo d t π) = d.other.extreme t.toList := by
  obtain ⟨b, hb⟩ := exists_extreme h d.other
  rw [hb]
  cases d <;> simp_all [Side.extreme, Side.other, outTo]

theorem outTo_nil (d : Side) (π : List (RbFrame α)) : outTo d nil π = beyond d π := by
  cases d <;> simp [outTo, beyond, toList]

/-- Every element is somewhere. -/
theorem exists_fill_of_mem {t : RbTree α} {a : α} (h : a ∈ t.toList) :
    ∃ c l r π, t = (node c l a r).fill π := by
  induction t with
  | nil => cases h
  | node c l b r ihl ihr =>
    rw [toList, List.mem_append, List.mem_cons] at h
    obtain h | rfl | h := h
    · obtain ⟨c', l', r', π, rfl⟩ := ihl h
      exact ⟨c', l', r', π ++ [⟨.left, c, b, r⟩], by rw [fill_append]; rfl⟩
    · exact ⟨c, l, r, [], rfl⟩
    · obtain ⟨c', l', r', π, rfl⟩ := ihr h
      exact ⟨c', l', r', π ++ [⟨.right, c, b, l⟩], by rw [fill_append]; rfl⟩

/-! ## Balance -/

/-- No red node has a red child, and every way down goes through `n` black nodes. -/
def Bal : RbTree α → ℕ → Prop
  | nil, n => n = 0
  | node .red l _ r, n => l.color = .black ∧ r.color = .black ∧ Bal l n ∧ Bal r n
  | node .black l _ r, n + 1 => Bal l n ∧ Bal r n
  | node .black _ _ _, 0 => False

def IsRb (t : RbTree α) : Prop := t.color = .black ∧ ∃ n, t.Bal n

/-- A hole below which a red root is allowed. -/
def TakesRed : List (RbFrame α) → Prop
  | [] => False
  | f :: _ => f.color = .black

/-- A tree with black height `n` is missing. -/
def HoleBal : List (RbFrame α) → ℕ → Prop
  | [], _ => True
  | f :: π, n => match f.color with
    | .red => f.sib.color = .black ∧ f.sib.Bal n ∧ TakesRed π ∧ HoleBal π n
    | .black => f.sib.Bal n ∧ HoleBal π (n + 1)

@[simp] theorem bal_nil {n : ℕ} : (nil : RbTree α).Bal n ↔ n = 0 := .rfl

@[simp] theorem bal_red {d : Side} {t : RbTree α} {a : α} {u : RbTree α} {n : ℕ} :
    (fork d .red t a u).Bal n ↔ t.color = .black ∧ u.color = .black ∧ t.Bal n ∧ u.Bal n := by
  cases d <;> simp only [fork, Bal]
  tauto

@[simp] theorem bal_black {d : Side} {t : RbTree α} {a : α} {u : RbTree α} {n : ℕ} :
    (fork d .black t a u).Bal (n + 1) ↔ t.Bal n ∧ u.Bal n := by
  cases d <;> simp only [fork, Bal]
  tauto

theorem exists_of_bal_black {d : Side} {t : RbTree α} {a : α} {u : RbTree α} {n : ℕ}
    (h : (fork d .black t a u).Bal n) : ∃ m, n = m + 1 ∧ t.Bal m ∧ u.Bal m := by
  cases n with
  | zero => cases d <;> exact h.elim
  | succ m => exact ⟨m, rfl, bal_black.mp h⟩

/-- A red root made black adds one to the black height. -/
theorem Bal.blacken {t : RbTree α} {n : ℕ} (h : t.Bal n) (hc : t.color = .red) :
    t.blacken.Bal (n + 1) := by
  obtain rfl | ⟨c, u, a, v, rfl⟩ := nil_or_fork .left t
  · cases hc
  · obtain rfl : c = .red := by simpa using hc
    rw [blacken_fork, bal_black]
    exact (bal_red.mp h).2.2

theorem blacken_of_black {t : RbTree α} (h : t.color = .black) : t.blacken = t := by
  cases t with
  | nil => rfl
  | node c l a r =>
    obtain rfl : c = .black := h
    rfl

theorem Bal.isRb_blacken {t : RbTree α} {n : ℕ} (h : t.Bal n) : t.blacken.IsRb := by
  refine ⟨color_blacken t, ?_⟩
  cases hc : t.color with
  | red => exact ⟨_, h.blacken hc⟩
  | black => exact ⟨n, (blacken_of_black hc).symm ▸ h⟩

theorem IsRb.blacken {t : RbTree α} (h : t.IsRb) : t.blacken.IsRb :=
  (blacken_of_black h.1).symm ▸ h

/-- What a tree with a hole needs, and what it gives. -/
theorem isRb_fill {t : RbTree α} {π : List (RbFrame α)} :
    (t.fill π).IsRb ↔ ∃ n, t.Bal n ∧ HoleBal π n ∧ (t.color = .red → TakesRed π) := by
  induction π generalizing t with
  | nil =>
    rw [fill_nil, IsRb, Color.eq_black_iff]
    constructor
    · rintro ⟨hc, n, hn⟩
      exact ⟨n, hn, trivial, hc⟩
    · rintro ⟨n, hn, -, hc⟩
      exact ⟨hc, n, hn⟩
  | cons f π ih =>
    rw [fill_cons, ih, color_fork]
    simp only [TakesRed, HoleBal]
    cases hc : f.color with
    | red =>
      constructor
      · rintro ⟨n, hn, hπ, hr⟩
        obtain ⟨ht, hs, hn, hsn⟩ := bal_red.mp hn
        exact ⟨n, hn, ⟨hs, hsn, hr rfl, hπ⟩, fun h => by simp [ht] at h⟩
      · rintro ⟨n, hn, ⟨hs, hsn, hr, hπ⟩, ht⟩
        have ht' : t.color = .black := Color.eq_black_iff.mpr fun h => by cases ht h
        exact ⟨n, bal_red.mpr ⟨ht', hs, hn, hsn⟩, hπ, fun _ => hr⟩
    | black =>
      constructor
      · rintro ⟨n, hn, hπ, -⟩
        obtain ⟨m, rfl, hm, hsm⟩ := exists_of_bal_black hn
        exact ⟨m, hm, ⟨hsm, hπ⟩, fun _ => rfl⟩
      · rintro ⟨n, hn, ⟨hsn, hπ⟩, -⟩
        exact ⟨n + 1, bal_black.mpr ⟨hn, hsn⟩, hπ, nofun⟩

/-- The elements do not matter for the balance. -/
theorem holeBal_elem {σ π : List (RbFrame α)} {d : Side} {c : Color} {a b : α} {u : RbTree α}
    {n : ℕ} (h : HoleBal (σ ++ ⟨d, c, a, u⟩ :: π) n) : HoleBal (σ ++ ⟨d, c, b, u⟩ :: π) n := by
  induction σ generalizing n with
  | nil => exact h
  | cons f σ ih =>
    simp only [List.cons_append, HoleBal] at h ⊢
    cases hf : f.color with
    | red =>
      simp only [hf] at h
      refine ⟨h.1, h.2.1, ?_, ih h.2.2.2⟩
      cases σ <;> exact h.2.2.1
    | black =>
      simp only [hf] at h
      exact ⟨h.1, ih h.2⟩

theorem isRb_fill_elem {t : RbTree α} {σ π : List (RbFrame α)} {d : Side} {c : Color} {a b : α}
    {u : RbTree α} (h : (t.fill (σ ++ ⟨d, c, a, u⟩ :: π)).IsRb) :
    (t.fill (σ ++ ⟨d, c, b, u⟩ :: π)).IsRb := by
  obtain ⟨n, ht, hπ, hr⟩ := isRb_fill.mp h
  refine isRb_fill.mpr ⟨n, ht, holeBal_elem hπ, fun hc => ?_⟩
  have := hr hc
  cases σ <;> exact this

theorem isRb_fill_node {c : Color} {l r : RbTree α} {a b : α} {π : List (RbFrame α)}
    (h : ((node c l a r).fill π).IsRb) : ((node c l b r).fill π).IsRb := by
  obtain ⟨n, hn, hπ⟩ := isRb_fill.mp h
  refine isRb_fill.mpr ⟨n, ?_, hπ⟩
  cases c <;> cases n <;> exact hn

/-! ## Height -/

theorem Bal.two_pow_le {t : RbTree α} {n : ℕ} (h : t.Bal n) : 2 ^ n ≤ t.size + 1 := by
  induction t generalizing n with
  | nil => simp_all [size]
  | node c l a r ihl ihr =>
    cases c with
    | red =>
      obtain ⟨-, -, hl, -⟩ := h
      have := ihl hl
      simp only [size]
      omega
    | black =>
      obtain ⟨m, rfl, hl, hr⟩ := exists_of_bal_black (d := .left) h
      have hl' := ihl hl
      have hr' := ihr hr
      simp only [size, pow_succ]
      omega

theorem Bal.height_le {t : RbTree α} {n : ℕ} (h : t.Bal n) :
    t.height ≤ 2 * n + if t.color = .red then 1 else 0 := by
  induction t generalizing n with
  | nil => simp [height]
  | node c l a r ihl ihr =>
    cases c with
    | red =>
      obtain ⟨hlc, hrc, hl, hr⟩ := h
      have hl' := ihl hl
      have hr' := ihr hr
      simp only [hlc, hrc, reduceCtorEq, if_false] at hl' hr'
      simp only [height, color, if_true]
      omega
    | black =>
      obtain ⟨m, rfl, hl, hr⟩ := exists_of_bal_black (d := .left) h
      have hl' := ihl hl
      have hr' := ihr hr
      simp only [height, color, reduceCtorEq, if_false]
      split_ifs at hl' hr' <;> omega

/-- The height is logarithmic in the number of elements. -/
theorem IsRb.height_le {t : RbTree α} (h : t.IsRb) : t.height ≤ 2 * Nat.log 2 (t.size + 1) := by
  obtain ⟨hc, n, hn⟩ := h
  have hh := hn.height_le
  rw [if_neg (by simp [hc])] at hh
  have hlog : n ≤ Nat.log 2 (t.size + 1) := Nat.le_log_of_pow_le (by omega) hn.two_pow_le
  omega

end RbTree

end HMP
