import Mathlib.Data.List.Chain
import Mathlib.Data.List.Nodup
import Mathlib.Data.Nat.Notation
import Mathlib.Logic.Function.Basic

/-! Circular doubly linked lists whose links are part of the entries. An entry is its address, and the
list is known by the address of a head that is no entry of it. -/

namespace HMP

/-- The two links of every address. -/
structure ListHeads (α : Type) where
  next : α → α
  prev : α → α

namespace ListHeads

variable {α : Type} [DecidableEq α] (L : ListHeads α)

/-- An empty list at `p`. -/
def initListHead (p : α) : ListHeads α :=
  { next := Function.update L.next p p, prev := Function.update L.prev p p }

/-- Puts `new` between two consecutive entries, by four assignments. -/
def link (new prev next : α) : ListHeads α :=
  { next := Function.update (Function.update L.next new next) prev new
    prev := Function.update (Function.update L.prev next new) new prev }

def listAdd (new head : α) : ListHeads α := L.link new head (L.next head)

def listAddTail (new head : α) : ListHeads α := L.link new (L.prev head) head

def listEmpty (head : α) : Bool := L.next head = head

/-- A walk from `p` to the head that ends at the first entry with `test`. `none`: `fuel` is used up
before the walk ends. -/
def find (head : α) (test : α → Bool) : (fuel : ℕ) → (p : α) → Option (Option α)
  | 0, _ => none
  | fuel + 1, p =>
    if p = head then some none
    else if test p then some (some p)
    else find head test fuel (L.next p)

/-- The entries that a walk from `p` to the head goes through. -/
def entries (head : α) : (fuel : ℕ) → (p : α) → Option (List α)
  | 0, _ => none
  | fuel + 1, p => if p = head then some [] else (entries head fuel (L.next p)).map (p :: ·)

def Linked (a b : α) : Prop := L.next a = b ∧ L.prev b = a

/-- The list at `head` holds `xs`, in this order. -/
structure Ring (head : α) (xs : List α) : Prop where
  nodup : (head :: xs).Nodup
  links : (head :: xs ++ [head]).IsChain L.Linked

variable {L} {head new : α} {xs ys : List α}

theorem ring_init : (L.initListHead head).Ring head [] := by
  refine ⟨by simp, ?_⟩
  simp [Linked, initListHead]

/-- The links of an address outside the list do not matter. -/
theorem Ring.init_other (h : L.Ring head xs) (hnew : new ∉ head :: xs) :
    (L.initListHead new).Ring head xs := by
  refine ⟨h.nodup, h.links.imp_of_mem_imp fun a b ha hb hl => ?_⟩
  have hmem : ∀ x ∈ head :: xs ++ [head], x ≠ new := by
    rintro x hx rfl
    exact hnew (by simpa [or_comm, or_assoc] using hx)
  simpa [Linked, initListHead, hmem a ha, hmem b hb] using hl

omit [DecidableEq α] in
/-- The first step of a walk. -/
theorem next_eq_headD {a : α} (h : (a :: xs ++ [head]).IsChain L.Linked) :
    L.next a = xs.headD head := by
  cases xs with
  | nil => exact (List.isChain_cons_cons.mp h).1.1
  | cons x xs => exact (List.isChain_cons_cons.mp h).1.1

theorem Ring.listEmpty (h : L.Ring head xs) : L.listEmpty head = xs.isEmpty := by
  rw [ListHeads.listEmpty, next_eq_headD h.links]
  cases xs with
  | nil => simp
  | cons x xs =>
    have hne : x ≠ head := fun he => (List.nodup_cons.mp h.nodup).1 (he ▸ List.mem_cons_self)
    simp [hne]

/-! ## Walks -/

theorem find_chain {test : α → Bool} {fuel : ℕ} (h : (xs ++ [head]).IsChain L.Linked)
    (hhead : head ∉ xs) (hfuel : xs.length < fuel) :
    L.find head test fuel (xs.headD head) = some (xs.find? test) := by
  obtain ⟨n, rfl⟩ := Nat.exists_eq_succ_of_ne_zero (Nat.ne_zero_of_lt hfuel)
  induction xs generalizing n with
  | nil => exact if_pos rfl
  | cons x xs ih =>
    obtain ⟨k, rfl⟩ := Nat.exists_eq_succ_of_ne_zero (Nat.ne_zero_of_lt (Nat.lt_of_succ_lt_succ hfuel))
    have hx : x ≠ head := fun he => hhead (he ▸ List.mem_cons_self)
    have hrest := ih (List.IsChain.tail h) (fun hm => hhead (List.mem_cons_of_mem _ hm)) k
      (Nat.lt_of_succ_lt_succ hfuel)
    rw [List.headD_cons, ListHeads.find, if_neg hx, next_eq_headD h, hrest, List.find?_cons]
    split_ifs with htest <;> simp [htest]

theorem entries_chain {fuel : ℕ} (h : (xs ++ [head]).IsChain L.Linked) (hhead : head ∉ xs)
    (hfuel : xs.length < fuel) : L.entries head fuel (xs.headD head) = some xs := by
  obtain ⟨n, rfl⟩ := Nat.exists_eq_succ_of_ne_zero (Nat.ne_zero_of_lt hfuel)
  induction xs generalizing n with
  | nil => exact if_pos rfl
  | cons x xs ih =>
    obtain ⟨k, rfl⟩ := Nat.exists_eq_succ_of_ne_zero (Nat.ne_zero_of_lt (Nat.lt_of_succ_lt_succ hfuel))
    have hx : x ≠ head := fun he => hhead (he ▸ List.mem_cons_self)
    have hrest := ih (List.IsChain.tail h) (fun hm => hhead (List.mem_cons_of_mem _ hm)) k
      (Nat.lt_of_succ_lt_succ hfuel)
    rw [List.headD_cons, ListHeads.entries, if_neg hx, next_eq_headD h, hrest, Option.map_some]

/-- The walk over the whole list ends and finds what is there. -/
theorem Ring.find (h : L.Ring head xs) {fuel : ℕ} (hfuel : xs.length < fuel) (test : α → Bool) :
    L.find head test fuel (L.next head) = some (xs.find? test) := by
  rw [next_eq_headD h.links]
  exact find_chain (List.IsChain.tail h.links) (List.nodup_cons.mp h.nodup).1 hfuel

theorem Ring.entries (h : L.Ring head xs) {fuel : ℕ} (hfuel : xs.length < fuel) :
    L.entries head fuel (L.next head) = some xs := by
  rw [next_eq_headD h.links]
  exact entries_chain (List.IsChain.tail h.links) (List.nodup_cons.mp h.nodup).1 hfuel

/-! ## Insertion -/

/-- Links that do not lead over the seam between `a` and `b` stay. -/
theorem link_chain {l : List α} {a b : α} (hl : l.IsChain L.Linked) (ha : a ∉ l.dropLast)
    (hb : b ∉ l.tail) (hnew : new ∉ l) : l.IsChain (L.link new a b).Linked := by
  rw [List.isChain_iff_forall_rel_of_append_cons_cons] at hl ⊢
  intro x y l₁ l₂ heq
  have hxy := hl heq
  have hx : x ∈ l.dropLast := by simp [heq]
  have hy : y ∈ l.tail := by
    rw [heq]
    cases l₁ <;> simp
  have hxa : x ≠ a := fun he => ha (he ▸ hx)
  have hyb : y ≠ b := fun he => hb (he ▸ hy)
  have hxn : x ≠ new := fun he => hnew (he ▸ List.dropLast_subset _ hx)
  have hyn : y ≠ new := fun he => hnew (he ▸ List.mem_of_mem_tail hy)
  simpa [Linked, link, hxa, hyb, hxn, hyn] using hxy

/-- A new entry between the last of `xs` and the first of `ys`. -/
theorem Ring.link (h : L.Ring head (xs ++ ys)) (hnew : new ∉ head :: (xs ++ ys)) {l r : List α}
    {a b : α} (ha : head :: xs = l ++ [a]) (hb : ys ++ [head] = b :: r) :
    (L.link new a b).Ring head (xs ++ new :: ys) := by
  have hcycle : ∀ m, head :: (xs ++ m ++ ys) ++ [head] = l ++ a :: (m ++ b :: r) := by
    intro m
    calc head :: (xs ++ m ++ ys) ++ [head] = (head :: xs) ++ m ++ (ys ++ [head]) := by simp
      _ = l ++ a :: (m ++ b :: r) := by rw [ha, hb]; simp
  have hl := h.links
  have hold := hcycle []
  rw [List.append_nil, List.nil_append] at hold
  rw [hold, List.isChain_append_cons_cons] at hl
  obtain ⟨hbefore, -, hafter⟩ := hl
  have hnx : new ∉ l ++ [a] := by
    rw [← ha]
    exact fun hm => hnew (by simp at hm ⊢; tauto)
  have hny : new ∉ b :: r := by
    rw [← hb]
    exact fun hm => hnew (by simp at hm ⊢; tauto)
  have hna : new ≠ a := fun he => hnx (by simp [he])
  have hnb : new ≠ b := fun he => hny (by simp [he])
  -- `a` does not come again behind the seam, and `b` has not come before it
  have had : a ∉ l ++ ys := by
    have hnd : (l ++ a :: ys).Nodup := by
      rw [List.append_cons, ← ha]
      exact h.nodup
    exact (List.nodup_cons.mp (List.nodup_middle.mp hnd)).1
  have hbd : b ∉ xs ++ r := by
    have hnd : (xs ++ b :: r).Nodup := by
      rw [← hb, ← List.append_assoc]
      exact List.nodup_append_comm.mp h.nodup
    exact (List.nodup_cons.mp (List.nodup_middle.mp hnd)).1
  refine ⟨?_, ?_⟩
  · rw [← List.cons_append, List.nodup_middle]
    exact List.nodup_cons.mpr ⟨hnew, h.nodup⟩
  · have hmid := hcycle [new]
    rw [List.append_assoc, List.singleton_append, List.singleton_append] at hmid
    rw [hmid, List.isChain_append_cons_cons, List.isChain_cons_cons]
    refine ⟨link_chain hbefore ?_ ?_ hnx, ?_, ?_, link_chain hafter ?_ ?_ hny⟩
    · rw [List.dropLast_concat]
      exact fun hm => had (List.mem_append_left _ hm)
    · rw [← ha]
      exact fun hm => hbd (List.mem_append_left _ hm)
    · simp [Linked, ListHeads.link]
    · simp [Linked, ListHeads.link, hna, hnb.symm]
    · rw [← hb, List.dropLast_concat]
      exact fun hm => had (List.mem_append_right _ hm)
    · exact fun hm => hbd (List.mem_append_right _ hm)

/-- `list_add` puts the entry in front. -/
theorem Ring.listAdd (h : L.Ring head xs) (hnew : new ∉ head :: xs) :
    (L.listAdd new head).Ring head (new :: xs) := by
  have hb : xs ++ [head] = xs.headD head :: (xs ++ [head]).tail := by cases xs <;> rfl
  have hfront : L.Ring head ([] ++ xs) := h
  have := hfront.link hnew (l := []) rfl hb
  rwa [← next_eq_headD h.links] at this

/-- `list_add_tail` puts the entry in front of the one that it gets, or at the end if that is the
head. -/
theorem Ring.listAddTail (h : L.Ring head (xs ++ ys)) (hnew : new ∉ head :: (xs ++ ys)) {b : α}
    {r : List α} (hb : ys ++ [head] = b :: r) :
    (L.listAddTail new b).Ring head (xs ++ new :: ys) := by
  obtain ⟨l, a, ha⟩ := (List.eq_nil_or_concat (head :: xs)).resolve_left (List.cons_ne_nil _ _)
  rw [List.concat_eq_append] at ha
  have hprev : L.prev b = a := by
    have hl := h.links
    have hcycle : head :: (xs ++ ys) ++ [head] = l ++ a :: b :: r := by
      calc head :: (xs ++ ys) ++ [head] = (head :: xs) ++ (ys ++ [head]) := by simp
        _ = l ++ a :: b :: r := by rw [ha, hb]; simp
    rw [hcycle, List.isChain_append_cons_cons] at hl
    exact hl.2.1.2
  rw [ListHeads.listAddTail, hprev]
  exact h.link hnew ha hb

end ListHeads

end HMP
