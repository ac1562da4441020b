import Hmp.Lib.RbTree

/-! Insertion and removal in red-black trees, bottom up from a hole: what the loops do to a tree
with a hole, that the elements stay in their order and that the tree is balanced afterwards. -/

namespace HMP

namespace RbTree

variable {α : Type}

/-! ## Insertion -/

/-- The rotations below the grandparent `g` when the other child of `g` is black. The red node `t`
is moved outwards first if it is on the inner side of its parent `f`. -/
def insertRotate (f g : RbFrame α) (t : RbTree α) : RbTree α :=
  if f.side = g.side then
    fork g.side .black t f.elem (fork g.side .red f.sib g.elem g.sib)
  else match t.view g.side with
    | some (_, u, a, v) =>
      fork g.side .black (fork g.side .red f.sib f.elem u) a (fork g.side .red v g.elem g.sib)
    | none => fork g.side g.color (fork f.side f.color t f.elem f.sib) g.elem g.sib

/-- The loop of an insertion, from a red node `t`. -/
def insertLoop : RbTree α → List (RbFrame α) → RbTree α
  | t, f :: g :: π => match f.color, g.sib.color with
    | .red, .red =>
      insertLoop (fork g.side .red (fork f.side .black t f.elem f.sib) g.elem g.sib.blacken) π
    | .red, .black => (insertRotate f g t).fill π
    | .black, _ => t.fill (f :: g :: π)
  | t, π => t.fill π

/-- A new element in an empty hole. -/
def insertAt (a : α) (π : List (RbFrame α)) : RbTree α :=
  (insertLoop (node .red nil a nil) π).blacken

theorem toList_insertRotate (f g : RbFrame α) (t : RbTree α) :
    (insertRotate f g t).toList =
      (fork g.side g.color (fork f.side f.color t f.elem f.sib) g.elem g.sib).toList := by
  rw [insertRotate]
  split_ifs with hd
  · rw [hd]
    cases g.side <;> simp [fork, toList]
  · obtain rfl | ⟨c, u, a, v, rfl⟩ := nil_or_fork g.side t
    · cases g.side <;> rfl
    · rw [view_fork, Side.eq_other_of_ne hd]
      cases g.side <;> simp [fork, toList, Side.other]

theorem toList_insertLoop (t : RbTree α) (π : List (RbFrame α)) :
    (insertLoop t π).toList = (t.fill π).toList := by
  induction t, π using insertLoop.induct with
  | case1 t f g π hg hf ih =>
    rw [insertLoop, hf, hg, ih, fill_cons, fill_cons]
    apply toList_fill_congr
    cases f.side <;> cases g.side <;> simp [fork, toList]
  | case2 t f g π hg hf =>
    rw [insertLoop, hf, hg, fill_cons, fill_cons]
    exact toList_fill_congr (toList_insertRotate f g t) π
  | case3 t f g π hf => rw [insertLoop, hf]
  | case4 t π h => rw [insertLoop]; exact h

/-- The rotations take away the red node below a red node and leave a black root. -/
theorem insertRotate_bal {f g : RbFrame α} {t : RbTree α} {n : ℕ} (ht : t.Bal n)
    (htc : t.color = .red) (hf : f.sib.Bal n) (hfc : f.sib.color = .black) (hg : g.sib.Bal n)
    (hgc : g.sib.color = .black) :
    (insertRotate f g t).Bal (n + 1) ∧ (insertRotate f g t).color = .black := by
  rw [insertRotate]
  split_ifs with hd
  · exact ⟨bal_black.mpr ⟨ht, bal_red.mpr ⟨hfc, hgc, hf, hg⟩⟩, color_fork ..⟩
  · obtain rfl | ⟨c, u, a, v, rfl⟩ := nil_or_fork g.side t
    · cases htc
    · obtain rfl : c = .red := by simpa using htc
      obtain ⟨huc, hvc, hu, hv⟩ := bal_red.mp ht
      rw [view_fork]
      exact ⟨bal_black.mpr ⟨bal_red.mpr ⟨hfc, huc, hf, hu⟩, bal_red.mpr ⟨hvc, hgc, hv, hg⟩⟩,
        color_fork ..⟩

/-- A red parent has a black parent of its own. -/
theorem holeBal_red_cons {f g : RbFrame α} {π : List (RbFrame α)} {n : ℕ}
    (h : HoleBal (f :: g :: π) n) (hf : f.color = .red) :
    f.sib.color = .black ∧ f.sib.Bal n ∧ g.color = .black ∧ g.sib.Bal n ∧ HoleBal π (n + 1) := by
  simp only [HoleBal, hf] at h
  obtain ⟨hfc, hfn, hg, hgn⟩ := h
  have hg' : g.color = .black := hg
  simp only [hg'] at hgn
  exact ⟨hfc, hfn, hg, hgn⟩

theorem insertLoop_isRb {t : RbTree α} {π : List (RbFrame α)} {n : ℕ} (ht : t.Bal n)
    (htc : t.color = .red) (hπ : HoleBal π n) : (insertLoop t π).blacken.IsRb := by
  induction t, π using insertLoop.induct generalizing n with
  | case1 t f g π hg hf ih =>
    obtain ⟨hfc, hfn, -, hgn, hπ'⟩ := holeBal_red_cons hπ hf
    rw [insertLoop, hf, hg]
    refine ih (n := n + 1) ?_ (color_fork ..) hπ'
    exact bal_red.mpr ⟨color_fork .., color_blacken _, bal_black.mpr ⟨ht, hfn⟩, hgn.blacken hg⟩
  | case2 t f g π hg hf =>
    obtain ⟨hfc, hfn, -, hgn, hπ'⟩ := holeBal_red_cons hπ hf
    obtain ⟨hbal, hcol⟩ := insertRotate_bal ht htc hfn hfc hgn hg
    rw [insertLoop, hf, hg]
    exact (isRb_fill.mpr ⟨n + 1, hbal, hπ', by simp [hcol]⟩).blacken
  | case3 t f g π hf =>
    rw [insertLoop, hf]
    exact (isRb_fill.mpr ⟨n, ht, hπ, fun _ => hf⟩).blacken
  | case4 t π h =>
    rw [insertLoop]
    · cases π with
      | nil => exact ht.isRb_blacken
      | cons f π =>
        obtain rfl : π = [] := by
          cases π with
          | nil => rfl
          | cons g π => exact (h f g π rfl).elim
        -- the root is black, there is no red node without a parent
        have hf : f.color = .black := by
          cases hf : f.color with
          | red =>
            simp only [HoleBal, hf] at hπ
            exact hπ.2.2.1.elim
          | black => rfl
        exact (isRb_fill.mpr ⟨n, ht, hπ, fun _ => hf⟩).blacken
    · exact h

theorem toList_insertAt (a : α) (π : List (RbFrame α)) :
    (insertAt a π).toList = before π ++ a :: after π := by
  rw [insertAt, toList_blacken, toList_insertLoop, toList_fill]
  simp [toList]

theorem insertAt_isRb (a : α) {π : List (RbFrame α)} (h : (nil.fill π).IsRb) :
    (insertAt a π).IsRb := by
  obtain ⟨n, rfl, hπ, -⟩ := isRb_fill.mp h
  exact insertLoop_isRb (n := 0) ⟨rfl, rfl, rfl, rfl⟩ rfl hπ

/-! ## Removal -/

/-- A turn of the loop of a removal at the hole below `p` on side `d`, when the sibling `s` is black.
`true`: the tree that comes out is still one short. -/
def eraseTurn (d : Side) (c : Color) (t : RbTree α) (p : α) (s : RbTree α) : RbTree α × Bool :=
  match s.view d with
  | none => (fork d c t p s, false)
  | some (_, u, o, v) => match u.color, v.color, u.view d with
    | .black, .black, _ => (fork d c t p (fork d .red u o v), true)
    | .red, .black, some (_, w, b, x) =>
      (fork d c (fork d .black t p w) b (fork d .black x o v), false)
    | _, _, _ => (fork d c (fork d .black t p u) o v.blacken, false)

/-- The loop of a removal, from a tree `t` that is one short. -/
def eraseLoop : RbTree α → List (RbFrame α) → RbTree α
  | t, [] => t.blacken
  | t, f :: π => match t.color, f.sib.color, f.sib.view f.side with
    | .red, _, _ => t.blacken.fill (f :: π)
    | .black, .red, some (_, u, o, v) =>
      let r := eraseTurn f.side .red t f.elem u
      let g : RbFrame α := ⟨f.side, .black, o, v⟩
      -- the parent is red now, so the next turn is the last
      if r.2 then r.1.blacken.fill (g :: π) else (r.1.fill (g :: π)).blacken
    | .black, _, _ =>
      let r := eraseTurn f.side f.color t f.elem f.sib
      if r.2 then eraseLoop r.1 π else (r.1.fill π).blacken

/-- A node of colour `c` has been taken out and `t` put in its place. -/
def eraseColor (c : Color) (t : RbTree α) (π : List (RbFrame α)) : RbTree α :=
  match c with
  | .black => eraseLoop t π
  | .red => t.fill π

/-- The first node: its colour, its element, its right child and the way to it. -/
def first : RbTree α → List (RbFrame α) → Option (Color × α × RbTree α × List (RbFrame α))
  | nil, _ => none
  | node c nil a r, σ => some (c, a, r, σ)
  | node c l a r, σ => first l (⟨.left, c, a, r⟩ :: σ)

/-- Takes out the node with the children `l` and `r`. If there are both, the first node of `r` takes
its place and its colour. -/
def eraseAt (c : Color) (l r : RbTree α) (π : List (RbFrame α)) : RbTree α :=
  match l, r with
  | nil, r => eraseColor c r π
  | l, nil => eraseColor c l π
  | l, r => match first r [] with
    | some (c', a, r', σ) => eraseColor c' r' (σ ++ ⟨.right, c, a, l⟩ :: π)
    | none => eraseColor c l π

/-! ### What a turn does -/

/-- The sibling seen from the hole, in the cases that a turn tells apart. -/
theorem sib_cases (d : Side) (s : RbTree α) :
    s = nil ∨ (∃ c u o v, s = fork d c u o v ∧ u.color = .black ∧ v.color = .black) ∨
      (∃ c w b x o v, s = fork d c (fork d .red w b x) o v ∧ v.color = .black) ∨
      ∃ c u o v, s = fork d c u o v ∧ v.color = .red := by
  obtain rfl | ⟨c, u, o, v, rfl⟩ := nil_or_fork d s
  · exact .inl rfl
  · cases hv : v.color with
    | red => exact .inr (.inr (.inr ⟨c, u, o, v, rfl, hv⟩))
    | black => cases hu : u.color with
      | black => exact .inr (.inl ⟨c, u, o, v, rfl, hu, hv⟩)
      | red =>
        obtain rfl | ⟨c', w, b, x, rfl⟩ := nil_or_fork d u
        · cases hu
        · obtain rfl : c' = .red := by simpa using hu
          exact .inr (.inr (.inl ⟨c, w, b, x, o, v, rfl, hv⟩))

section Turn

variable {d : Side} {c c' : Color} {t u v w x : RbTree α} {p o b : α}

theorem eraseTurn_nil : eraseTurn d c t p nil = (fork d c t p nil, false) := by cases d <;> rfl

theorem eraseTurn_black (hu : u.color = .black) (hv : v.color = .black) :
    eraseTurn d c t p (fork d c' u o v) = (fork d c t p (fork d .red u o v), true) := by
  simp [eraseTurn, hu, hv]

theorem eraseTurn_near (hv : v.color = .black) :
    eraseTurn d c t p (fork d c' (fork d .red w b x) o v) =
      (fork d c (fork d .black t p w) b (fork d .black x o v), false) := by
  simp [eraseTurn, hv]

theorem eraseTurn_far (hv : v.color = .red) :
    eraseTurn d c t p (fork d c' u o v) =
      (fork d c (fork d .black t p u) o v.blacken, false) := by
  simp [eraseTurn, hv]

end Turn

theorem toList_eraseTurn (d : Side) (c : Color) (t : RbTree α) (p : α) (s : RbTree α) :
    (eraseTurn d c t p s).1.toList = (fork d c t p s).toList := by
  obtain rfl | ⟨c', u, o, v, rfl, hu, hv⟩ | ⟨c', w, b, x, o, v, rfl, hv⟩ | ⟨c', u, o, v, rfl, hv⟩ :=
    sib_cases d s
  · rw [eraseTurn_nil]
  · rw [eraseTurn_black hu hv]
    cases d <;> simp [fork, toList]
  · rw [eraseTurn_near hv]
    cases d <;> simp [fork, toList]
  · rw [eraseTurn_far hv]
    cases d <;> simp [fork, toList]

section Loop

variable {t u v : RbTree α} {o : α} {f : RbFrame α} {π : List (RbFrame α)}

theorem eraseLoop_of_red (ht : t.color = .red) :
    eraseLoop t (f :: π) = t.blacken.fill (f :: π) := by
  rw [eraseLoop, ht]

theorem eraseLoop_of_sib_red (ht : t.color = .black) (hs : f.sib = fork f.side .red u o v) :
    eraseLoop t (f :: π) =
      let r := eraseTurn f.side .red t f.elem u
      if r.2 then r.1.blacken.fill (⟨f.side, .black, o, v⟩ :: π)
      else (r.1.fill (⟨f.side, .black, o, v⟩ :: π)).blacken := by
  simp [eraseLoop, ht, hs]

theorem eraseLoop_of_sib_black (ht : t.color = .black) (hs : f.sib.color = .black) :
    eraseLoop t (f :: π) =
      let r := eraseTurn f.side f.color t f.elem f.sib
      if r.2 then eraseLoop r.1 π else (r.1.fill π).blacken := by
  simp [eraseLoop, ht, hs]

/-- A red sibling is a node. -/
theorem exists_fork_of_red (d : Side) {s : RbTree α} (h : s.color = .red) :
    ∃ u o v, s = fork d .red u o v := by
  obtain rfl | ⟨c, u, o, v, rfl⟩ := nil_or_fork d s
  · cases h
  · obtain rfl : c = .red := by simpa using h
    exact ⟨u, o, v, rfl⟩

end Loop

theorem toList_eraseLoop (t : RbTree α) (π : List (RbFrame α)) :
    (eraseLoop t π).toList = (t.fill π).toList := by
  induction π generalizing t with
  | nil => exact toList_blacken t
  | cons f π ih =>
    cases ht : t.color with
    | red =>
      rw [eraseLoop_of_red ht]
      exact toList_fill_congr (toList_blacken t) _
    | black => cases hs : f.sib.color with
      | red =>
        obtain ⟨u, o, v, hsib⟩ := exists_fork_of_red f.side hs
        have hturn : ∀ y : RbTree α, y.toList = (fork f.side .red t f.elem u).toList →
            (fork f.side .black y o v).toList = (fork f.side f.color t f.elem f.sib).toList := by
          intro y hy
          rw [hsib, ← toList_rotate f.side .black .red]
          exact toList_fork_congr hy rfl ..
        have hrot := toList_eraseTurn f.side .red t f.elem u
        rw [eraseLoop_of_sib_red ht hsib]
        simp only
        split_ifs
        · exact toList_fill_congr (hturn _ ((toList_blacken _).trans hrot)) π
        · rw [toList_blacken]
          exact toList_fill_congr (hturn _ hrot) π
      | black =>
        have hturn := toList_eraseTurn f.side f.color t f.elem f.sib
        rw [eraseLoop_of_sib_black ht hs]
        simp only
        split_ifs
        · rw [ih]
          exact toList_fill_congr hturn π
        · rw [toList_blacken]
          exact toList_fill_congr hturn π

/-! ### Balance -/

/-- A tree that stands where a tree with black height `n + 1` is missing: a black one is one short,
a red one only has to be made black. -/
def Short (t : RbTree α) (n : ℕ) : Prop :=
  match t.color with
  | .black => t.Bal n
  | .red => t.blacken.Bal (n + 1)

/-- What a turn makes of a parent of colour `c`. Still short, it has kept its colour, and its
children would do below a black node; otherwise they do below any node. -/
theorem eraseTurn_bal {d : Side} {c : Color} {t : RbTree α} {p : α} {s : RbTree α} {n : ℕ}
    (ht : t.Bal n) (hs : s.Bal (n + 1)) (hsc : s.color = .black) :
    ∃ l a r b, eraseTurn d c t p s = (fork d c l a r, b) ∧
      (b = true → l.Bal n ∧ r.Bal n) ∧
      (b = false → l.color = .black ∧ r.color = .black ∧ l.Bal (n + 1) ∧ r.Bal (n + 1)) := by
  obtain rfl | ⟨c', u, o, v, rfl, hu, hv⟩ | ⟨c', w, b, x, o, v, rfl, hv⟩ | ⟨c', u, o, v, rfl, hv⟩ :=
    sib_cases d s
  · cases hs
  all_goals obtain rfl : c' = .black := by simpa using hsc
  · obtain ⟨hun, hvn⟩ := bal_black.mp hs
    exact ⟨_, _, _, _, eraseTurn_black hu hv, fun _ => ⟨ht, bal_red.mpr ⟨hu, hv, hun, hvn⟩⟩, nofun⟩
  · obtain ⟨hun, hvn⟩ := bal_black.mp hs
    obtain ⟨-, -, hw, hx⟩ := bal_red.mp hun
    exact ⟨_, _, _, _, eraseTurn_near hv, nofun, fun _ => ⟨color_fork .., color_fork ..,
      bal_black.mpr ⟨ht, hw⟩, bal_black.mpr ⟨hx, hvn⟩⟩⟩
  · obtain ⟨hun, hvn⟩ := bal_black.mp hs
    exact ⟨_, _, _, _, eraseTurn_far hv, nofun, fun _ => ⟨color_fork .., color_blacken v,
      bal_black.mpr ⟨ht, hun⟩, hvn.blacken hv⟩⟩

theorem Short.bal {t : RbTree α} {n : ℕ} (h : t.Short n) (ht : t.color = .black) : t.Bal n := by
  rwa [Short, ht] at h

section Up

variable {t u v : RbTree α} {o : α} {f : RbFrame α} {π : List (RbFrame α)} {n : ℕ}

theorem holeBal_sib (h : HoleBal (f :: π) n) : f.sib.Bal n := by
  cases hf : f.color with
  | red =>
    simp only [HoleBal, hf] at h
    exact h.2.1
  | black =>
    simp only [HoleBal, hf] at h
    exact h.1

/-- A red sibling has black children and a black parent. -/
theorem holeBal_of_sib_red (h : HoleBal (f :: π) n) (hs : f.sib = fork f.side .red u o v) :
    u.color = .black ∧ u.Bal n ∧ v.Bal n ∧ HoleBal π (n + 1) := by
  cases hf : f.color with
  | red =>
    simp only [HoleBal, hf, hs, color_fork] at h
    exact absurd h.1 (by decide)
  | black =>
    simp only [HoleBal, hf, hs, bal_red] at h
    exact ⟨h.1.1, h.1.2.2.1, h.1.2.2.2, h.2⟩

/-- A turn that does not get to an end leaves the parent one short. -/
theorem eraseTurn_up (ht : t.Bal n) (hπ : HoleBal (f :: π) (n + 1)) (hs : f.sib.color = .black)
    (hr : (eraseTurn f.side f.color t f.elem f.sib).2 = true) :
    ∃ m, (eraseTurn f.side f.color t f.elem f.sib).1.Short m ∧ HoleBal π (m + 1) := by
  obtain ⟨l, a, r, b, hturn, hshort, -⟩ :=
    eraseTurn_bal (d := f.side) (c := f.color) (p := f.elem) ht (holeBal_sib hπ) hs
  rw [hturn] at hr ⊢
  cases hf : f.color with
  | red =>
    simp only [HoleBal, hf] at hπ
    refine ⟨n, ?_, hπ.2.2.2⟩
    simp only [Short, color_fork, blacken_fork]
    exact bal_black.mpr (hshort hr)
  | black =>
    simp only [HoleBal, hf] at hπ
    refine ⟨n + 1, ?_, hπ.2⟩
    simp only [Short, color_fork]
    exact bal_black.mpr (hshort hr)

/-- A turn that gets to an end leaves a balanced tree. -/
theorem eraseTurn_top (ht : t.Bal n) (hπ : HoleBal (f :: π) (n + 1)) (hs : f.sib.color = .black)
    (hr : (eraseTurn f.side f.color t f.elem f.sib).2 = false) :
    ((eraseTurn f.side f.color t f.elem f.sib).1.fill π).IsRb := by
  obtain ⟨l, a, r, b, hturn, -, hdone⟩ :=
    eraseTurn_bal (d := f.side) (c := f.color) (p := f.elem) ht (holeBal_sib hπ) hs
  rw [hturn] at hr ⊢
  cases hf : f.color with
  | red =>
    simp only [HoleBal, hf] at hπ
    exact isRb_fill.mpr ⟨n + 1, bal_red.mpr (hdone hr), hπ.2.2.2, fun _ => hπ.2.2.1⟩
  | black =>
    simp only [HoleBal, hf] at hπ
    obtain ⟨-, -, hl, hr⟩ := hdone hr
    exact isRb_fill.mpr ⟨n + 2, bal_black.mpr ⟨hl, hr⟩, hπ.2, by simp⟩

end Up

/-- The removal makes up for the one that is missing. -/
theorem eraseLoop_isRb {t : RbTree α} {π : List (RbFrame α)} {n : ℕ} (ht : t.Short n)
    (hπ : HoleBal π (n + 1)) : (eraseLoop t π).IsRb := by
  induction π generalizing t n with
  | nil =>
    rw [Short] at ht
    split at ht
    · exact ht.isRb_blacken
    · exact ⟨color_blacken t, _, ht⟩
  | cons f π ih =>
    cases htc : t.color with
    | red =>
      rw [Short, htc] at ht
      rw [eraseLoop_of_red htc]
      exact isRb_fill.mpr ⟨n + 1, ht, hπ, by simp⟩
    | black => cases hs : f.sib.color with
      | red =>
        obtain ⟨u, o, v, hsib⟩ := exists_fork_of_red f.side hs
        obtain ⟨huc, hu, hv, hπ'⟩ := holeBal_of_sib_red hπ hsib
        have hg : HoleBal (⟨f.side, .black, o, v⟩ :: π) (n + 1) := ⟨hv, hπ'⟩
        obtain ⟨l, a, r, b, hturn, hshort, hdone⟩ :=
          eraseTurn_bal (d := f.side) (c := .red) (p := f.elem) (ht.bal htc) hu huc
        rw [eraseLoop_of_sib_red htc hsib, hturn]
        cases b with
        | true =>
          refine isRb_fill.mpr ⟨n + 1, ?_, hg, by simp⟩
          rw [blacken_fork]
          exact bal_black.mpr (hshort rfl)
        | false =>
          exact (isRb_fill.mpr ⟨n + 1, bal_red.mpr (hdone rfl), hg, fun _ => rfl⟩).blacken
      | black =>
        rw [eraseLoop_of_sib_black htc hs]
        simp only
        split_ifs with hr
        · obtain ⟨m, hm, hπ'⟩ := eraseTurn_up (ht.bal htc) hπ hs hr
          exact ih hm hπ'
        · exact (eraseTurn_top (ht.bal htc) hπ hs (Bool.eq_false_iff.mpr hr)).blacken

/-- Taking out a black node with no child on one side leaves the other child one short. -/
theorem short_of_sib_nil {t : RbTree α} {f : RbFrame α} {π : List (RbFrame α)} (hf : f.sib = nil)
    (h : (t.fill (f :: π)).IsRb) (hc : f.color = .black) : t.Short 0 ∧ HoleBal π 1 := by
  obtain ⟨n, ht, hπ, htc⟩ := isRb_fill.mp h
  simp only [HoleBal, hc, hf, bal_nil] at hπ
  obtain ⟨rfl, hπ⟩ := hπ
  refine ⟨?_, hπ⟩
  rw [Short]
  split
  · exact ht
  · exact ht.blacken ‹_›

theorem eraseColor_isRb {t : RbTree α} {f : RbFrame α} {π : List (RbFrame α)} (hf : f.sib = nil)
    (h : (t.fill (f :: π)).IsRb) : (eraseColor f.color t π).IsRb := by
  cases hc : f.color with
  | red =>
    obtain ⟨n, ht, hπ, htc⟩ := isRb_fill.mp h
    simp only [HoleBal, hc] at hπ
    refine isRb_fill.mpr ⟨n, ht, hπ.2.2.2, fun hr => ?_⟩
    simp [TakesRed, hr, hc] at htc
  | black =>
    obtain ⟨ht, hπ⟩ := short_of_sib_nil hf h hc
    exact eraseLoop_isRb ht hπ

/-! ### The place of the successor -/

theorem first_node_nil (c : Color) (a : α) (r : RbTree α) (σ : List (RbFrame α)) :
    first (node c nil a r) σ = some (c, a, r, σ) := rfl

theorem first_node_node (c c' : Color) (l r' r : RbTree α) (b a : α) (σ : List (RbFrame α)) :
    first (node c (node c' l b r') a r) σ = first (node c' l b r') (⟨.left, c, a, r⟩ :: σ) := rfl

theorem first_eq_some {t : RbTree α} {σ τ : List (RbFrame α)} {c : Color} {a : α} {r : RbTree α}
    (h : first t σ = some (c, a, r, τ)) :
    ∃ ρ, τ = ρ ++ σ ∧ (∀ f ∈ ρ, f.side = .left) ∧ t = (node c nil a r).fill ρ := by
  induction t generalizing σ with
  | nil => cases h
  | node c' l b r' ihl _ =>
    cases l with
    | nil =>
      obtain ⟨rfl, rfl, rfl, rfl⟩ : c' = c ∧ b = a ∧ r' = r ∧ σ = τ := by
        simpa [first_node_nil] using h
      exact ⟨[], rfl, nofun, rfl⟩
    | node c'' l' b' r'' =>
      rw [first_node_node] at h
      obtain ⟨ρ, rfl, hρ, hfill⟩ := ihl h
      refine ⟨ρ ++ [⟨.left, c', b, r'⟩], by simp, ?_, ?_⟩
      · intro f hf
        rw [List.mem_append, List.mem_singleton] at hf
        obtain hf | rfl := hf
        · exact hρ f hf
        · rfl
      · rw [fill_append, ← hfill]
        rfl

theorem first_isSome {t : RbTree α} (h : t ≠ nil) (σ : List (RbFrame α)) :
    ∃ c a r τ, first t σ = some (c, a, r, τ) := by
  induction t generalizing σ with
  | nil => exact absurd rfl h
  | node c l a r ihl _ =>
    cases l with
    | nil => exact ⟨_, _, _, _, rfl⟩
    | node c' l' b r' =>
      obtain ⟨c'', a', r'', τ, h'⟩ := ihl nofun (⟨.left, c, a, r⟩ :: σ)
      exact ⟨c'', a', r'', τ, h'⟩

theorem eraseAt_nil_right (c : Color) (l : RbTree α) (π : List (RbFrame α)) :
    eraseAt c l nil π = eraseColor c l π := by cases l <;> rfl

/-- The first node of `r` takes the place of the removed one. -/
theorem exists_eraseAt_eq {l r : RbTree α} (hl : l ≠ nil) (hr : r ≠ nil) (c : Color)
    (π : List (RbFrame α)) :
    ∃ c' a r' ρ, (∀ f ∈ ρ, f.side = .left) ∧ first r [] = some (c', a, r', ρ) ∧
      r = (node c' nil a r').fill ρ ∧
      eraseAt c l r π = eraseColor c' r' (ρ ++ ⟨.right, c, a, l⟩ :: π) := by
  obtain ⟨c', a, r', τ, hfirst⟩ := first_isSome hr []
  obtain ⟨ρ, hτ, hρ, hfill⟩ := first_eq_some hfirst
  obtain rfl : τ = ρ := by simpa using hτ
  refine ⟨c', a, r', τ, hρ, hfirst, hfill, ?_⟩
  cases l with
  | nil => exact absurd rfl hl
  | node => cases r with
    | nil => exact absurd rfl hr
    | node => rw [eraseAt, hfirst]; all_goals nofun

theorem toList_eraseColor (c : Color) (t : RbTree α) (π : List (RbFrame α)) :
    (eraseColor c t π).toList = before π ++ t.toList ++ after π := by
  rw [← toList_fill]
  cases c with
  | red => rfl
  | black => exact toList_eraseLoop t π

/-- The other elements stay, in their order. -/
theorem toList_eraseAt (c : Color) (l r : RbTree α) (π : List (RbFrame α)) :
    (eraseAt c l r π).toList = before π ++ (l.toList ++ r.toList) ++ after π := by
  by_cases hl : l = nil
  · rw [hl]
    exact toList_eraseColor c r π
  · by_cases hr : r = nil
    · rw [hr, eraseAt_nil_right, toList_eraseColor]
      simp [toList]
    · obtain ⟨c', a, r', ρ, hρ, -, hfill, heq⟩ := exists_eraseAt_eq hl hr c π
      rw [heq, toList_eraseColor, hfill, toList_fill, before_append, after_append,
        before_of_left hρ]
      simp [before, after, toList]

theorem eraseAt_isRb {c : Color} {l r : RbTree α} {a : α} {π : List (RbFrame α)}
    (h : ((node c l a r).fill π).IsRb) : (eraseAt c l r π).IsRb := by
  by_cases hl : l = nil
  · subst hl
    exact eraseColor_isRb (t := r) (f := ⟨.right, c, a, nil⟩) rfl h
  · by_cases hr : r = nil
    · subst hr
      rw [eraseAt_nil_right]
      exact eraseColor_isRb (t := l) (f := ⟨.left, c, a, nil⟩) rfl h
    · obtain ⟨c', b, r', ρ, -, -, rfl, heq⟩ := exists_eraseAt_eq hl hr c π
      have hdown : (node c l a ((node c' nil b r').fill ρ)).fill π =
          (r'.fill (⟨.right, c', b, nil⟩ :: (ρ ++ ⟨.right, c, a, l⟩ :: π))) := by
        rw [fill_cons, fill_append]
        rfl
      rw [hdown, ← List.cons_append] at h
      rw [heq]
      exact eraseColor_isRb (f := ⟨.right, c', b, nil⟩) rfl (isRb_fill_elem h)

end RbTree

end HMP
