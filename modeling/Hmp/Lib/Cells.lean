import Mathlib.Algebra.Order.Group.Multiset
import Mathlib.Data.Multiset.UnionInter
import Mathlib.Logic.Function.Basic
import Mathlib.Tactic.SplitIfs

/-! Programs over a memory of records and one variable beside it. A shape is what is known of the
memory: a multiset of cells, so that the cells of one structure and those around it are added, and
the value of the variable. The frame is part of `Runs`: what is not in the shape stays. -/

namespace HMP

/-- `cell p`: the record at the address `p`, if there is one. -/
@[ext] structure Store (α ρ ν : Type) where
  cell : α → Option ρ
  var : ν

@[ext] structure Shape (α ρ ν : Type) where
  cells : Multiset (α × ρ)
  var : ν

namespace Store

variable {α ρ ν : Type}

/-- `none`: there is no record. -/
def read (p : α) : StateT (Store α ρ ν) Option ρ := fun s => (s.cell p).map (·, s)

def modify [DecidableEq α] (p : α) (f : ρ → ρ) : StateT (Store α ρ ν) Option Unit := fun s =>
  (s.cell p).map fun r => ((), { s with cell := Function.update s.cell p (some (f r)) })

def getVar : StateT (Store α ρ ν) Option ν := fun s => some (s.var, s)

def setVar (v : ν) : StateT (Store α ρ ν) Option Unit := fun s => some ((), { s with var := v })

/-- The cells of `A` are there, at different addresses. -/
structure Has (s : Store α ρ ν) (A : Shape α ρ ν) : Prop where
  nodup : (A.cells.map Prod.fst).Nodup
  cell : ∀ c ∈ A.cells, s.cell c.1 = some c.2
  var : s.var = A.var

end Store

namespace Shape

variable {α ρ ν : Type}

/-- The shape with more cells around it. -/
def frame (A : Shape α ρ ν) (F : Multiset (α × ρ)) : Shape α ρ ν := { A with cells := A.cells + F }

@[simp] theorem frame_cells (A : Shape α ρ ν) (F : Multiset (α × ρ)) :
    (A.frame F).cells = A.cells + F := rfl

@[simp] theorem frame_var (A : Shape α ρ ν) (F : Multiset (α × ρ)) : (A.frame F).var = A.var := rfl

@[simp] theorem frame_frame (A : Shape α ρ ν) (F G : Multiset (α × ρ)) :
    (A.frame F).frame G = A.frame (F + G) := Shape.ext (Multiset.add_assoc ..) rfl

@[simp] theorem frame_zero (A : Shape α ρ ν) : A.frame 0 = A := Shape.ext (add_zero _) rfl

end Shape

theorem Store.Has.of_frame {α ρ ν : Type} {s : Store α ρ ν} {A : Shape α ρ ν}
    {F : Multiset (α × ρ)} (h : s.Has (A.frame F)) : s.Has A := by
  refine ⟨?_, fun c hc => h.cell c (Multiset.mem_add.mpr (.inl hc)), h.var⟩
  have hnd := h.nodup
  rw [Shape.frame_cells, Multiset.map_add] at hnd
  exact (Multiset.nodup_add.mp hnd).1

variable {α ρ ν β γ : Type} {A B C : Shape α ρ ν}

/-- Whatever cells are around it, `x` takes `A` to `B` and returns `b`. -/
def Runs (A : Shape α ρ ν) (x : StateT (Store α ρ ν) Option β) (b : β) (B : Shape α ρ ν) : Prop :=
  ∀ (F : Multiset (α × ρ)) (s : Store α ρ ν), s.Has (A.frame F) →
    ∃ s', x s = some (b, s') ∧ s'.Has (B.frame F)

namespace Runs

theorem pure (b : β) : Runs A (Pure.pure b) b A := fun _ s hs => ⟨s, rfl, hs⟩

theorem bind {x : StateT (Store α ρ ν) Option β} {f : β → StateT (Store α ρ ν) Option γ} {b : β}
    {c : γ} (hx : Runs A x b B) (hf : Runs B (f b) c C) : Runs A (x >>= f) c C := by
  intro F s hs
  obtain ⟨s₁, hx₁, hs₁⟩ := hx F s hs
  obtain ⟨s₂, hf₂, hs₂⟩ := hf F s₁ hs₁
  refine ⟨s₂, ?_, hs₂⟩
  calc (x >>= f) s = (x s).bind fun p => f p.1 p.2 := rfl
    _ = some (c, s₂) := by rw [hx₁, Option.bind_some, hf₂]

theorem map {x : StateT (Store α ρ ν) Option β} {b : β} (g : β → γ) (hx : Runs A x b B) :
    Runs A (do return g (← x)) (g b) B := hx.bind (.pure _)

theorem frame {x : StateT (Store α ρ ν) Option β} {b : β} (h : Runs A x b B)
    (F : Multiset (α × ρ)) : Runs (A.frame F) x b (B.frame F) := by
  intro G s hs
  simp only [Shape.frame_frame] at hs ⊢
  exact h (F + G) s hs

/-- The addresses of the cells are different. -/
theorem of_nodup {x : StateT (Store α ρ ν) Option β} {b : β}
    (h : (A.cells.map Prod.fst).Nodup → Runs A x b B) : Runs A x b B := by
  intro F s hs
  exact h hs.of_frame.nodup F s hs

theorem read {p : α} {r : ρ} (h : (p, r) ∈ A.cells) : Runs A (Store.read p) r A := by
  intro F s hs
  have hc := hs.cell (p, r) (Multiset.mem_add.mpr (.inl h))
  exact ⟨s, by simp [Store.read, hc], hs⟩

theorem modify [DecidableEq α] {p : α} {r : ρ} {L : Multiset (α × ρ)} (f : ρ → ρ) (h : A.cells = (p, r) ::ₘ L) :
    Runs A (Store.modify p f) () { A with cells := (p, f r) ::ₘ L } := by
  intro F s hs
  have hc := hs.cell (p, r) (by simp [h])
  refine ⟨{ s with cell := Function.update s.cell p (some (f r)) }, by simp [Store.modify, hc],
    ?_, ?_, hs.var⟩
  · have hnd := hs.nodup
    rw [Shape.frame_cells, h] at hnd
    simpa using hnd
  · have hnd := hs.nodup
    rw [Shape.frame_cells, h, Multiset.cons_add, Multiset.map_cons, Multiset.nodup_cons] at hnd
    intro c hcm
    simp only [Shape.frame_cells, Multiset.cons_add, Multiset.mem_cons] at hcm
    obtain rfl | hcm := hcm
    · exact Function.update_self ..
    · have hne : c.1 ≠ p := fun he =>
        hnd.1 (he ▸ (Multiset.mem_map_of_mem Prod.fst hcm : c.1 ∈ (L + F).map Prod.fst))
      rw [← hs.cell c (by simp [h, Multiset.mem_add.mp hcm])]
      exact Function.update_of_ne hne ..

theorem getVar : Runs A Store.getVar A.var A := fun _ s hs =>
  ⟨s, by rw [Store.getVar, hs.var, Shape.frame_var], hs⟩

theorem setVar (v : ν) : Runs A (Store.setVar v) () { A with var := v } := fun _ s hs =>
  ⟨{ s with var := v }, rfl, hs.nodup, hs.cell, rfl⟩

/-- A run in a memory that has the cells. The records at other addresses stay. -/
theorem exec {x : StateT (Store α ρ ν) Option β} {b : β} {s : Store α ρ ν} (h : Runs A x b B)
    (hs : s.Has A) : ∃ s', x s = some (b, s') ∧ s'.Has B ∧
      ∀ p r, s.cell p = some r → p ∉ A.cells.map Prod.fst → s'.cell p = some r := by
  obtain ⟨s', hx, hB⟩ := h 0 s (by rwa [Shape.frame_zero])
  rw [Shape.frame_zero] at hB
  refine ⟨s', hx, hB, fun p r hr hout => ?_⟩
  have hF : s.Has (A.frame {(p, r)}) := by
    refine ⟨?_, ?_, hs.var⟩
    · rw [Shape.frame_cells, Multiset.add_comm, Multiset.singleton_add, Multiset.map_cons]
      exact Multiset.nodup_cons.mpr ⟨hout, hs.nodup⟩
    · intro c hc
      rw [Shape.frame_cells, Multiset.mem_add, Multiset.mem_singleton] at hc
      obtain hc | rfl := hc
      · exact hs.cell c hc
      · exact hr
  obtain ⟨s₁, h₁, hB₁⟩ := h _ s hF
  obtain rfl : s' = s₁ := by simpa [hx] using h₁
  exact hB₁.cell (p, r) (by simp)

end Runs

/-- A program that changes nothing. -/
def ReadOnly (x : StateT (Store α ρ ν) Option β) : Prop := ∀ s r, x s = some r → r.2 = s

namespace ReadOnly

theorem pure (b : β) : ReadOnly (Pure.pure b : StateT (Store α ρ ν) Option β) := by
  intro s r h
  obtain rfl : (b, s) = r := Option.some.inj h
  rfl

theorem fail : ReadOnly (fun _ => none : StateT (Store α ρ ν) Option β) := nofun

theorem bind {x : StateT (Store α ρ ν) Option β} {f : β → StateT (Store α ρ ν) Option γ}
    (hx : ReadOnly x) (hf : ∀ b, ReadOnly (f b)) : ReadOnly (x >>= f) := by
  intro s r h
  obtain ⟨⟨b, s₁⟩, hb, hr⟩ := Option.bind_eq_some_iff.mp h
  obtain rfl : s₁ = s := hx s _ hb
  exact hf b s₁ r hr

theorem ite {c : Prop} [Decidable c] {x y : StateT (Store α ρ ν) Option β} (hx : ReadOnly x)
    (hy : ReadOnly y) : ReadOnly (if c then x else y) := by
  split_ifs
  · exact hx
  · exact hy

theorem read (p : α) : ReadOnly (Store.read p : StateT (Store α ρ ν) Option ρ) := by
  intro s r h
  obtain ⟨n, -, rfl⟩ := Option.map_eq_some_iff.mp h
  rfl

theorem getVar : ReadOnly (Store.getVar : StateT (Store α ρ ν) Option ν) := by
  intro s r h
  obtain rfl : (s.var, s) = r := Option.some.inj h
  rfl

/-- A run of it leaves the memory. -/
theorem exec {x : StateT (Store α ρ ν) Option β} {b : β} {s : Store α ρ ν} (h : ReadOnly x)
    (hx : Runs A x b B) (hs : s.Has A) : x s = some (b, s) := by
  obtain ⟨s', hx', -⟩ := hx.exec hs
  obtain rfl : s' = s := h s _ hx'
  exact hx'

end ReadOnly

end HMP
