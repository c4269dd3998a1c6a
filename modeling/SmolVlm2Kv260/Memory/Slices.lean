import Mathlib.Algebra.Order.Group.Defs
import Mathlib.Algebra.BigOperators.Group.List.Basic
import Mathlib.Order.Interval.Set.Disjoint
import Mathlib.Data.Set.Lattice

/-!
# Slices that tile an interval

A slice has a start and a length.  A list of slices tiles the interval from `a` to `b` when the
first one starts at `a`, each of the others where the one before it stops, and the last one
stops at `b`.  Such slices are disjoint and cover the interval.
-/

set_option autoImplicit false

/-- The places from `start` on, `length` of them. -/
structure Slice (α : Type) where
  start : α
  length : α
deriving Inhabited

namespace Slice

variable {α : Type}

/-- The place after the last one. -/
def stop [Add α] (s : Slice α) : α := s.start + s.length

/-- The places of a slice. -/
def cells [Add α] [Preorder α] (s : Slice α) : Set α := Set.Ico s.start s.stop

/-- Where the slices of a list begin, when nothing but `b` comes after them. -/
def firstStart (slices : List (Slice α)) (b : α) : α := (slices.head?.map start).getD b

/-- The slice with its start and its length taken to another type. -/
def map {β : Type} (f : α → β) (s : Slice α) : Slice β := ⟨f s.start, f s.length⟩

/-- The slices follow each other from `a` to `b`. -/
def Tiles [Add α] [Zero α] [LE α] : List (Slice α) → α → α → Prop
  | [], a, b => a = b
  | s :: slices, a, b => s.start = a ∧ 0 ≤ s.length ∧ Tiles slices s.stop b

/-- What can be said of slices that follow each other. -/
structure Tiling [Add α] [Preorder α] (slices : List (Slice α)) (a b : α) : Prop where
  bounds : ∀ s ∈ slices, a ≤ s.start ∧ s.stop ≤ b
  disjoint : slices.Pairwise fun s t => ∀ x ∈ s.cells, x ∉ t.cells
  cover : ⋃ s ∈ slices, s.cells = Set.Ico a b
  contiguous : ∀ i s, slices[i]? = some s → s.stop = firstStart (slices.drop (i + 1)) b

variable [AddCommGroup α] [LinearOrder α] {s : Slice α} {slices : List (Slice α)} {a b : α}

/-! ### Where the slices of a tiling stop -/

namespace Tiles

theorem firstStart_eq (h : Tiles slices a b) :
  firstStart slices b = a
  := by
  cases slices with
  | nil => exact h.symm
  | cons s slices => exact h.1

theorem contiguous (h : Tiles slices a b) :
  ∀ i s, slices[i]? = some s → s.stop = firstStart (slices.drop (i + 1)) b
  := by
  induction slices generalizing a with
  | nil => exact nofun
  | cons t slices ih =>
      obtain ⟨-, -, hrest⟩ := h
      intro i s hs
      cases i with
      | zero =>
          obtain rfl : t = s := Option.some.inj hs
          apply hrest.firstStart_eq.symm
      | succ i => exact ih hrest i s hs

/-- The lengths add up to the length of the interval. -/
theorem sum_length (h : Tiles slices a b) :
  a + (slices.map length).sum = b
  := by
  induction slices generalizing a with
  | nil =>
      rw [List.map_nil, List.sum_nil, add_zero]
      apply h
  | cons s slices ih =>
      obtain ⟨rfl, -, hrest⟩ := h
      rw [List.map_cons, List.sum_cons, ← add_assoc]
      apply ih hrest

/-- A function that keeps sums and signs keeps tilings. -/
theorem map {β : Type} [Add β] [Zero β] [LE β] {f : α → β} (hadd : ∀ x y, f (x + y) = f x + f y)
    (hnonneg : ∀ x, 0 ≤ x → 0 ≤ f x) (h : Tiles slices a b) :
  Tiles (slices.map (Slice.map f)) (f a) (f b)
  := by
  induction slices generalizing a with
  | nil => exact congrArg f h
  | cons s slices ih =>
      obtain ⟨rfl, hlength, hrest⟩ := h
      have hstop : (s.map f).stop = f s.stop := (hadd s.start s.length).symm
      refine ⟨rfl, hnonneg _ hlength, ?_⟩
      rw [hstop]
      apply ih hrest

end Tiles

/-- Slices of which each stops where the next one starts, and the last one at `b`. -/
theorem tiles_map {β : Type} {f : β → Slice α} {l : List β} (hlength : ∀ x ∈ l, 0 ≤ (f x).length)
    (hnext : ∀ i x y, l[i]? = some x → l[i + 1]? = some y → (f x).stop = (f y).start)
    (hlast : ∀ x, l.getLast? = some x → (f x).stop = b) :
  Tiles (l.map f) (firstStart (l.map f) b) b
  := by
  induction l with
  | nil => rfl
  | cons x l ih =>
      have hrest : Tiles (l.map f) (firstStart (l.map f) b) b := by
        apply ih
        · intro y hy
          apply hlength y (List.mem_cons_of_mem x hy)
        · intro i y z hy hz
          apply hnext (i + 1) y z hy hz
        · intro y hy
          apply hlast
          rw [List.getLast?_cons, hy, Option.getD_some]
      have hstop : (f x).stop = firstStart (l.map f) b := by
        cases l with
        | nil => exact hlast x rfl
        | cons y l => exact hnext 0 x y rfl rfl
      rw [← hstop] at hrest
      exact ⟨rfl, hlength x List.mem_cons_self, hrest⟩

/-- Slices of one length start where their number and the end say. -/
theorem Tiles.eq_of_length {n : α} (h : Tiles slices a b) (hlength : ∀ s ∈ slices, s.length = n) :
  a + slices.length • n = b
  := by
  have hmap : slices.map length = List.replicate slices.length n := by
    apply List.eq_replicate_iff.mpr
    constructor
    · apply List.length_map length
    · intro m hm
      obtain ⟨s, hs, rfl⟩ := List.mem_map.mp hm
      apply hlength s hs
  rw [← List.sum_replicate, ← hmap]
  apply h.sum_length

/-! ### The places of a tiling -/

variable [IsOrderedAddMonoid α]

theorem start_le_stop (h : 0 ≤ s.length) :
  s.start ≤ s.stop
  := le_add_of_nonneg_right h

namespace Tiles

theorem le (h : Tiles slices a b) :
  a ≤ b
  := by
  induction slices generalizing a with
  | nil => exact le_of_eq h
  | cons s slices ih =>
      obtain ⟨rfl, hlength, hrest⟩ := h
      apply le_trans (start_le_stop hlength) (ih hrest)

theorem bounds (h : Tiles slices a b) :
  ∀ s ∈ slices, a ≤ s.start ∧ s.stop ≤ b
  := by
  induction slices generalizing a with
  | nil => exact nofun
  | cons s slices ih =>
      obtain ⟨rfl, hlength, hrest⟩ := h
      intro t ht
      rcases List.mem_cons.mp ht with rfl | ht
      · exact ⟨le_refl _, hrest.le⟩
      · obtain ⟨hstart, hstop⟩ := ih hrest t ht
        exact ⟨le_trans (start_le_stop hlength) hstart, hstop⟩

theorem disjoint (h : Tiles slices a b) :
  slices.Pairwise fun s t => ∀ x ∈ s.cells, x ∉ t.cells
  := by
  induction slices generalizing a with
  | nil => exact List.Pairwise.nil
  | cons s slices ih =>
      obtain ⟨-, -, hrest⟩ := h
      apply List.Pairwise.cons _ (ih hrest)
      intro t ht x hs hx
      obtain ⟨hstart, -⟩ := hrest.bounds t ht
      exact absurd (lt_of_lt_of_le hs.2 hstart) (not_lt.mpr hx.1)

theorem cover (h : Tiles slices a b) :
  ⋃ s ∈ slices, s.cells = Set.Ico a b
  := by
  induction slices generalizing a with
  | nil =>
      obtain rfl : a = b := h
      simp only [List.not_mem_nil, Set.iUnion_of_empty, Set.iUnion_empty, Set.Ico_self]
  | cons s slices ih =>
      obtain ⟨rfl, hlength, hrest⟩ := h
      rw [← Set.Ico_union_Ico_eq_Ico (start_le_stop hlength) hrest.le, ← ih hrest]
      simp only [List.mem_cons, Set.iUnion_iUnion_eq_or_left]
      rfl

theorem tiling (h : Tiles slices a b) :
  Tiling slices a b
  := ⟨h.bounds, h.disjoint, h.cover, h.contiguous⟩

end Tiles

end Slice
