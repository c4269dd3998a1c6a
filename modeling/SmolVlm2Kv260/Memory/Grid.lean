import Mathlib.Algebra.Notation.Defs
import Mathlib.Data.Nat.Notation
import Mathlib.Tactic.SplitIfs

/-!
# Arrays of rows and columns

A `Grid m n α` is an array of `m` rows and `n` columns.  It is read and written at any pair of
numbers: outside of the array a read gives zero and a write changes nothing, so that a loop over
rows has a meaning wherever it begins and ends.  Its values are those of the array as long as it
stays inside.
-/

set_option autoImplicit false

namespace Memory

structure Grid (m n : ℕ) (α : Type) where
  entry : Fin m → Fin n → α

namespace Grid

variable {m n : ℕ} {α : Type} [Zero α]

/-- The value in row `r` and column `c`. -/
def get (g : Grid m n α) (r c : ℕ) : α :=
  if hr : r < m then if hc : c < n then g.entry ⟨r, hr⟩ ⟨c, hc⟩ else 0 else 0

instance : CoeFun (Grid m n α) fun _ => ℕ → ℕ → α := ⟨get⟩

/-- The array with the values of `f`. -/
def ofFn (f : ℕ → ℕ → α) : Grid m n α := ⟨fun r c => f r c⟩

/-- The value in row `r` and column `c` replaced by `v`. -/
def set (g : Grid m n α) (r c : ℕ) (v : α) : Grid m n α :=
  ofFn fun r' c' => if r' = r ∧ c' = c then v else g r' c'

theorem get_ofFn (f : ℕ → ℕ → α) (r c : ℕ) :
  (ofFn f : Grid m n α) r c = if r < m ∧ c < n then f r c else 0
  := by
  rw [get]
  by_cases hr : r < m
  · by_cases hc : c < n
    · rw [dif_pos hr, dif_pos hc, if_pos ⟨hr, hc⟩]
      rfl
    · rw [dif_pos hr, dif_neg hc, if_neg fun h => hc h.2]
  · rw [dif_neg hr, if_neg fun h => hr h.1]

theorem get_ofFn_of_lt (f : ℕ → ℕ → α) {r c : ℕ} (hr : r < m) (hc : c < n) :
  (ofFn f : Grid m n α) r c = f r c
  := by rw [get_ofFn, if_pos ⟨hr, hc⟩]

/-- Arrays are equal when their values inside are. -/
theorem ext_get {g g' : Grid m n α} (h : ∀ r < m, ∀ c < n, g r c = g' r c) :
  g = g'
  := by
  obtain ⟨entry⟩ := g
  obtain ⟨entry'⟩ := g'
  congr 1
  funext r c
  have hvalue := h r r.isLt c c.isLt
  rwa [get, get, dif_pos r.isLt, dif_pos c.isLt, dif_pos r.isLt, dif_pos c.isLt] at hvalue

/-! ### Loops over rows -/

/-- The values of rows `off` to `off + k - 1`, each changed by `f` on its own. -/
def mapRows (g : Grid m n α) (off k : ℕ) (f : ℕ → ℕ → α → α) : Grid m n α :=
  ofFn fun r c => if off ≤ r ∧ r < off + k then f (r - off) c (g r c) else g r c

theorem foldl_set_columns (g : Grid m n α) (r k : ℕ) (f : ℕ → α → α) :
  (List.range k).foldl (fun g c => g.set r c (f c (g r c))) g
    = ofFn fun r' c => if r' = r ∧ c < k then f c (g r c) else g r' c
  := by
  induction k with
  | zero =>
      apply ext_get
      intro r' hr c hc
      rw [List.range_zero, List.foldl_nil, get_ofFn_of_lt _ hr hc, if_neg fun h => by cases h.2]
  | succ k ih =>
      rw [List.range_succ, List.foldl_append, List.foldl_cons, List.foldl_nil, ih]
      apply ext_get
      intro r' hr c hc
      rw [set, get_ofFn_of_lt _ hr hc, get_ofFn_of_lt _ hr hc, get_ofFn_of_lt _ hr hc]
      by_cases hcol : r' = r ∧ c = k
      · obtain ⟨rfl, rfl⟩ := hcol
        rw [if_pos ⟨rfl, rfl⟩, if_pos ⟨rfl, Nat.lt_succ_self c⟩, get_ofFn_of_lt _ hr hc,
          if_neg fun h => Nat.lt_irrefl c h.2]
      · have hlt : r' = r ∧ c < k ↔ r' = r ∧ c < k + 1 := by omega
        rw [if_neg hcol]
        simp only [hlt]

/-- A loop over rows and columns that changes each value once. -/
theorem foldl_set_rows (g : Grid m n α) (off k : ℕ) (f : ℕ → ℕ → α → α) :
  (List.range k).foldl (fun g t =>
      (List.range n).foldl (fun g c => g.set (off + t) c (f t c (g (off + t) c))) g) g
    = g.mapRows off k f
  := by
  induction k with
  | zero =>
      apply ext_get
      intro r hr c hc
      rw [List.range_zero, List.foldl_nil, mapRows, get_ofFn_of_lt _ hr hc, if_neg (by omega)]
  | succ k ih =>
      rw [List.range_succ (n := k), List.foldl_append, List.foldl_cons, List.foldl_nil, ih,
        foldl_set_columns _ _ _ (f k)]
      apply ext_get
      intro r hr c hc
      rw [mapRows, mapRows, get_ofFn_of_lt _ hr hc, get_ofFn_of_lt _ hr hc]
      by_cases hrow : r = off + k
      · subst hrow
        rw [if_pos ⟨rfl, hc⟩, get_ofFn_of_lt _ hr hc, get_ofFn_of_lt _ hr hc, if_neg (by omega),
          if_pos (by omega), Nat.add_sub_cancel_left]
      · have hlt : off ≤ r ∧ r < off + k ↔ off ≤ r ∧ r < off + (k + 1) := by omega
        rw [if_neg fun h => hrow h.1, get_ofFn_of_lt _ hr hc]
        simp only [hlt]

end Grid

end Memory
