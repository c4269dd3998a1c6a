import Mathlib.Data.List.Basic
import Mathlib.Data.List.GetD
import Mathlib.Order.Lattice

/-!
# Blocks of lists

A loop that writes `k` values in each of its `n` iterations writes a list of `n` blocks of
length `k`; the value at position `i * k + j` is the `j`-th of block `i`.  A loop over
`0, …, n - 1` may be split into tiles of `T` iterations, of which the last one may be
shorter: `tileCount T n` tiles, the `i`-th of length `tileLen T n i`.

A loop may write to successive places, and what is read at one place is then what its iteration
wrote.  It may also keep the largest of the values it has seen.
-/

set_option autoImplicit false

namespace Blocks

variable {α : Type}

/-! ### Indices in blocks of constant length -/

theorem mul_add_div_of_lt {i j k : ℕ} (hj : j < k) :
  (i * k + j) / k = i
  := by rw [Nat.mul_comm, Nat.mul_add_div (Nat.zero_lt_of_lt hj), Nat.div_eq_of_lt hj, Nat.add_zero]

theorem mul_add_lt_mul {i j n k : ℕ} (hi : i < n) (hj : j < k) :
  i * k + j < n * k
  := by
  rw [← Nat.div_lt_iff_lt_mul (Nat.zero_lt_of_lt hj), mul_add_div_of_lt hj]
  exact hi

/-- The indices below `n * k` are the pairs of an index of a block and one in it. -/
theorem forall_lt_mul_iff {n k : ℕ} {P : ℕ → ℕ → Prop} :
  (∀ i < n * k, P (i / k) (i % k)) ↔ ∀ i < n, ∀ j < k, P i j
  := by
  constructor
  · intro h i hi j hj
    have hindex := h (i * k + j) (mul_add_lt_mul hi hj)
    rwa [mul_add_div_of_lt hj, Nat.mul_add_mod_of_lt hj] at hindex
  · intro h i hi
    have hpos : 0 < k := Nat.pos_of_mul_pos_left (Nat.zero_lt_of_lt hi)
    apply h
    · apply Nat.div_lt_of_lt_mul
      rwa [Nat.mul_comm]
    · apply Nat.mod_lt i hpos

/-! ### Blocks of constant length -/

theorem length_flatMap_range {n k : ℕ} {f : ℕ → List α} (hf : ∀ i < n, (f i).length = k) :
  ((List.range n).flatMap f).length = n * k
  := by
  induction n with
  | zero => simp
  | succ n ih =>
      rw [List.range_succ, List.flatMap_append, List.length_append, List.flatMap_singleton,
        ih fun i hi => hf i (Nat.lt_succ_of_lt hi), hf n n.lt_succ_self, Nat.succ_mul]

/-- What holds of the entries of a list, and of the default, holds at every index. -/
theorem forall_getD {l : List α} {P : α → Prop} (h : ∀ y ∈ l, P y) {a : α} (ha : P a) (i : ℕ) :
  P (l.getD i a)
  := by
  rcases Nat.lt_or_ge i l.length with inside | outside
  · rw [List.getD_eq_getElem _ _ inside]
    exact h _ (List.getElem_mem inside)
  · rwa [List.getD_eq_default _ _ outside]

/-- Reading a list entry by entry gives the list. -/
theorem map_range_getD {n : ℕ} {l : List α} (h : l.length = n) (a : α) :
  ((List.range n).map fun i => l.getD i a) = l
  := by
  subst h
  apply List.ext_getElem
  · rw [List.length_map, List.length_range]
  · intro i hi hi'
    rw [List.getElem_map, List.getElem_range, List.getD_eq_getElem?_getD,
      List.getElem?_eq_getElem hi', Option.getD_some]

/-- The first `m` blocks, followed by the others. -/
theorem flatMap_range_split (f : ℕ → List α) {m n : ℕ} (h : m ≤ n) :
  (List.range n).flatMap f
    = (List.range m).flatMap f ++ (List.range (n - m)).flatMap fun i => f (m + i)
  := by
  obtain ⟨d, rfl⟩ := Nat.exists_eq_add_of_le h
  rw [Nat.add_sub_cancel_left, List.range_add, List.flatMap_append, List.flatMap_map]

/-- The value at position `i * k + j` is the `j`-th value of block `i`. -/
theorem getElem?_flatMap_range {n k i j : ℕ} {f : ℕ → List α}
    (hf : ∀ i < n, (f i).length = k) (hi : i < n) (hj : j < k) :
  ((List.range n).flatMap f)[i * k + j]? = (f i)[j]?
  := by
  have hlen : ((List.range i).flatMap f).length = i * k :=
    length_flatMap_range fun i' hi' => hf i' (Nat.lt_trans hi' hi)
  have hrest : (List.range (n - i)).flatMap (fun d => f (i + d))
      = f i ++ (List.range (n - i - 1)).flatMap fun d => f (i + 1 + d) := by
    have h := flatMap_range_split (fun d => f (i + d)) (m := 1) (n := n - i) (by omega)
    simp only [List.range_one, List.flatMap_singleton, ← Nat.add_assoc, Nat.add_zero] at h
    apply h
  have hblock : j < (f i).length := by rwa [hf i hi]
  rw [flatMap_range_split f (Nat.le_of_lt hi), ← hlen,
    List.getElem?_append_right (Nat.le_add_right _ _), Nat.add_sub_cancel_left, hrest,
    List.getElem?_append_left hblock]

/-- Dropping `i` blocks leaves the blocks from `i` on. -/
theorem drop_flatMap_range {n k i : ℕ} {f : ℕ → List α}
    (hf : ∀ i < n, (f i).length = k) (hi : i ≤ n) :
  ((List.range n).flatMap f).drop (i * k) = (List.range (n - i)).flatMap fun d => f (i + d)
  := by
  have hlen : ((List.range i).flatMap f).length = i * k :=
    length_flatMap_range fun i' hi' => hf i' (Nat.lt_of_lt_of_le hi' hi)
  rw [flatMap_range_split f hi, ← hlen, List.drop_left]

/-- Block `i` of the list. -/
theorem take_drop_flatMap_range {n k i : ℕ} {f : ℕ → List α}
    (hf : ∀ i < n, (f i).length = k) (hi : i < n) :
  (((List.range n).flatMap f).drop (i * k)).take k = f i
  := by
  have hsucc : n - i = (n - i - 1) + 1 := by omega
  rw [drop_flatMap_range hf (Nat.le_of_lt hi), hsucc, List.range_succ_eq_map, List.flatMap_cons,
    Nat.add_zero]
  apply List.take_left' (hf i hi)

/-- Lists of blocks of one length agree when they agree block by block. -/
theorem flatMap_range_inj {n k : ℕ} {f g : ℕ → List α} (hf : ∀ i < n, (f i).length = k)
    (hg : ∀ i < n, (g i).length = k) :
  (List.range n).flatMap f = (List.range n).flatMap g ↔ ∀ i < n, f i = g i
  := by
  constructor
  · intro h i hi
    rw [← take_drop_flatMap_range hf hi, h, take_drop_flatMap_range hg hi]
  · intro h
    apply List.flatMap_congr
    intro i hi
    apply h i (List.mem_range.mp hi)

/-- The list begins as its first block does. -/
theorem flatMap_range_eq_cons {n : ℕ} {f : ℕ → List α} {a : α} (hn : 0 < n)
    (h : ∃ l, f 0 = a :: l) :
  ∃ l, (List.range n).flatMap f = a :: l
  := by
  obtain ⟨m, rfl⟩ := Nat.exists_eq_add_of_le' hn
  obtain ⟨l, hl⟩ := h
  rw [List.range_succ_eq_map, List.flatMap_cons, hl]
  exact ⟨_, rfl⟩

/-- Two nested loops over `n` and `k` are one loop over `n * k`. -/
theorem flatMap_range_mul (n k : ℕ) (f : ℕ → List α) :
  ((List.range n).flatMap fun i => (List.range k).flatMap fun j => f (i * k + j))
    = (List.range (n * k)).flatMap f
  := by
  induction n with
  | zero => rw [Nat.zero_mul, List.range_zero, List.flatMap_nil]; rfl
  | succ n ih =>
      rw [List.range_succ, List.flatMap_append, List.flatMap_singleton, ih, Nat.succ_mul,
        List.range_add, List.flatMap_append, List.flatMap_map]

/-- Two nested loops as one, with both indices computed from its own. -/
theorem flatMap_range_div_mod (k n : ℕ) (f : ℕ → ℕ → List α) :
  ((List.range n).flatMap fun i => (List.range k).flatMap (f i))
    = (List.range (n * k)).flatMap fun u => f (u / k) (u % k)
  := by
  rw [← flatMap_range_mul]
  apply List.flatMap_congr
  intro i _
  apply List.flatMap_congr
  intro j hj
  have hlt := List.mem_range.mp hj
  rw [mul_add_div_of_lt hlt, Nat.mul_add_mod_of_lt hlt]

/-- Two loops one after the other are one loop. -/
theorem flatMap_range_append (m n : ℕ) (f : ℕ → List α) :
  (List.range (m + n)).flatMap f
    = (List.range m).flatMap f ++ (List.range n).flatMap fun i => f (m + i)
  := by
  rw [List.range_add, List.flatMap_append, List.flatMap_map]

theorem map_range_mul (n k : ℕ) (f : ℕ → α) :
  ((List.range n).flatMap fun i => (List.range k).map fun j => f (i * k + j))
    = (List.range (n * k)).map f
  := by
  simp only [List.map_eq_flatMap, flatMap_range_mul n k fun i => [f i]]

/-- A fold with two nested loops over `n` and `k` is one over `n * k`. -/
theorem foldl_range_mul {β : Type} (n k : ℕ) (f : β → ℕ → β) (b : β) :
  (List.range n).foldl (fun b i => (List.range k).foldl (fun b j => f b (i * k + j)) b) b
    = (List.range (n * k)).foldl f b
  := by
  have hrange := map_range_mul n k fun i => i
  rw [List.map_id'] at hrange
  rw [← hrange, List.foldl_flatMap]
  simp only [List.foldl_map]

/-! ### Successive places -/

/-- What is read at place `k` after a loop that writes to the places from `base` on. -/
theorem foldl_range_write {M V : Type} {r : M → V} {f : M → ℕ → M} {v : ℕ → V} {k base : ℤ}
    (hf : ∀ m (i : ℕ), r (f m i) = if k = base + i then v i else r m) (m : M) (n : ℕ) :
  r ((List.range n).foldl f m) = if base ≤ k ∧ k < base + n then v (k - base).toNat else r m
  := by
  induction n with
  | zero => rw [List.range_zero, List.foldl_nil, if_neg (by omega)]
  | succ n ih =>
      rw [List.range_succ, List.foldl_append, List.foldl_cons, List.foldl_nil, hf, ih]
      rcases eq_or_ne k (base + n) with rfl | hne
      · have hlast : (base + n - base).toNat = n := by omega
        rw [if_pos rfl, if_pos (by omega), hlast]
      · rw [if_neg hne]
        by_cases hin : base ≤ k ∧ k < base + n
        · rw [if_pos hin, if_pos (by omega)]
        · rw [if_neg hin, if_neg (by omega)]

/-! ### Tiles -/

/-- The number of tiles of length `T` that cover `0, …, n - 1`. -/
def tileCount (T n : ℕ) : ℕ := (n + T - 1) / T

/-- The length of the `i`-th tile of length `T` of `0, …, n - 1`. -/
def tileLen (T n i : ℕ) : ℕ := if i * T + T ≤ n then T else n - i * T

theorem lt_of_lt_tileCount {T n i : ℕ} (hT : 0 < T) (h : i < tileCount T n) :
  i * T < n
  := by
  have h' := (Nat.le_div_iff_mul_le hT).mp (Nat.succ_le_of_lt h)
  rw [Nat.succ_mul] at h'
  omega

theorem le_tileCount_mul {T : ℕ} (hT : 0 < T) (n : ℕ) :
  n ≤ tileCount T n * T
  := by
  have h := Nat.div_add_mod (n + T - 1) T
  have hlt := Nat.mod_lt (n + T - 1) hT
  rw [tileCount, Nat.mul_comm]
  omega

theorem tileCount_pos {T n : ℕ} (hT : 0 < T) (hn : 0 < n) :
  0 < tileCount T n
  := by
  have h := le_tileCount_mul hT n
  apply Nat.pos_of_mul_pos_right (Nat.lt_of_lt_of_le hn h)

theorem tileLen_le (T n i : ℕ) :
  tileLen T n i ≤ T
  := by
  rw [tileLen]
  split <;> omega

theorem tile_lt {T n i j : ℕ} (hj : j < tileLen T n i) :
  i * T + j < n
  := by
  rw [tileLen] at hj
  split at hj <;> omega

/-- One tile covers `0, …, n - 1` when it is long enough. -/
theorem tileCount_eq_one {T n : ℕ} (hn : 0 < n) (h : n ≤ T) :
  tileCount T n = 1
  := by
  rw [tileCount, Nat.div_eq_iff (by omega)]
  omega

theorem range_tiles_aux {T n : ℕ} (hT : 0 < T) {m : ℕ} (hm : m ≤ tileCount T n) :
  ((List.range m).flatMap fun i => (List.range (tileLen T n i)).map fun j => i * T + j)
    = List.range (min (m * T) n)
  := by
  induction m with
  | zero => simp
  | succ m ih =>
      have hlt := lt_of_lt_tileCount hT (Nat.lt_of_succ_le hm)
      rw [List.range_succ, List.flatMap_append, List.flatMap_singleton,
        ih (Nat.le_of_succ_le hm), Nat.min_eq_left (Nat.le_of_lt hlt), ← List.range_add, tileLen,
        Nat.succ_mul]
      congr 1
      split <;> omega

/-- The tiles of `0, …, n - 1`, one after the other, are `0, …, n - 1`. -/
theorem range_tiles {T : ℕ} (hT : 0 < T) (n : ℕ) :
  ((List.range (tileCount T n)).flatMap fun i =>
      (List.range (tileLen T n i)).map fun j => i * T + j)
    = List.range n
  := by
  rw [range_tiles_aux hT (Nat.le_refl _), Nat.min_eq_right (le_tileCount_mul hT n)]

/-- Every number below `n` lies in a tile, at some distance from its start. -/
theorem lt_iff_exists_tile {T : ℕ} (hT : 0 < T) {n p : ℕ} :
  p < n ↔ ∃ i < tileCount T n, ∃ j < tileLen T n i, i * T + j = p
  := by
  rw [← List.mem_range, ← range_tiles hT n]
  simp only [List.mem_flatMap, List.mem_map, List.mem_range]

/-- A loop over the tiles, with a loop over each tile inside, is a loop over the whole. -/
theorem flatMap_tiles {T : ℕ} (hT : 0 < T) (n : ℕ) (f : ℕ → List α) :
  ((List.range (tileCount T n)).flatMap fun i =>
      (List.range (tileLen T n i)).flatMap fun j => f (i * T + j))
    = (List.range n).flatMap f
  := by
  rw [← range_tiles hT n, List.flatMap_assoc]
  simp only [List.flatMap_map]

/-! ### Running maxima -/

section Maximum

variable {β : Type} [LinearOrder β] (f : α → β)

/-- The maximum of a loop that keeps the larger value is bounded like all values it has seen. -/
theorem foldl_max_le_iff {l : List α} {a b : β} :
  l.foldl (fun m x => if f x > m then f x else m) a ≤ b ↔ a ≤ b ∧ ∀ x ∈ l, f x ≤ b
  := by
  induction l generalizing a with
  | nil => simp
  | cons x l ih =>
      have hmax : (if f x > a then f x else a) ≤ b ↔ f x ≤ b ∧ a ≤ b := by
        split
        · rename_i h
          constructor
          · intro hx
            exact ⟨hx, le_trans (le_of_lt h) hx⟩
          · apply And.left
        · rename_i h
          constructor
          · intro ha
            exact ⟨le_trans (not_lt.mp h) ha, ha⟩
          · apply And.right
      rw [List.foldl_cons, ih, hmax, List.forall_mem_cons, and_comm (a := f x ≤ b), and_assoc]

/-- What the loop starts with is no more than what it ends with. -/
theorem le_foldl_max (l : List α) (a : β) :
  a ≤ l.foldl (fun m x => if f x > m then f x else m) a
  := ((foldl_max_le_iff f).mp (le_refl _)).1

/-- None of the values is more than what it ends with. -/
theorem le_foldl_max_of_mem {l : List α} {x : α} (hx : x ∈ l) (a : β) :
  f x ≤ l.foldl (fun m x => if f x > m then f x else m) a
  := ((foldl_max_le_iff f).mp (le_refl _)).2 x hx

/-- The loop ends with what it starts with, or with one of the values. -/
theorem foldl_max_mem (l : List α) (a : β) :
  l.foldl (fun m x => if f x > m then f x else m) a = a
    ∨ ∃ x ∈ l, f x = l.foldl (fun m x => if f x > m then f x else m) a
  := by
  induction l generalizing a with
  | nil =>
      left
      rfl
  | cons x l ih =>
      rw [List.foldl_cons]
      rcases ih (if f x > a then f x else a) with h | ⟨y, hy, h⟩
      · rw [h]
        split
        · right
          use x, List.mem_cons_self
        · left
          rfl
      · right
        use y, List.mem_cons_of_mem x hy

end Maximum

end Blocks
