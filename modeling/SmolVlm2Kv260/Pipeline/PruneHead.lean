import Mathlib.Data.List.FinRange
import SmolVlm2Kv260.Arith.OrderStatistics
import SmolVlm2Kv260.FakeQuant.Formats

/-!
# Magnitude pruning of the output head

`prune_lm_head_magnitude` of `quant_pipeline/modeling.py` sets to zero the elements of the weight
whose magnitude is at most a threshold, on exact rationals.  The elements that equal the threshold
are removed together with it, however many there are.
-/

set_option autoImplicit false

namespace Kv260

open OrderStatistics

/-- The modules that `lm_head` may be, with their weight. -/
inductive LmHeadModule where
  | quantizedLinear (weight : Tensor)
  | linear (weight : Tensor)
  | other (className : String)

/-- `LmHeadPruneStat`. -/
structure LmHeadPruneStat where
  ratioRequested : ℚ
  ratioApplied : ℚ
  prunedCount : ℕ
  totalCount : ℕ
  threshold : ℚ
  zeroCountAfter : ℕ
  zeroRatioAfter : ℚ

/-- `_resolve_weight_parameter`, with the text of its `TypeError`. -/
def resolveWeightParameter : LmHeadModule → Except String Tensor
  | .quantizedLinear weight => .ok weight
  | .linear weight => .ok weight
  | .other className => .error s!"Unsupported lm_head module type: {className}"

/-- The module with another weight. -/
def LmHeadModule.setWeight : LmHeadModule → Tensor → LmHeadModule
  | .quantizedLinear _, weight => .quantizedLinear weight
  | .linear _, weight => .linear weight
  | .other className, _ => .other className

/-- A module with a weight keeps the weight that is set. -/
theorem LmHeadModule.setWeight_inj {head : LmHeadModule} {weight first second : Tensor}
    (h : resolveWeightParameter head = .ok weight)
    (same : head.setWeight first = head.setWeight second) :
  first = second
  := by
  cases head with
  | quantizedLinear => exact LmHeadModule.quantizedLinear.inj same
  | linear => exact LmHeadModule.linear.inj same
  | other className => cases h

/-- `max(0.0, min(1.0, ratio))`. -/
def clampRatio (ratio : ℚ) : ℚ := max 0 (min 1 ratio)

/-- `min(total_count - 1, int(total_count * ratio))`. -/
def pruneCount (totalCount : ℕ) (ratio : ℚ) : ℕ := min (totalCount - 1) ⌊totalCount * ratio⌋₊

namespace Tensor

/-- `numel()`. -/
def numel (weight : Tensor) : ℕ := weight.shape.prod

/-- `weight.abs().reshape(-1)`. -/
def flatAbs (weight : Tensor) : List ℚ := List.ofFn fun i => |weight.data i|

/-- `(weight == 0).sum()`. -/
def zeroCount (weight : Tensor) : ℕ :=
  (List.finRange weight.shape.prod).countP fun i => weight.data i = 0

/-- A mask of the elements: whether each of them is kept. -/
abbrev Mask (weight : Tensor) : Type := Fin weight.shape.prod → Bool

variable (weight : Tensor)

/-- `mask.sum()`. -/
def kept {weight : Tensor} (mask : weight.Mask) : ℕ :=
  (List.finRange weight.shape.prod).countP fun i => mask i

/-- `weight.mul_(mask)`. -/
def masked (mask : weight.Mask) : Tensor :=
  weight.reshapeAs fun i =>
    if h : i < weight.shape.prod then weight.data ⟨i, h⟩ * (if mask ⟨i, h⟩ then 1 else 0) else 0

theorem length_flatAbs :
  weight.flatAbs.length = weight.numel
  := List.length_ofFn

/-- The `kthvalue` of a positive number of elements to be removed exists. -/
theorem pred_pruneCount_lt {ratio : ℚ} (h : ¬ pruneCount weight.numel ratio = 0) :
  pruneCount weight.numel ratio - 1 < weight.flatAbs.length
  := by
  have at_most : pruneCount weight.numel ratio ≤ weight.numel - 1 := min_le_left _ _
  rw [length_flatAbs]
  omega

/-- `mask`, the elements above the threshold. -/
def thresholdMask (threshold : ℚ) : weight.Mask := fun i => threshold < |weight.data i|

/-- `flat_mask`, the elements that `topk` selects. -/
def topkMask (topk : List ℚ → ℕ → List ℕ) (count : ℕ) : weight.Mask := fun i =>
  i.val ∈ topk weight.flatAbs count

/-- The threshold and the mask, unless `prune_lm_head_magnitude` returns before it has them.
`topk` gives the indices of the largest elements. -/
def pruneMask (topk : List ℚ → ℕ → List ℕ) (ratio : ℚ) : Option (ℚ × weight.Mask) :=
  if weight.numel = 0 ∨ ratio ≤ 0 then none
  else if h : pruneCount weight.numel ratio = 0 then none
  else
    let threshold :=
      ranked weight.flatAbs ⟨pruneCount weight.numel ratio - 1, weight.pred_pruneCount_lt h⟩
    let mask := weight.thresholdMask threshold
    if kept mask = weight.numel then
      some (threshold, weight.topkMask topk (weight.numel - pruneCount weight.numel ratio))
    else some (threshold, mask)

/-- The weight and the record that `prune_lm_head_magnitude` leaves, for a clamped ratio. -/
def pruneMagnitude (topk : List ℚ → ℕ → List ℕ) (ratio : ℚ) : Tensor × LmHeadPruneStat :=
  match weight.pruneMask topk ratio with
  | none =>
      (weight,
        { ratioRequested := ratio
          ratioApplied := 0
          prunedCount := 0
          totalCount := weight.numel
          threshold := 0
          zeroCountAfter := weight.zeroCount
          zeroRatioAfter := if weight.numel = 0 then 0 else weight.zeroCount / weight.numel })
  | some (threshold, mask) =>
      let pruned := weight.masked mask
      let prunedCount := weight.numel - kept mask
      (pruned,
        { ratioRequested := ratio
          ratioApplied := if weight.numel = 0 then 0 else prunedCount / weight.numel
          prunedCount := prunedCount
          totalCount := weight.numel
          threshold := threshold
          zeroCountAfter := pruned.zeroCount
          zeroRatioAfter := if weight.numel = 0 then 0 else pruned.zeroCount / weight.numel })

end Tensor

/-- `prune_lm_head_magnitude`: the module that it leaves and the record that it returns. -/
def pruneLmHeadMagnitude (topk : List ℚ → ℕ → List ℕ) (head : LmHeadModule) (ratio : ℚ) :
    Except String (LmHeadModule × LmHeadPruneStat) := do
  let weight ← resolveWeightParameter head
  let (pruned, stat) := weight.pruneMagnitude topk (clampRatio ratio)
  return (head.setWeight pruned, stat)

namespace Tensor

variable (weight : Tensor)

/-! ### What a mask removes -/

/-- How many elements a mask removes. -/
def removed {weight : Tensor} (mask : weight.Mask) : ℕ :=
  (List.finRange weight.shape.prod).countP fun i => !mask i

theorem kept_add_removed {weight : Tensor} (mask : weight.Mask) :
  kept mask + removed mask = weight.numel
  := by
  have split := List.length_eq_countP_add_countP (fun i => mask i)
    (l := List.finRange weight.shape.prod)
  rw [List.length_finRange] at split
  rw [numel, split, kept, removed]
  congr 2
  funext i
  cases mask i <;> rfl

/-- A mask keeps the elements that it does not set to zero. -/
theorem flat_masked (mask : weight.Mask) (i : Fin weight.shape.prod) :
  (weight.masked mask).flat i = if mask i then weight.flat i else 0
  := by
  rw [masked, flat_reshapeAs weight _ i.isLt, flat, dif_pos i.isLt, dif_pos i.isLt]
  cases mask i <;> simp

/-- The threshold removes the magnitudes that are at most as large. -/
theorem removed_thresholdMask (threshold : ℚ) :
  removed (weight.thresholdMask threshold) = weight.flatAbs.countP (· ≤ threshold)
  := by
  rw [flatAbs, List.ofFn_eq_map, List.countP_map, removed]
  congr 1
  funext i
  simp only [thresholdMask, Function.comp_apply, ← decide_not, not_lt]

/-- Which elements `prune_lm_head_magnitude` keeps: all when it returns before it has a mask. -/
def keepMask (topk : List ℚ → ℕ → List ℕ) (ratio : ℚ) : weight.Mask :=
  match weight.pruneMask topk ratio with
  | none => fun _ => true
  | some (_, mask) => mask

theorem flat_pruneMagnitude (topk : List ℚ → ℕ → List ℕ) (ratio : ℚ)
    (i : Fin weight.shape.prod) :
  (weight.pruneMagnitude topk ratio).1.flat i
    = if weight.keepMask topk ratio i then weight.flat i else 0
  := by
  rw [pruneMagnitude, keepMask]
  cases weight.pruneMask topk ratio with
  | none => rfl
  | some cut => apply flat_masked

theorem prunedCount_pruneMagnitude (topk : List ℚ → ℕ → List ℕ) (ratio : ℚ) :
  (weight.pruneMagnitude topk ratio).2.prunedCount = removed (weight.keepMask topk ratio)
  := by
  rw [pruneMagnitude, keepMask]
  cases weight.pruneMask topk ratio with
  | none => simp [removed]
  | some cut =>
    have all := kept_add_removed cut.2
    change weight.numel - kept cut.2 = removed cut.2
    omega

/-- Nothing is removed when no element is to be removed. -/
theorem keepMask_of_pruneCount_eq_zero (topk : List ℚ → ℕ → List ℕ) {ratio : ℚ}
    (h : pruneCount weight.numel ratio = 0) :
  weight.keepMask topk ratio = fun _ => true
  := by
  rw [keepMask, pruneMask, dif_pos h, ite_self]

/-- At least as many elements are removed as are asked for, so that `topk` is never called. -/
theorem keepMask_of_pruneCount_ne_zero (topk : List ℚ → ℕ → List ℕ) {ratio : ℚ}
    (h : pruneCount weight.numel ratio ≠ 0) :
  weight.keepMask topk ratio = weight.thresholdMask
    (ranked weight.flatAbs ⟨pruneCount weight.numel ratio - 1, weight.pred_pruneCount_lt h⟩)
  := by
  have not_early : ¬ (weight.numel = 0 ∨ ratio ≤ 0) := by
    rintro (no_element | no_ratio)
    · apply h
      rw [no_element, pruneCount, Nat.zero_sub, Nat.zero_min]
    · apply h
      rw [pruneCount, Nat.floor_of_nonpos, Nat.min_zero]
      exact mul_nonpos_of_nonneg_of_nonpos (Nat.cast_nonneg _) no_ratio
  have some_removed := rank_lt_countP weight.flatAbs
    ⟨pruneCount weight.numel ratio - 1, weight.pred_pruneCount_lt h⟩
  rw [← removed_thresholdMask] at some_removed
  have all := kept_add_removed (weight.thresholdMask
    (ranked weight.flatAbs ⟨pruneCount weight.numel ratio - 1, weight.pred_pruneCount_lt h⟩))
  have not_all_kept : ¬ kept (weight.thresholdMask (ranked weight.flatAbs
      ⟨pruneCount weight.numel ratio - 1, weight.pred_pruneCount_lt h⟩)) = weight.numel := by
    omega
  rw [keepMask, pruneMask, if_neg not_early, dif_neg h]
  simp only [if_neg not_all_kept]

/-! ### What is asked of the pruning -/

/-- When `count` elements are to be removed, the smallest magnitude to be kept is larger than the
largest one to be removed. -/
def ClearCut (count : ℕ) : Prop :=
  count = 0 ∨ ∃ h : count < weight.flatAbs.length,
    ranked weight.flatAbs ⟨count - 1, by omega⟩ < ranked weight.flatAbs ⟨count, h⟩

instance (count : ℕ) : Decidable (weight.ClearCut count) :=
  inferInstanceAs (Decidable (count = 0 ∨ ∃ h : count < weight.flatAbs.length,
    ranked weight.flatAbs ⟨count - 1, by omega⟩ < ranked weight.flatAbs ⟨count, h⟩))

end Tensor

/-- A weight is pruned as requested, by at most `limit` elements: `mask` says which elements are
kept, `pruned` is the weight afterwards and `stat` the record. -/
structure PrunedAsRequested (weight : Tensor) (mask : weight.Mask) (limit : ℕ) (pruned : Tensor)
    (stat : LmHeadPruneStat) : Prop where
  at_most : Tensor.removed mask ≤ limit
  kept : ∀ i, mask i = true → pruned.flat i.val = weight.flat i.val
  zeroed : ∀ i, mask i = false → pruned.flat i.val = 0
  smallest : ∀ i j, mask i = true → mask j = false → |weight.data j| ≤ |weight.data i|
  counted : stat.prunedCount = Tensor.removed mask

/-- A threshold removes the smallest magnitudes. -/
theorem Tensor.smallest_thresholdMask (weight : Tensor) (threshold : ℚ)
    (i j : Fin weight.shape.prod) (hi : weight.thresholdMask threshold i = true)
    (hj : weight.thresholdMask threshold j = false) :
  |weight.data j| ≤ |weight.data i|
  := by
  have above : threshold < |weight.data i| := of_decide_eq_true hi
  have below : |weight.data j| ≤ threshold := not_lt.mp (of_decide_eq_false hj)
  apply le_trans below above.le

/-- Whatever is removed, the rest of the request is met. -/
theorem prunedAsRequested_iff_removed_le (topk : List ℚ → ℕ → List ℕ) (weight : Tensor)
    (ratio : ℚ) (limit : ℕ) :
  PrunedAsRequested weight (weight.keepMask topk ratio) limit
      (weight.pruneMagnitude topk ratio).1 (weight.pruneMagnitude topk ratio).2
    ↔ Tensor.removed (weight.keepMask topk ratio) ≤ limit
  := by
  constructor
  · intro h
    exact h.at_most
  · intro h
    refine ⟨h, ?_, ?_, ?_, weight.prunedCount_pruneMagnitude topk ratio⟩
    · intro i hi
      rw [weight.flat_pruneMagnitude topk ratio i, if_pos hi]
    · intro i hi
      rw [weight.flat_pruneMagnitude topk ratio i, if_neg (by simp [hi])]
    · intro i j hi hj
      by_cases none_asked : pruneCount weight.numel ratio = 0
      · rw [weight.keepMask_of_pruneCount_eq_zero topk none_asked] at hj
        exact absurd hj (by simp)
      · rw [weight.keepMask_of_pruneCount_ne_zero topk none_asked] at hi hj
        apply weight.smallest_thresholdMask _ i j hi hj

/-- The removed elements are as many as are asked for exactly when no magnitude equals the
largest one to be removed. -/
theorem removed_keepMask_le_iff (topk : List ℚ → ℕ → List ℕ) (weight : Tensor) (ratio : ℚ) :
  Tensor.removed (weight.keepMask topk ratio) ≤ pruneCount weight.numel ratio
    ↔ weight.ClearCut (pruneCount weight.numel ratio)
  := by
  by_cases none_asked : pruneCount weight.numel ratio = 0
  · rw [weight.keepMask_of_pruneCount_eq_zero topk none_asked]
    simp [Tensor.removed, Tensor.ClearCut, none_asked]
  · have at_most : pruneCount weight.numel ratio ≤ weight.numel - 1 := min_le_left _ _
    have next : pruneCount weight.numel ratio - 1 + 1 < weight.flatAbs.length := by
      rw [weight.length_flatAbs]
      omega
    have counted := countP_le_ranked_iff weight.flatAbs next
    have again : pruneCount weight.numel ratio - 1 + 1 = pruneCount weight.numel ratio := by
      omega
    rw [weight.keepMask_of_pruneCount_ne_zero topk none_asked, weight.removed_thresholdMask,
      Tensor.ClearCut]
    simp only [again] at counted next
    rw [counted]
    constructor
    · intro h
      exact .inr ⟨next, h⟩
    · rintro (none | ⟨_, h⟩)
      · exact absurd none none_asked
      · exact h

end Kv260
