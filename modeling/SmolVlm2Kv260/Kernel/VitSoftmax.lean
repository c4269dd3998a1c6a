import SmolVlm2Kv260.Kernel.TwoPass

/-!
# The registers of the vision attention

`vit_attention_full` keeps the product of a query and a key in an `INT43`, its score and the
distance to the largest score in an `INT32`, and the weighted sum of the values in an `INT43`.
What it writes is compared with the average in the unbounded integers.  The registers hold the
exact values when the scores, their distances and the weighted sums fit, and then so do the lanes
that are written.  They do for all buffers whose entries are at most 11585, and for no larger
bound.
-/

set_option autoImplicit false

namespace Kv260

open Blocks Memory

/-! ### The average in the unbounded integers -/

section Exact

variable (s v : ℕ → ℤ) (n : ℕ)

/-- `approx_exp_q15` of any integer. -/
def expNeg (x : ℤ) : ℤ :=
  if 0 ≤ x then q15OneI16 else if -x ≥ 512 then 0 else kExpNegLutQ15.getD (-x).toNat 0

/-- The largest of `n` scores. -/
def largest : ℤ := (List.range n).foldl (fun m j => if s j > m then s j else m) (s 0)

/-- The weight of a score. -/
def exactWeight (j : ℕ) : ℤ := expNeg (s j - largest s n)

def exactWeightedSum : ℤ := ∑ j ∈ Finset.range n, exactWeight s n j * v j

/-- The average of the values, weighted by their scores and truncated. -/
def exactAverage : ℤ := (exactWeightedSum s v n).tdiv (∑ j ∈ Finset.range n, exactWeight s n j)

/-- An argument whose negation fits an `INT32` too needs no more than the registers. -/
theorem approxExpQ15_eq {x : ℤ} (h : -2 ^ 31 < x) (h' : x < 2 ^ 31) :
  approxExpQ15 x = expNeg x
  := by
  rw [approxExpQ15, expNeg]
  simp only [apInt_of_mem (w := 32) (x := -x) (by decide) (by omega) (by omega)]

theorem expNeg_zero :
  expNeg 0 = q15OneI16
  := rfl

theorem expNeg_of_far {x : ℤ} (h : x ≤ -512) :
  expNeg x = 0
  := by
  rw [expNeg, if_neg (by omega), if_pos (by omega)]

/-- A distance that does not fit an `INT32` gets the largest weight. -/
theorem vitExpApprox_of_wrapped {x : ℤ} (h : -2 ^ 32 < x) (h' : x ≤ -2 ^ 31) :
  vitExpApprox x = q15OneI16
  := by
  rw [vitExpApprox]
  rcases eq_or_lt_of_le h' with rfl | hlt
  · decide
  · have hwrap : apInt 32 x = x + 2 ^ 32 := by
      rw [apInt]
      omega
    rw [hwrap, approxExpQ15, if_pos (by omega)]

theorem expNeg_mem (x : ℤ) :
  0 ≤ expNeg x ∧ expNeg x ≤ q15OneI16
  := by
  rcases le_or_gt x (-512) with hfar | hnear
  · rw [expNeg_of_far hfar]
    decide
  · rcases le_or_gt 0 x with hnonneg | hneg
    · rw [expNeg, if_pos hnonneg]
      decide
    · rw [← approxExpQ15_eq (by omega) (by omega)]
      apply approxExpQ15_mem

variable {s v n}

theorem le_largest {j : ℕ} (hj : j < n) :
  s j ≤ largest s n
  := le_foldl_max_of_mem s (List.mem_range.mpr hj) _

theorem exists_largest (hn : 0 < n) :
  ∃ j < n, s j = largest s n
  := by
  rcases foldl_max_mem s (List.range n) (s 0) with h | ⟨j, hj, h⟩
  · use 0, hn
    apply h.symm
  · use j, List.mem_range.mp hj
    apply h

/-- The register of the kernel starts at `-2147483647`. -/
theorem topScore_eq_largest (hn : 0 < n) (h : ∃ j < n, -2147483647 ≤ s j) :
  topScore s n = largest s n
  := by
  obtain ⟨j, hj, hlow⟩ := h
  obtain ⟨i, hi, htop⟩ := exists_largest (s := s) hn
  rw [← htop]
  apply topScore_eq hi
  · intro k hk
    rw [htop]
    apply le_largest hk
  · rw [htop]
    apply le_trans hlow (le_largest hj)

theorem exactWeight_mem (j : ℕ) :
  0 ≤ exactWeight s n j ∧ exactWeight s n j ≤ q15OneI16
  := expNeg_mem _

theorem exactWeights_pos (hn : 0 < n) :
  0 < ∑ j ∈ Finset.range n, exactWeight s n j
  := by
  obtain ⟨j, hj, htop⟩ := exists_largest (s := s) hn
  have hone : exactWeight s n j = q15OneI16 := by
    rw [exactWeight, htop, sub_self, expNeg_zero]
  calc
    0 < q15OneI16 := by decide
    _ = exactWeight s n j := hone.symm
    _ ≤ ∑ j ∈ Finset.range n, exactWeight s n j :=
      Finset.single_le_sum (fun i _ => (exactWeight_mem i).1) (Finset.mem_range.mpr hj)

theorem exactWeights_le :
  ∑ j ∈ Finset.range n, exactWeight s n j ≤ n * q15OneI16
  := by
  calc
    ∑ j ∈ Finset.range n, exactWeight s n j ≤ ∑ _j ∈ Finset.range n, q15OneI16 :=
      Finset.sum_le_sum fun j _ => (exactWeight_mem j).2
    _ = n * q15OneI16 := by
      rw [Finset.sum_const, Finset.card_range, nsmul_eq_mul]

theorem exactAverage_mem (hn : 0 < n) {lo hi : ℤ} (hlo : ∀ j < n, lo ≤ v j)
    (hhi : ∀ j < n, v j ≤ hi) :
  lo ≤ exactAverage s v n ∧ exactAverage s v n ≤ hi
  := weightedAverage_mem (fun j _ => (exactWeight_mem j).1) (exactWeights_pos hn) hlo hhi

/-- With scores that fit, the weights of the kernel are exact when the largest score fits its
register, and no distance is `2 ^ 31` or more. -/
theorem vitExpApprox_eq_iff (hn : 0 < n) (hs : ∀ j < n, IsApInt 32 (s j)) :
  (∀ j < n, vitExpApprox (s j - topScore s n) = exactWeight s n j)
    ↔ (∃ j < n, -2147483647 ≤ s j) ∧ ∀ j < n, largest s n - s j < 2 ^ 31
  := by
  have hmem : ∀ j < n, -2 ^ 31 ≤ s j ∧ s j < 2 ^ 31 := fun j hj =>
    (isApInt_iff (by decide)).mp (hs j hj)
  obtain ⟨i, hi, htop⟩ := exists_largest (s := s) hn
  have hbound := hmem i hi
  rw [htop] at hbound
  constructor
  · intro h
    have hlow : ∃ j < n, -2147483647 ≤ s j := by
      by_contra hnone
      have hleast : ∀ j < n, s j = -2 ^ 31 := by
        intro j hj
        have hlt : ¬ -2147483647 ≤ s j := fun hle => hnone ⟨j, hj, hle⟩
        have hge := (hmem j hj).1
        omega
      have hstart : topScore s n = -2147483647 := by
        apply le_antisymm
        · apply (foldl_max_le_iff s).mpr ⟨le_refl _, _⟩
          intro j hj
          rw [hleast j (List.mem_range.mp hj)]
          decide
        · apply le_foldl_max
      have hweight := h i hi
      rw [exactWeight, ← htop, sub_self, hstart, hleast i hi] at hweight
      revert hweight
      decide
    refine ⟨hlow, ?_⟩
    intro j hj
    by_contra hfar
    have hge := (hmem j hj).1
    have hweight := h j hj
    rw [topScore_eq_largest hn hlow, exactWeight, expNeg_of_far (by omega),
      vitExpApprox_of_wrapped (by omega) (by omega)] at hweight
    revert hweight
    decide
  · rintro ⟨hlow, hnear⟩ j hj
    have hdist := hnear j hj
    have hle : s j ≤ largest s n := le_largest hj
    rw [topScore_eq_largest hn hlow, exactWeight, vitExpApprox,
      apInt_of_mem (by decide) (by omega) (by omega)]
    apply approxExpQ15_eq (by omega) (by omega)

end Exact

/-! ### The registers of a row -/

section Row

variable (qkv : ℕ → AXI256) (t h : ℕ)

/-- The product of the query of token `t` and the key of token `s`. -/
def vitDot (s : ℕ) : ℤ :=
  ∑ d ∈ Finset.range vitHeadDim,
    axiReadI32 qkv (t * vitQkv + h * vitHeadDim + d)
      * axiReadI32 qkv (s * vitQkv + vitC + h * vitHeadDim + d)

/-- The score of the key of token `s`. -/
def vitExactScore (s : ℕ) : ℤ := vitDot qkv t h s / 8

/-- The scores, the weights and the weighted sums are those of the unbounded integers. -/
structure RowExact : Prop where
  scores : ∀ s < vitTokens, vitScore qkv t h s = vitExactScore qkv t h s
  weights : ∀ s < vitTokens, vitProb qkv t h s = exactWeight (vitExactScore qkv t h) vitTokens s
  sums : ∀ d < vitHeadDim, vitAcc qkv t h d
    = exactWeightedSum (vitExactScore qkv t h) (vitValue qkv h d) vitTokens

/-- The scores fit an `INT32`, their largest one the register that looks for it; no two scores
are `2 ^ 31` apart; and the weighted sums fit an `INT43`. -/
structure RowFits : Prop where
  scores : ∀ s < vitTokens, IsApInt 32 (vitExactScore qkv t h s)
  largest_score : ∃ s < vitTokens, -2147483647 ≤ vitExactScore qkv t h s
  distances : ∀ s < vitTokens, ∀ s' < vitTokens,
    vitExactScore qkv t h s - vitExactScore qkv t h s' < 2 ^ 31
  sums : ∀ d < vitHeadDim,
    IsApInt 43 (exactWeightedSum (vitExactScore qkv t h) (vitValue qkv h d) vitTokens)

/-- A score is exact when it fits. -/
theorem vitScore_eq_iff (s : ℕ) :
  vitScore qkv t h s = vitExactScore qkv t h s ↔ IsApInt 32 (vitExactScore qkv t h s)
  := by
  have hdot : vitScore qkv t h s = apInt 32 (apInt 43 (vitDot qkv t h s) >>> (3 : ℕ)) := by
    have hfold := foldl_apInt_add 42 (fun d =>
      axiReadI32 qkv (t * vitQkv + h * vitHeadDim + d)
        * axiReadI32 qkv (s * vitQkv + vitC + h * vitHeadDim + d)) vitHeadDim
    rw [vitDot, ← hfold]
    rfl
  rw [hdot, vitExactScore, isApInt_iff (by decide), Int.shiftRight_eq_div_pow]
  simp only [apInt]
  omega

variable {qkv t h}

/-- With exact scores, the largest score and the weights are those of the scores. -/
theorem vitProb_of_scores (hscores : ∀ s < vitTokens,
    vitScore qkv t h s = vitExactScore qkv t h s) {s : ℕ} (hs : s < vitTokens) :
  vitProb qkv t h s
    = vitExpApprox (vitExactScore qkv t h s - topScore (vitExactScore qkv t h) vitTokens)
  := by
  have hmax : vitMaxScore qkv t h = topScore (vitExactScore qkv t h) vitTokens := by
    rw [vitMaxScore, topScore]
    apply List.foldl_ext
    intro m j hj
    simp only [hscores j (List.mem_range.mp hj), gt_iff_lt]
  rw [vitProb, hscores s hs, hmax]

theorem rowExact_iff :
  RowExact qkv t h ↔ RowFits qkv t h
  := by
  have hacc : ∀ d, (∀ s < vitTokens,
      vitProb qkv t h s = exactWeight (vitExactScore qkv t h) vitTokens s) →
      vitAcc qkv t h d
        = apInt 43 (exactWeightedSum (vitExactScore qkv t h) (vitValue qkv h d) vitTokens) :=
    fun d hw => vitAcc_eq_apInt hw
  constructor
  · intro hexact
    have hfits : ∀ s < vitTokens, IsApInt 32 (vitExactScore qkv t h s) := fun s hs =>
      (vitScore_eq_iff qkv t h s).mp (hexact.scores s hs)
    have hweights : ∀ s < vitTokens,
        vitExpApprox (vitExactScore qkv t h s - topScore (vitExactScore qkv t h) vitTokens)
          = exactWeight (vitExactScore qkv t h) vitTokens s := by
      intro s hs
      rw [← vitProb_of_scores hexact.scores hs, hexact.weights s hs]
    obtain ⟨hlow, hnear⟩ := (vitExpApprox_eq_iff (by decide) hfits).mp hweights
    refine ⟨hfits, hlow, ?_, ?_⟩
    · intro s hs s' hs'
      have hle := le_largest (s := vitExactScore qkv t h) hs
      have hdist := hnear s' hs'
      omega
    · intro d hd
      have hsum := hexact.sums d hd
      rwa [hacc d hexact.weights] at hsum
  · intro hfits
    have hscores : ∀ s < vitTokens, vitScore qkv t h s = vitExactScore qkv t h s := fun s hs =>
      (vitScore_eq_iff qkv t h s).mpr (hfits.scores s hs)
    obtain ⟨top, htop, heq⟩ := exists_largest (s := vitExactScore qkv t h) (n := vitTokens)
      (by decide)
    have hnear : ∀ s < vitTokens,
        largest (vitExactScore qkv t h) vitTokens - vitExactScore qkv t h s < 2 ^ 31 := by
      intro s hs
      rw [← heq]
      apply hfits.distances top htop s hs
    have hexp := (vitExpApprox_eq_iff (by decide) hfits.scores).mpr ⟨hfits.largest_score, hnear⟩
    have hweights : ∀ s < vitTokens,
        vitProb qkv t h s = exactWeight (vitExactScore qkv t h) vitTokens s := by
      intro s hs
      rw [vitProb_of_scores hscores hs, hexp s hs]
    refine ⟨hscores, hweights, ?_⟩
    intro d hd
    rw [hacc d hweights]
    apply hfits.sums d hd

/-- The value of an exact row. -/
theorem rowExact_output (hexact : RowExact qkv t h) {d : ℕ} (hd : d < vitHeadDim) :
  (vitAcc qkv t h d).tdiv (vitDenom qkv t h)
    = exactAverage (vitExactScore qkv t h) (vitValue qkv h d) vitTokens
  := by
  rw [vitDenom_eq_sum hexact.weights (exactWeights_pos (by decide)) exactWeights_le,
    hexact.sums d hd]
  rfl

end Row

/-! ### What is written -/

section Output

variable (qkv : ℕ → AXI256)

/-- The lanes the attention writes. -/
def attentionLog : List (ℕ × BitVec 32) :=
  (List.range vitTokens).flatMap fun t =>
    (List.range vitHeads).flatMap fun h =>
      (List.range vitHeadDim).map fun d =>
        (t * vitC + h * vitHeadDim + d,
          BitVec.ofInt 32 (apInt 32 ((vitAcc qkv t h d).tdiv (vitDenom qkv t h))))

theorem vitAttentionFull_eq (out : ℕ → AXI256) :
  vitAttentionFull qkv out = i32Lanes.writeAll out (attentionLog qkv)
  := by
  rw [attentionLog, Cells.writeAll_flatMap]
  apply List.foldl_ext
  intro out t _
  rw [Cells.writeAll_flatMap]
  apply List.foldl_ext
  intro out h _
  rw [Cells.writeAll, List.foldl_map]
  rfl

theorem mem_attentionLog {w : ℕ × BitVec 32} :
  w ∈ attentionLog qkv
    ↔ ∃ t < vitTokens, ∃ h < vitHeads, ∃ d < vitHeadDim,
        w = (t * vitC + h * vitHeadDim + d,
          BitVec.ofInt 32 (apInt 32 ((vitAcc qkv t h d).tdiv (vitDenom qkv t h))))
  := by
  simp only [attentionLog, List.mem_flatMap, List.mem_map, List.mem_range, eq_comm (a := w)]

/-- A lane belongs to one token, one head and one dimension. -/
theorem outLane_injective {t h d t' h' d' : ℕ} (hh : h < vitHeads) (hd : d < vitHeadDim)
    (hh' : h' < vitHeads) (hd' : d' < vitHeadDim)
    (heq : t * vitC + h * vitHeadDim + d = t' * vitC + h' * vitHeadDim + d') :
  t = t' ∧ h = h' ∧ d = d'
  := by
  change h < 12 at hh
  change d < 64 at hd
  change h' < 12 at hh'
  change d' < 64 at hd'
  change t * 768 + h * 64 + d = t' * 768 + h' * 64 + d' at heq
  omega

theorem axiReadI32_vitAttentionFull (out : ℕ → AXI256) {t h d : ℕ} (ht : t < vitTokens)
    (hh : h < vitHeads) (hd : d < vitHeadDim) :
  axiReadI32 (vitAttentionFull qkv out) (t * vitC + h * vitHeadDim + d)
    = apInt 32 ((vitAcc qkv t h d).tdiv (vitDenom qkv t h))
  := by
  have hlast := latest_eq_some ((mem_attentionLog qkv).mpr ⟨t, ht, h, hh, d, hd, rfl⟩)
    fun w hw hlane => by
      obtain ⟨t', -, h', hh', d', hd', rfl⟩ := (mem_attentionLog qkv).mp hw
      obtain ⟨rfl, rfl, rfl⟩ := outLane_injective hh' hd' hh hd hlane
      rfl
  have hread : axiReadI32 (vitAttentionFull qkv out) (t * vitC + h * vitHeadDim + d)
      = ((latest (attentionLog qkv) (t * vitC + h * vitHeadDim + d)).getD
        (i32Lanes.read out (t * vitC + h * vitHeadDim + d))).toInt := by
    rw [← Cells.read_writeAll, ← vitAttentionFull_eq]
    rfl
  rw [hread, hlast, Option.getD_some, toInt_ofInt_apInt]
  apply isApInt_apInt (by decide)

/-- The values are lanes of 32 bits. -/
theorem isApInt_axiReadI32 (idx : ℕ) :
  IsApInt 32 (axiReadI32 qkv idx)
  := by
  have hlt := ((qkv (idx / 8)).extractLsb' (idx % 8 * 32) 32).toInt_lt
  have hle := ((qkv (idx / 8)).extractLsb' (idx % 8 * 32) 32).le_toInt
  rw [axiReadI32, axiReadI32Linear, isApInt_iff (by decide)]
  omega

theorem isApInt_exactAverage (s : ℕ → ℤ) (h d : ℕ) :
  IsApInt 32 (exactAverage s (vitValue qkv h d) vitTokens)
  := by
  have hvalue : ∀ j, -2 ^ 31 ≤ vitValue qkv h d j ∧ vitValue qkv h d j < 2 ^ 31 := fun j =>
    (isApInt_iff (by decide)).mp (isApInt_axiReadI32 qkv _)
  have hleast : ∀ j < vitTokens, -2 ^ 31 ≤ vitValue qkv h d j := fun j _ => (hvalue j).1
  have hmost : ∀ j < vitTokens, vitValue qkv h d j ≤ 2 ^ 31 - 1 := fun j _ =>
    Int.le_sub_one_of_lt (hvalue j).2
  obtain ⟨hlow, hhigh⟩ := exactAverage_mem (s := s) (by decide) hleast hmost
  rw [isApInt_iff (by decide)]
  omega

/-- Some value is at most the average, and some value at least. -/
theorem exactAverage_between (s v : ℕ → ℤ) {n : ℕ} (hn : 0 < n) :
  (∃ j < n, v j ≤ exactAverage s v n) ∧ ∃ j < n, exactAverage s v n ≤ v j
  := by
  obtain ⟨top, htop, hhigh⟩ := exists_largest (s := v) hn
  obtain ⟨bot, hbot, hlow⟩ := exists_largest (s := fun j => -v j) hn
  have hleast : ∀ j < n, v bot ≤ v j := by
    intro j hj
    have h := le_largest (s := fun j => -v j) hj
    rw [← hlow] at h
    apply neg_le_neg_iff.mp h
  have hmost : ∀ j < n, v j ≤ v top := by
    intro j hj
    rw [hhigh]
    apply le_largest hj
  obtain ⟨hle, hle'⟩ := exactAverage_mem (s := s) hn hleast hmost
  exact ⟨⟨bot, hbot, hle⟩, top, htop, hle'⟩

/-- `vit_attention_full` computes its softmax without wrap: whatever the output held before, each
lane it writes is the average of the values in the unbounded integers, between two of them. -/
structure VitSoftmaxExact : Prop where
  outputs : ∀ out, ∀ t < vitTokens, ∀ h < vitHeads, ∀ d < vitHeadDim,
    axiReadI32 (vitAttentionFull qkv out) (t * vitC + h * vitHeadDim + d)
      = exactAverage (vitExactScore qkv t h) (vitValue qkv h d) vitTokens
  between : ∀ out, ∀ t < vitTokens, ∀ h < vitHeads, ∀ d < vitHeadDim,
    let y := axiReadI32 (vitAttentionFull qkv out) (t * vitC + h * vitHeadDim + d)
    (∃ s < vitTokens, vitValue qkv h d s ≤ y) ∧ ∃ s < vitTokens, y ≤ vitValue qkv h d s

/-- It does when its registers suffice. -/
theorem vitSoftmaxExact_of_rowFits (hfits : ∀ t < vitTokens, ∀ h < vitHeads, RowFits qkv t h) :
  VitSoftmaxExact qkv
  := by
  have hout : ∀ out, ∀ t < vitTokens, ∀ h < vitHeads, ∀ d < vitHeadDim,
      axiReadI32 (vitAttentionFull qkv out) (t * vitC + h * vitHeadDim + d)
        = exactAverage (vitExactScore qkv t h) (vitValue qkv h d) vitTokens := by
    intro out t ht h hh d hd
    have hrow : RowExact qkv t h := rowExact_iff.mpr (hfits t ht h hh)
    rw [axiReadI32_vitAttentionFull qkv out ht hh hd, rowExact_output hrow hd]
    apply isApInt_exactAverage
  use hout
  intro out t ht h hh d hd
  simp only [hout out t ht h hh d hd]
  apply exactAverage_between _ _ (by decide)

/-- When all scores get the largest weight, the outputs are averages of the values in which all
weigh the same. -/
theorem axiReadI32_of_equal_weights (out : ℕ → AXI256) {t h d : ℕ} (ht : t < vitTokens)
    (hh : h < vitHeads) (hd : d < vitHeadDim)
    (hprob : ∀ s < vitTokens, vitProb qkv t h s = q15OneI16) :
  axiReadI32 (vitAttentionFull qkv out) (t * vitC + h * vitHeadDim + d)
    = apInt 32 ((apInt 43 (q15OneI16 * ∑ s ∈ Finset.range vitTokens, vitValue qkv h d s)).tdiv
        (1024 * 32767))
  := by
  have hweights : ∑ _s ∈ Finset.range vitTokens, q15OneI16 = 1024 * 32767 := by
    rw [Finset.sum_const, Finset.card_range]
    rfl
  rw [axiReadI32_vitAttentionFull qkv out ht hh hd, vitAcc_eq_apInt hprob, ← Finset.mul_sum,
    vitDenom_eq_sum hprob (by rw [hweights]; decide) (by rw [hweights]), hweights]

end Output

/-! ### Entries that are small enough -/

/-- The queries, keys and values are at most `b`. -/
def EntriesAtMost (b : ℕ) (qkv : ℕ → AXI256) : Prop :=
  ∀ t < vitTokens, ∀ col < vitQkv, |axiReadI32 qkv (t * vitQkv + col)| ≤ b

section Small

variable {qkv : ℕ → AXI256} {b : ℕ} (hle : EntriesAtMost b qkv)

include hle

theorem abs_part_le {t h d : ℕ} (base : ℕ) (ht : t < vitTokens) (hh : h < vitHeads)
    (hd : d < vitHeadDim) (hbase : base ≤ 2 * vitC) :
  |axiReadI32 qkv (t * vitQkv + base + h * vitHeadDim + d)| ≤ b
  := by
  have hcol : base + h * vitHeadDim + d < vitQkv := by
    change h < 12 at hh
    change d < 64 at hd
    change base ≤ 2 * 768 at hbase
    change base + h * 64 + d < 768 * 3
    omega
  have h := hle t ht _ hcol
  rwa [← Nat.add_assoc, ← Nat.add_assoc] at h

theorem abs_vitDot_le {t h s : ℕ} (ht : t < vitTokens) (hh : h < vitHeads) (hs : s < vitTokens) :
  |vitDot qkv t h s| ≤ 64 * (b * b)
  := by
  calc |vitDot qkv t h s|
      ≤ ∑ d ∈ Finset.range vitHeadDim, |axiReadI32 qkv (t * vitQkv + h * vitHeadDim + d)
          * axiReadI32 qkv (s * vitQkv + vitC + h * vitHeadDim + d)| :=
        Finset.abs_sum_le_sum_abs _ _
    _ ≤ ∑ _d ∈ Finset.range vitHeadDim, (b * b : ℤ) := by
        apply Finset.sum_le_sum
        intro d hd
        have hlt := Finset.mem_range.mp hd
        have hq := abs_part_le hle 0 ht hh hlt (Nat.zero_le _)
        have hk := abs_part_le hle vitC hs hh hlt (by decide)
        rw [Nat.add_zero] at hq
        rw [abs_mul]
        apply mul_le_mul hq hk (abs_nonneg _) (Int.natCast_nonneg b)
    _ = 64 * (b * b) := by
        rw [Finset.sum_const, Finset.card_range]
        apply nsmul_eq_mul

end Small

theorem rowFits_of_entriesAtMost {qkv : ℕ → AXI256} {b : ℕ} (hb : b ≤ 11585)
    (hle : EntriesAtMost b qkv) {t h : ℕ} (ht : t < vitTokens) (hh : h < vitHeads) :
  RowFits qkv t h
  := by
  have hsquare : (b : ℤ) * b ≤ 11585 * 11585 := by exact_mod_cast Nat.mul_le_mul hb hb
  have hscore : ∀ s < vitTokens,
      -(8 * (11585 * 11585)) ≤ vitExactScore qkv t h s
        ∧ vitExactScore qkv t h s ≤ 8 * (11585 * 11585) := by
    intro s hs
    have hdot := abs_le.mp (abs_vitDot_le hle ht hh hs)
    rw [vitExactScore]
    omega
  constructor
  · intro s hs
    have h := hscore s hs
    rw [isApInt_iff (by decide)]
    omega
  · use 0, by decide
    have h := hscore 0 (by decide)
    omega
  · intro s hs s' hs'
    have h := hscore s hs
    have h' := hscore s' hs'
    omega
  · intro d hd
    have hvalue : ∀ s < vitTokens, |vitValue qkv h d s| ≤ 11585 := by
      intro s hs
      apply le_trans (abs_part_le hle _ hs hh hd (le_refl _))
      exact_mod_cast hb
    have hweights : ∑ s ∈ Finset.range vitTokens, exactWeight (vitExactScore qkv t h) vitTokens s
        ≤ 1024 * 32767 := exactWeights_le
    have hsum := abs_le.mp (abs_sum_mul_le (w := exactWeight (vitExactScore qkv t h) vitTokens)
      (fun s _ => (exactWeight_mem s).1) hvalue)
    rw [isApInt_iff (by decide), exactWeightedSum]
    omega

/-! ### Buffers with given entries -/

/-- The buffer whose row `t` has the entry `f t col` in column `col`. -/
def qkvBuffer (f : ℕ → ℕ → ℤ) : ℕ → AXI256 := fun i =>
  packLanes 256 8 fun b => BitVec.ofInt 32 (f ((i * 8 + b) / vitQkv) ((i * 8 + b) % vitQkv))

theorem axiReadI32_qkvBuffer {f : ℕ → ℕ → ℤ} {t col : ℕ} (hcol : col < vitQkv)
    (hf : IsApInt 32 (f t col)) :
  axiReadI32 (qkvBuffer f) (t * vitQkv + col) = f t col
  := by
  have hidx : (t * vitQkv + col) / 8 * 8 + (t * vitQkv + col) % 8 = t * vitQkv + col :=
    Nat.div_add_mod' _ _
  have hdiv : (t * vitQkv + col) / vitQkv = t := by
    change col < 2304 at hcol
    change (t * 2304 + col) / 2304 = t
    omega
  have hmod : (t * vitQkv + col) % vitQkv = col := by
    change col < 2304 at hcol
    change (t * 2304 + col) % 2304 = col
    omega
  rw [axiReadI32, axiReadI32Linear, qkvBuffer, extractLsb'_packLanes _ (by decide) (by omega), hidx,
    hdiv, hmod, toInt_ofInt_apInt]
  apply hf

/-- All queries are 11586, the key of the first token is too, and the other keys are
`-11586`; the value of the first token is zero, and the others are 11586. -/
def oppositeKeys (t col : ℕ) : ℤ :=
  if col < 768 then 11586
  else if col < 1536 then (if t = 0 then 11586 else -11586)
  else if t = 0 then 0 else 11586

theorem abs_oppositeKeys_le (t col : ℕ) :
  |oppositeKeys t col| ≤ 11586
  := by
  rw [oppositeKeys]
  split_ifs <;> decide

theorem axiReadI32_oppositeKeys {t col : ℕ} (hcol : col < vitQkv) :
  axiReadI32 (qkvBuffer oppositeKeys) (t * vitQkv + col) = oppositeKeys t col
  := by
  apply axiReadI32_qkvBuffer hcol
  have habs := abs_le.mp (abs_oppositeKeys_le t col)
  rw [isApInt_iff (by decide)]
  omega

theorem entriesAtMost_oppositeKeys {b : ℕ} (hb : 11586 ≤ b) :
  EntriesAtMost b (qkvBuffer oppositeKeys)
  := by
  intro t _ col hcol
  rw [axiReadI32_oppositeKeys hcol]
  apply le_trans (abs_oppositeKeys_le t col)
  exact_mod_cast hb

/-- The scores of the first token in head 0. -/
theorem vitExactScore_oppositeKeys (s : ℕ) :
  vitExactScore (qkvBuffer oppositeKeys) 0 0 s
    = if s = 0 then 8 * (11586 * 11586) else -(8 * (11586 * 11586))
  := by
  have hdot : vitDot (qkvBuffer oppositeKeys) 0 0 s
      = ∑ _d ∈ Finset.range 64, if s = 0 then (11586 * 11586 : ℤ) else -(11586 * 11586) := by
    apply Finset.sum_congr rfl
    intro d hd
    have hlt := Finset.mem_range.mp hd
    change d < 64 at hlt
    have hq : axiReadI32 (qkvBuffer oppositeKeys) (0 * vitQkv + 0 * vitHeadDim + d) = 11586 := by
      rw [Nat.zero_mul 64, Nat.add_zero, axiReadI32_oppositeKeys (by change d < 2304; omega),
        oppositeKeys, if_pos (by omega)]
    have hk : axiReadI32 (qkvBuffer oppositeKeys) (s * vitQkv + vitC + 0 * vitHeadDim + d)
        = if s = 0 then 11586 else -11586 := by
      rw [Nat.zero_mul, Nat.add_zero, Nat.add_assoc,
        axiReadI32_oppositeKeys (by change 768 + d < 2304; omega), oppositeKeys,
        if_neg (by change ¬ 768 + d < 768; omega), if_pos (by change 768 + d < 1536; omega)]
    rw [hq, hk]
    split_ifs <;> rfl
  rw [vitExactScore, hdot, Finset.sum_const, Finset.card_range]
  split_ifs <;> decide

/-- The scores of the other keys are `2 ^ 31` below that of the first, and get its weight. -/
theorem vitProb_oppositeKeys {s : ℕ} (hs : s < vitTokens) :
  vitProb (qkvBuffer oppositeKeys) 0 0 s = q15OneI16
  := by
  have hscores : ∀ j < vitTokens, vitScore (qkvBuffer oppositeKeys) 0 0 j
      = vitExactScore (qkvBuffer oppositeKeys) 0 0 j := by
    intro j _
    rw [vitScore_eq_iff, vitExactScore_oppositeKeys]
    split_ifs <;> decide
  have htop : topScore (vitExactScore (qkvBuffer oppositeKeys) 0 0) vitTokens
      = 8 * (11586 * 11586) := by
    have hzero := vitExactScore_oppositeKeys 0
    rw [if_pos rfl] at hzero
    rw [← hzero]
    apply topScore_eq (by decide)
    · intro j _
      rw [hzero, vitExactScore_oppositeKeys]
      split_ifs <;> decide
    · rw [hzero]
      decide
  rw [vitProb_of_scores hscores hs, htop, vitExactScore_oppositeKeys]
  split_ifs <;> decide

theorem vitValue_oppositeKeys (s : ℕ) :
  vitValue (qkvBuffer oppositeKeys) 0 0 s = if s = 0 then 0 else 11586
  := by
  rw [vitValue, Nat.zero_mul, Nat.add_zero, axiReadI32_oppositeKeys (by decide), oppositeKeys,
    if_neg (by decide), if_neg (by decide)]

/-- In the unbounded integers the first key has all the weight. -/
theorem exactAverage_oppositeKeys :
  exactAverage (vitExactScore (qkvBuffer oppositeKeys) 0 0)
    (vitValue (qkvBuffer oppositeKeys) 0 0) vitTokens = 0
  := by
  have hsum : exactWeightedSum (vitExactScore (qkvBuffer oppositeKeys) 0 0)
      (vitValue (qkvBuffer oppositeKeys) 0 0) vitTokens = 0 := by
    apply Finset.sum_eq_zero
    intro s _
    rw [vitValue_oppositeKeys]
    split_ifs with hzero
    · apply mul_zero
    · have hfar : vitExactScore (qkvBuffer oppositeKeys) 0 0 s
          - largest (vitExactScore (qkvBuffer oppositeKeys) 0 0) vitTokens ≤ -512 := by
        have hle := le_largest (s := vitExactScore (qkvBuffer oppositeKeys) 0 0)
          (by decide : 0 < vitTokens)
        rw [vitExactScore_oppositeKeys 0, if_pos rfl] at hle
        rw [vitExactScore_oppositeKeys s, if_neg hzero]
        omega
      rw [exactWeight, expNeg_of_far hfar, zero_mul]
  rw [exactAverage, hsum, Int.zero_tdiv]

/-- The first output is 11574 and not 0. -/
theorem not_vitSoftmaxExact_oppositeKeys :
  ¬ VitSoftmaxExact (qkvBuffer oppositeKeys)
  := by
  intro hexact
  have hlane := hexact.outputs (fun _ => 0) 0 (by decide) 0 (by decide) 0 (by decide)
  have hsum : ∑ s ∈ Finset.range vitTokens, vitValue (qkvBuffer oppositeKeys) 0 0 s
      = 1023 * 11586 := by
    change ∑ s ∈ Finset.range (1023 + 1), vitValue (qkvBuffer oppositeKeys) 0 0 s = _
    simp only [Finset.sum_range_succ', vitValue_oppositeKeys, Nat.succ_ne_zero, if_false, if_true,
      Finset.sum_const, Finset.card_range]
    rfl
  rw [exactAverage_oppositeKeys, axiReadI32_of_equal_weights _ _ (by decide) (by decide)
    (by decide) fun _ hs => vitProb_oppositeKeys hs, hsum] at hlane
  revert hlane
  decide

/-- The registers of a row hold the exact values exactly when these fit.  When they fit for all
rows, the attention writes the exact averages; and it writes them for all buffers with entries of
at most `b` exactly when `b` is at most 11585. -/
theorem vitSoftmaxExact_iff (b : ℕ) :
  ((∀ qkv, EntriesAtMost b qkv → VitSoftmaxExact qkv) ↔ b ≤ 11585)
    ∧ ∀ qkv, (∀ t h, RowExact qkv t h ↔ RowFits qkv t h)
      ∧ ((∀ t < vitTokens, ∀ h < vitHeads, RowFits qkv t h) → VitSoftmaxExact qkv)
  := by
  refine ⟨⟨?_, ?_⟩, fun qkv => ⟨fun t h => rowExact_iff, vitSoftmaxExact_of_rowFits qkv⟩⟩
  · intro hall
    by_contra hlt
    apply not_vitSoftmaxExact_oppositeKeys
    apply hall _ (entriesAtMost_oppositeKeys (by omega))
  · intro hb qkv hle
    apply vitSoftmaxExact_of_rowFits
    intro t ht h hh
    apply rowFits_of_entriesAtMost hb hle ht hh

/-- Queries and keys are zero, and all values are the largest the projection can deliver. -/
def largeValues (_t col : ℕ) : ℤ := if col < 1536 then 0 else 768 * 128 * 127

theorem axiReadI32_largeValues {t col : ℕ} (hcol : col < vitQkv) :
  axiReadI32 (qkvBuffer largeValues) (t * vitQkv + col) = largeValues t col
  := by
  apply axiReadI32_qkvBuffer hcol
  rw [largeValues]
  split_ifs <;> decide

theorem vitValue_largeValues (s : ℕ) :
  vitValue (qkvBuffer largeValues) 0 0 s = 768 * 128 * 127
  := by
  rw [vitValue, Nat.zero_mul, Nat.add_zero, axiReadI32_largeValues (by decide)]
  rfl

theorem vitExactScore_largeValues (s : ℕ) :
  vitExactScore (qkvBuffer largeValues) 0 0 s = 0
  := by
  have hdot : vitDot (qkvBuffer largeValues) 0 0 s = 0 := by
    apply Finset.sum_eq_zero
    intro d hd
    have hlt := Finset.mem_range.mp hd
    change d < 64 at hlt
    rw [Nat.zero_mul 64, Nat.add_zero, axiReadI32_largeValues (by change d < 2304; omega),
      largeValues, if_pos (by omega), zero_mul]
  rw [vitExactScore, hdot]
  rfl

theorem exactWeight_largeValues (s : ℕ) :
  exactWeight (vitExactScore (qkvBuffer largeValues) 0 0) vitTokens s = q15OneI16
  := by
  obtain ⟨top, -, heq⟩ := exists_largest (s := vitExactScore (qkvBuffer largeValues) 0 0)
    (n := vitTokens) (by decide)
  rw [exactWeight, ← heq, vitExactScore_largeValues, vitExactScore_largeValues, sub_self,
    expNeg_zero]

theorem vitProb_largeValues {s : ℕ} (hs : s < vitTokens) :
  vitProb (qkvBuffer largeValues) 0 0 s = q15OneI16
  := by
  have hfits : ∀ j < vitTokens, IsApInt 32 (vitExactScore (qkvBuffer largeValues) 0 0 j) := by
    intro j _
    rw [vitExactScore_largeValues]
    decide
  have hscores : ∀ j < vitTokens, vitScore (qkvBuffer largeValues) 0 0 j
      = vitExactScore (qkvBuffer largeValues) 0 0 j := fun j hj =>
    (vitScore_eq_iff _ 0 0 j).mpr (hfits j hj)
  have hnear : ∀ j < vitTokens, largest (vitExactScore (qkvBuffer largeValues) 0 0) vitTokens
      - vitExactScore (qkvBuffer largeValues) 0 0 j < 2 ^ 31 := by
    intro j _
    obtain ⟨top, -, heq⟩ := exists_largest (s := vitExactScore (qkvBuffer largeValues) 0 0)
      (n := vitTokens) (by decide)
    rw [← heq, vitExactScore_largeValues, vitExactScore_largeValues]
    decide
  have hlow : ∃ j < vitTokens,
      -2147483647 ≤ vitExactScore (qkvBuffer largeValues) 0 0 j := by
    use 0, by decide
    rw [vitExactScore_largeValues]
    decide
  rw [vitProb_of_scores hscores hs, (vitExpApprox_eq_iff (by decide) hfits).mpr ⟨hlow, hnear⟩ s hs,
    exactWeight_largeValues]

/-- Of values that are all 12484608, the first output is a negative number. -/
theorem not_vitSoftmaxExact_largeValues :
  EntriesAtMost (768 * 128 * 127) (qkvBuffer largeValues)
    ∧ (∀ s < vitTokens, vitValue (qkvBuffer largeValues) 0 0 s = 768 * 128 * 127)
    ∧ axiReadI32 (vitAttentionFull (qkvBuffer largeValues) fun _ => 0) 0 < 0
    ∧ ¬ VitSoftmaxExact (qkvBuffer largeValues)
  := by
  have hsum : ∑ s ∈ Finset.range vitTokens, vitValue (qkvBuffer largeValues) 0 0 s
      = 1024 * (768 * 128 * 127) := by
    simp only [vitValue_largeValues, Finset.sum_const, Finset.card_range]
    rfl
  have hneg : axiReadI32 (vitAttentionFull (qkvBuffer largeValues) fun _ => 0) 0 < 0 := by
    have hlane := axiReadI32_of_equal_weights (qkvBuffer largeValues) (fun _ => 0) (t := 0)
      (h := 0) (d := 0) (by decide) (by decide) (by decide) fun _ hs => vitProb_largeValues hs
    rw [hsum] at hlane
    apply lt_of_eq_of_lt hlane
    decide +kernel
  refine ⟨?_, fun s _ => vitValue_largeValues s, hneg, ?_⟩
  · intro t _ col hcol
    rw [axiReadI32_largeValues hcol, largeValues]
    split_ifs <;> decide
  · intro hexact
    obtain ⟨⟨s, -, hle⟩, -⟩ :=
      hexact.between (fun _ => 0) 0 (by decide) 0 (by decide) 0 (by decide)
    rw [vitValue_largeValues] at hle
    have hbad := lt_of_le_of_lt hle hneg
    revert hbad
    decide

end Kv260
