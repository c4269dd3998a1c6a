import SmolVlm2Kv260.Kernel.OnlineSoftmax
import SmolVlm2Kv260.Kernel.QuantSound
import SmolVlm2Kv260.Kernel.Vit

/-!
# The softmax in two passes

`vit_attention_full` takes the largest score in one pass, and averages the values in a second one,
weighted by the exponentials of the distances to it.  Such an average lies between the least and
the largest of the values.

`flash_attention_head` is meant to output the same averages.  As it outputs zeros, it does so for
the averages that are truncated to zero, and its outputs are among the values only where these
are not all positive or all negative.
-/

set_option autoImplicit false

namespace Kv260

open Blocks

/-! ### Averages -/

/-- An average with weights that are not negative lies between the bounds of the values. -/
theorem weightedAverage_mem {w v : ℕ → ℤ} {n : ℕ} (hw : ∀ j < n, 0 ≤ w j)
    (hpos : 0 < ∑ j ∈ Finset.range n, w j) {lo hi : ℤ} (hlo : ∀ j < n, lo ≤ v j)
    (hhi : ∀ j < n, v j ≤ hi) :
  lo ≤ (∑ j ∈ Finset.range n, w j * v j).tdiv (∑ j ∈ Finset.range n, w j)
    ∧ (∑ j ∈ Finset.range n, w j * v j).tdiv (∑ j ∈ Finset.range n, w j) ≤ hi
  := by
  have hconst : ∀ b, (∑ j ∈ Finset.range n, w j * b).tdiv (∑ j ∈ Finset.range n, w j) = b := by
    intro b
    rw [← Finset.sum_mul]
    apply Int.mul_tdiv_cancel_left _ hpos.ne'
  constructor
  · calc
      lo = (∑ j ∈ Finset.range n, w j * lo).tdiv (∑ j ∈ Finset.range n, w j) := (hconst lo).symm
      _ ≤ (∑ j ∈ Finset.range n, w j * v j).tdiv (∑ j ∈ Finset.range n, w j) := by
        apply Int.tdiv_le_tdiv hpos
        apply Finset.sum_le_sum
        intro j hj
        have hj' := Finset.mem_range.mp hj
        apply mul_le_mul_of_nonneg_left (hlo j hj') (hw j hj')
  · calc
      (∑ j ∈ Finset.range n, w j * v j).tdiv (∑ j ∈ Finset.range n, w j)
        ≤ (∑ j ∈ Finset.range n, w j * hi).tdiv (∑ j ∈ Finset.range n, w j) := by
        apply Int.tdiv_le_tdiv hpos
        apply Finset.sum_le_sum
        intro j hj
        have hj' := Finset.mem_range.mp hj
        apply mul_le_mul_of_nonneg_left (hhi j hj') (hw j hj')
      _ = hi := hconst hi

/-- A sum with weights that are not negative, over values that are at most `b`. -/
theorem abs_sum_mul_le {w v : ℕ → ℤ} {n : ℕ} (hw : ∀ j < n, 0 ≤ w j) {b : ℤ}
    (hv : ∀ j < n, |v j| ≤ b) :
  |∑ j ∈ Finset.range n, w j * v j| ≤ (∑ j ∈ Finset.range n, w j) * b
  := by
  calc
    |∑ j ∈ Finset.range n, w j * v j| ≤ ∑ j ∈ Finset.range n, |w j * v j| :=
      Finset.abs_sum_le_sum_abs _ _
    _ ≤ ∑ j ∈ Finset.range n, w j * b := by
      apply Finset.sum_le_sum
      intro j hj
      have hj' := Finset.mem_range.mp hj
      rw [abs_mul, abs_of_nonneg (hw j hj')]
      apply mul_le_mul_of_nonneg_left (hv j hj') (hw j hj')
    _ = (∑ j ∈ Finset.range n, w j) * b := by
      rw [Finset.sum_mul]

section Average

variable (s v : ℕ → ℤ) (n : ℕ)

/-- The largest of `n` scores. -/
def topScore : ℤ := (List.range n).foldl (fun m j => if s j > m then s j else m) (-2147483647)

/-- The weight of a score. -/
def softWeight (j : ℕ) : ℤ := approxExpQ15 (s j - topScore s n)

def totalWeight : ℤ := ∑ j ∈ Finset.range n, softWeight s n j

def weightedSum : ℤ := ∑ j ∈ Finset.range n, softWeight s n j * v j

/-- The average of the values, weighted by their scores and truncated. -/
def twoPass : ℤ := (weightedSum s v n).tdiv (totalWeight s n)

theorem softWeight_nonneg (j : ℕ) :
  0 ≤ softWeight s n j
  := (approxExpQ15_mem _).1

theorem softWeight_le (j : ℕ) :
  softWeight s n j ≤ q15OneI16
  := (approxExpQ15_mem _).2

variable {s v n}

theorem exists_topScore (hn : 0 < n) (hs : ∀ j < n, -2147483647 ≤ s j) :
  ∃ j < n, s j = topScore s n
  := by
  rcases foldl_max_mem s (List.range n) (-2147483647) with h | ⟨j, hj, h⟩
  · use 0, hn
    apply le_antisymm
    · apply le_foldl_max_of_mem s (List.mem_range.mpr hn)
    · rw [topScore, h]
      apply hs 0 hn
  · use j, List.mem_range.mp hj
    apply h

theorem le_topScore {j : ℕ} (hj : j < n) :
  s j ≤ topScore s n
  := le_foldl_max_of_mem s (List.mem_range.mpr hj) _

theorem totalWeight_pos (hn : 0 < n) (hs : ∀ j < n, -2147483647 ≤ s j) :
  0 < totalWeight s n
  := by
  obtain ⟨j, hj, htop⟩ := exists_topScore hn hs
  have hone : softWeight s n j = q15OneI16 := by
    rw [softWeight, htop, sub_self, approxExpQ15_zero]
  calc
    0 < q15OneI16 := by decide
    _ = softWeight s n j := hone.symm
    _ ≤ totalWeight s n :=
      Finset.single_le_sum (fun i _ => softWeight_nonneg s n i) (Finset.mem_range.mpr hj)

theorem totalWeight_le :
  totalWeight s n ≤ n * q15OneI16
  := by
  calc
    totalWeight s n ≤ ∑ _j ∈ Finset.range n, q15OneI16 :=
      Finset.sum_le_sum fun j _ => softWeight_le s n j
    _ = n * q15OneI16 := by
      rw [Finset.sum_const, Finset.card_range, nsmul_eq_mul]

theorem abs_weightedSum_le {b : ℤ} (hv : ∀ j < n, |v j| ≤ b) :
  |weightedSum s v n| ≤ totalWeight s n * b
  := abs_sum_mul_le (fun j _ => softWeight_nonneg s n j) hv

/-- An average is truncated to zero when the sum is less than the weights. -/
theorem twoPass_eq_zero_iff (hn : 0 < n) (hs : ∀ j < n, -2147483647 ≤ s j) :
  twoPass s v n = 0 ↔ |weightedSum s v n| < totalWeight s n
  := by
  have hpos := totalWeight_pos hn hs
  constructor
  · intro h
    have hlt := abs_sub_tdiv_mul_lt (weightedSum s v n) hpos
    rw [twoPass] at h
    rw [h, zero_mul, sub_zero] at hlt
    apply hlt
  · intro h
    obtain ⟨hlow, hhigh⟩ := abs_lt.mp h
    rw [twoPass]
    rcases le_total 0 (weightedSum s v n) with hnonneg | hnonpos
    · apply Int.tdiv_eq_zero_of_lt hnonneg hhigh
    · rw [← neg_neg (weightedSum s v n), Int.neg_tdiv,
        Int.tdiv_eq_zero_of_lt (neg_nonneg.mpr hnonpos) (by omega), neg_zero]

/-- An average lies between the bounds of the values. -/
theorem twoPass_mem (hn : 0 < n) (hs : ∀ j < n, -2147483647 ≤ s j) {lo hi : ℤ}
    (hlo : ∀ j < n, lo ≤ v j) (hhi : ∀ j < n, v j ≤ hi) :
  lo ≤ twoPass s v n ∧ twoPass s v n ≤ hi
  := weightedAverage_mem (fun j _ => softWeight_nonneg s n j) (totalWeight_pos hn hs) hlo hhi

theorem topScore_eq {j : ℕ} (hj : j < n) (hle : ∀ i < n, s i ≤ s j)
    (hlow : -2147483647 ≤ s j) :
  topScore s n = s j
  := by
  apply le_antisymm
  · apply (foldl_max_le_iff s).mpr ⟨hlow, _⟩
    intro i hi
    apply hle i (List.mem_range.mp hi)
  · apply le_topScore hj

/-- When one score lies far above the others, the average is its value. -/
theorem twoPass_eq_value {j : ℕ} (hj : j < n) (hfar : ∀ i < n, i ≠ j → s i ≤ s j - 512)
    (hlow : ∀ i < n, -2 ^ 30 ≤ s i) (hhigh : s j < 2 ^ 30) :
  twoPass s v n = v j
  := by
  have htop : topScore s n = s j := by
    apply topScore_eq hj
    · intro i hi
      rcases eq_or_ne i j with rfl | hne
      · apply le_refl
      · have hle := hfar i hi hne
        omega
    · have hle := hlow j hj
      omega
  have hself : softWeight s n j = q15OneI16 := by
    rw [softWeight, htop, sub_self, approxExpQ15_zero]
  have hother : ∀ i < n, i ≠ j → softWeight s n i = 0 := by
    intro i hi hne
    have hle := hfar i hi hne
    have hle' := hlow i hi
    rw [softWeight, htop, approxExpQ15, if_neg (by omega)]
    simp only []
    rw [apInt_of_mem (by decide) (by omega) (by omega), if_pos (by omega)]
  have htotal : totalWeight s n = q15OneI16 := by
    rw [totalWeight, Finset.sum_eq_single_of_mem j (Finset.mem_range.mpr hj), hself]
    intro i hi hne
    apply hother i (Finset.mem_range.mp hi) hne
  have hsum : weightedSum s v n = q15OneI16 * v j := by
    rw [weightedSum, Finset.sum_eq_single_of_mem j (Finset.mem_range.mpr hj), hself]
    intro i hi hne
    rw [hother i (Finset.mem_range.mp hi) hne, zero_mul]
  rw [twoPass, htotal, hsum]
  apply Int.mul_tdiv_cancel_left _ (by decide)

end Average

/-! ### The attention of the vision kernel -/

section Vision

variable (qkv : ℕ → AXI256) (t h d : ℕ)

/-- The value of token `s`. -/
def vitValue (s : ℕ) : ℤ := axiReadI32 qkv (s * vitQkv + 2 * vitC + h * vitHeadDim + d)

variable {qkv t h d}

/-- The sum of the weights fits its register. -/
theorem vitDenom_eq_sum {w : ℕ → ℤ} (hw : ∀ s < vitTokens, vitProb qkv t h s = w s)
    (hpos : 0 < ∑ s ∈ Finset.range vitTokens, w s)
    (hle : ∑ s ∈ Finset.range vitTokens, w s ≤ 1024 * 32767) :
  vitDenom qkv t h = ∑ s ∈ Finset.range vitTokens, w s
  := by
  have hfold : (List.range vitTokens).foldl
      (fun denom s => apInt 32 (denom + vitProb qkv t h s)) 0
        = ∑ s ∈ Finset.range vitTokens, w s := by
    calc
      (List.range vitTokens).foldl (fun denom s => apInt 32 (denom + vitProb qkv t h s)) 0
        = (List.range vitTokens).foldl (fun denom s => apInt 32 (denom + w s)) 0 := by
        apply List.foldl_ext
        intro denom s hs
        rw [hw s (List.mem_range.mp hs)]
      _ = apInt 32 (∑ s ∈ Finset.range vitTokens, w s) := foldl_apInt_add 31 _ _
      _ = ∑ s ∈ Finset.range vitTokens, w s := by
        apply apInt_of_mem (by decide) <;> omega
  simp only [vitDenom]
  rw [hfold, if_neg hpos.ne']

/-- The weighted sum in its register. -/
theorem vitAcc_eq_apInt {w : ℕ → ℤ} (hw : ∀ s < vitTokens, vitProb qkv t h s = w s) :
  vitAcc qkv t h d = apInt 43 (∑ s ∈ Finset.range vitTokens, w s * vitValue qkv h d s)
  := by
  calc
    vitAcc qkv t h d
      = (List.range vitTokens).foldl (fun acc s =>
          apInt 43 (acc + w s * vitValue qkv h d s)) 0 := by
      apply List.foldl_ext
      intro acc s hs
      rw [hw s (List.mem_range.mp hs)]
      rfl
    _ = apInt 43 (∑ s ∈ Finset.range vitTokens, w s * vitValue qkv h d s) :=
      foldl_apInt_add 42 _ _

variable (hs : ∀ s < vitTokens, |vitScore qkv t h s| ≤ 2 ^ 30)

include hs

theorem neg_le_vitScore :
  ∀ s < vitTokens, -2147483647 ≤ vitScore qkv t h s
  := by
  intro s hlt
  have hscore := abs_le.mp (hs s hlt)
  omega

theorem vitProb_eq {s : ℕ} (hlt : s < vitTokens) :
  vitProb qkv t h s = softWeight (vitScore qkv t h) vitTokens s
  := by
  obtain ⟨top, htop, heq⟩ := exists_topScore (by decide) (neg_le_vitScore hs)
  have hmax : vitMaxScore qkv t h = topScore (vitScore qkv t h) vitTokens := rfl
  have hle : vitScore qkv t h s ≤ topScore (vitScore qkv t h) vitTokens := le_topScore hlt
  have hscore := abs_le.mp (hs s hlt)
  have hscore' := abs_le.mp (hs top htop)
  rw [heq] at hscore'
  rw [vitProb, vitExpApprox, hmax, softWeight, apInt_of_mem (by decide) (by omega) (by omega)]

theorem vitDenom_eq :
  vitDenom qkv t h = totalWeight (vitScore qkv t h) vitTokens
  := vitDenom_eq_sum (fun _ hlt => vitProb_eq hs hlt)
    (totalWeight_pos (by decide) (neg_le_vitScore hs)) totalWeight_le

theorem vitAcc_eq (hv : ∀ s < vitTokens, |vitValue qkv h d s| ≤ 2 ^ 17) :
  vitAcc qkv t h d = weightedSum (vitScore qkv t h) (vitValue qkv h d) vitTokens
  := by
  have hle : totalWeight (vitScore qkv t h) vitTokens ≤ 1024 * 32767 := totalWeight_le
  have hsum := abs_le.mp (abs_weightedSum_le (s := vitScore qkv t h) hv)
  rw [vitAcc_eq_apInt fun _ hlt => vitProb_eq hs hlt, ← weightedSum]
  apply apInt_of_mem (by decide) <;> omega

/-- When scores and values are small enough for the registers, the output is the average. -/
theorem vitAttention_eq_twoPass (hv : ∀ s < vitTokens, |vitValue qkv h d s| ≤ 2 ^ 17) :
  apInt 32 ((vitAcc qkv t h d).tdiv (vitDenom qkv t h))
    = twoPass (vitScore qkv t h) (vitValue qkv h d) vitTokens
  := by
  obtain ⟨hlow, hhigh⟩ := twoPass_mem (by decide) (neg_le_vitScore hs)
    (fun s hlt => (abs_le.mp (hv s hlt)).1) (fun s hlt => (abs_le.mp (hv s hlt)).2)
  rw [vitAcc_eq hs hv, vitDenom_eq hs, ← twoPass]
  apply apInt_of_mem (by decide) <;> omega

end Vision

/-! ### Flash attention -/

section Flash

variable (bank : KVCacheHead) (kvLen : ℕ) (qRow : List ℤ)

/-- The average of dimension `d` of the values, for a query. -/
def attentionAverage (d : ℕ) : ℤ :=
  twoPass (score bank.kPack qRow) (fun pos => dequantNibble bank.vPack pos d) kvLen

theorem attentionAverage_eq_zero_iff (hlen : 1 ≤ kvLen) (d : ℕ) :
  attentionAverage bank kvLen qRow d = 0
    ↔ |weightedSum (score bank.kPack qRow) (fun pos => dequantNibble bank.vPack pos d) kvLen|
      < totalWeight (score bank.kPack qRow) kvLen
  := by
  apply twoPass_eq_zero_iff hlen
  intro pos _
  have hscore := abs_le.mp (abs_score_le bank.kPack qRow pos)
  omega

end Flash

/-- Query `i` of a stream. -/
def streamQuery (q : ℕ → ℤ) (i : ℕ) : List ℤ := (List.range dHead).map fun d => q (i * dHead + d)

/-- Rows of values are a stream of zeros when all of them are zero. -/
theorem replicate_eq_flatMap_iff {n k : ℕ} {f : ℕ → ℕ → ℤ} :
  List.replicate (n * k) 0 = ((List.range n).flatMap fun i => (List.range k).map (f i))
    ↔ ∀ i < n, ∀ d < k, f i d = 0
  := by
  constructor
  · intro h i hi d hd
    have hmem : f i d ∈ List.replicate (n * k) 0 := by
      rw [h]
      apply List.mem_flatMap.mpr
      use i, List.mem_range.mpr hi
      apply List.mem_map_of_mem (List.mem_range.mpr hd)
    apply (List.mem_replicate.mp hmem).2
  · intro h
    symm
    apply List.eq_replicate_iff.mpr
    constructor
    · apply length_flatMap_range
      intro i _
      rw [List.length_map, List.length_range]
    · intro x hx
      obtain ⟨i, hi, hx⟩ := List.mem_flatMap.mp hx
      obtain ⟨d, hd, rfl⟩ := List.mem_map.mp hx
      apply h i (List.mem_range.mp hi) d (List.mem_range.mp hd)

/-- `flash_attention_head` outputs the averages of the two passes. -/
def OutputsAverages (kvLen qLen : ℕ) (q : ℕ → ℤ) (bank : KVCacheHead) : Prop :=
  ∃ τ, (flashAttentionHead .q .o bank kvLen qLen).run
      (flashStore ((List.range (qLen * gqaRatio * dHead)).map q)) = some ((), τ)
    ∧ τ .o = (List.range (qLen * gqaRatio)).flatMap fun i =>
        (List.range dHead).map (attentionAverage bank kvLen (streamQuery q i))

theorem outputsAverages_iff (kvLen qLen : ℕ) (q : ℕ → ℤ) (bank : KVCacheHead) :
  OutputsAverages kvLen qLen q bank
    ↔ ∀ i < qLen * gqaRatio, ∀ d < dHead, attentionAverage bank kvLen (streamQuery q i) d = 0
  := by
  obtain ⟨τ, hrun, hzero⟩ := run_flashAttentionHead kvLen qLen q bank
  rw [← replicate_eq_flatMap_iff]
  constructor
  · rintro ⟨τ', hrun', hout⟩
    obtain rfl : τ = τ' := congrArg Prod.snd (Option.some.inj (hrun.symm.trans hrun'))
    rw [← hzero, hout]
  · intro h
    refine ⟨τ, hrun, ?_⟩
    rw [hzero, h]

/-- The queries of 1024 in the first dimension. -/
def spikeStream (i : ℕ) : ℤ := if i % dHead = 0 then 1024 else 0

theorem getD_streamQuery_spike (i d : ℕ) :
  (streamQuery spikeStream i).getD d 0 = if d = 0 then 1024 else 0
  := by
  have hlen : (streamQuery spikeStream i).length = dHead := by
    rw [streamQuery, List.length_map, List.length_range]
  rcases Nat.lt_or_ge d dHead with hd | hd
  · rw [List.getD_eq_getElem _ _ (by rwa [hlen])]
    simp only [streamQuery, List.getElem_map, List.getElem_range, spikeStream,
      Nat.mul_add_mod_of_lt hd]
  · rw [List.getD_eq_default _ _ (by rwa [hlen]), if_neg]
    rintro rfl
    cases hd

/-- A query and keys whose average is the value of one position. -/
theorem attentionAverage_spike {kvLen pos : ℕ} (hpos : pos < kvLen) (vPack : ℕ → BitVec 128)
    (d : ℕ) :
  attentionAverage ⟨(bankWhere (· == pos)).kPack, vPack⟩ kvLen (streamQuery spikeStream 0) d
    = dequantNibble vPack pos d
  := by
  have hscore := score_bankWhere (· == pos) (getD_streamQuery_spike 0)
  rw [attentionAverage, twoPass_eq_value hpos]
  · intro i _ hne
    simp [hscore, hne]
  · intro i _
    rw [hscore]
    split <;> decide
  · rw [hscore]
    split <;> decide

/-- The average of zeros. -/
theorem attentionAverage_of_zero {bank : KVCacheHead} {kvLen d : ℕ} (qRow : List ℤ)
    (h : ∀ pos < kvLen, dequantNibble bank.vPack pos d = 0) :
  attentionAverage bank kvLen qRow d = 0
  := by
  have hsum : weightedSum (score bank.kPack qRow) (fun pos => dequantNibble bank.vPack pos d)
      kvLen = 0 := by
    apply Finset.sum_eq_zero
    intro pos hpos
    simp only [h pos (Finset.mem_range.mp hpos), mul_zero]
  rw [attentionAverage, twoPass, hsum, Int.zero_tdiv]

/-- For any number of query tokens and positions, `flash_attention_head` outputs the averages of
the two passes exactly when all of them are truncated to zero; and for all queries and keys it
does exactly when all decoded values are zero. -/
theorem flashAttentionHead_twoPass_iff (kvLen qLen : ℕ) (vPack : ℕ → BitVec 128)
    (hlen : 1 ≤ kvLen) :
  (∀ q kPack, OutputsAverages kvLen qLen q ⟨kPack, vPack⟩
      ↔ ∀ i < qLen * gqaRatio, ∀ d < dHead,
        |weightedSum (score kPack (streamQuery q i)) (fun pos => dequantNibble vPack pos d) kvLen|
          < totalWeight (score kPack (streamQuery q i)) kvLen)
    ∧ ((∀ q kPack, OutputsAverages kvLen qLen q ⟨kPack, vPack⟩)
      ↔ qLen = 0 ∨ ∀ d < dHead, ∀ pos < kvLen, dequantNibble vPack pos d = 0)
  := by
  constructor
  · intro q kPack
    simp only [outputsAverages_iff, attentionAverage_eq_zero_iff _ _ _ hlen]
  · simp only [outputsAverages_iff]
    constructor
    · intro h
      rcases Nat.eq_zero_or_pos qLen with hq | hq
      · left
        apply hq
      · right
        intro d hd pos hpos
        rw [← attentionAverage_spike hpos vPack d]
        apply h _ _ 0 (Nat.mul_pos hq (by decide)) d hd
    · rintro (rfl | h) q kPack i hi d hd
      · rw [Nat.zero_mul] at hi
        cases hi
      · apply attentionAverage_of_zero
        apply h d hd

/-- A single position whose nibbles are 15: the average of a query of ones is 7, the output 0. -/
theorem not_outputsAverages :
  attentionAverage (bankUntil 1) 1 (streamQuery (fun _ => 1) 0) 0 = 7
    ∧ ¬ OutputsAverages 1 1 (fun _ => 1) (bankUntil 1)
  := by
  have hseven : attentionAverage (bankUntil 1) 1 (streamQuery (fun _ => 1) 0) 0 = 7 := by
    decide +kernel
  refine ⟨hseven, ?_⟩
  intro h
  have hzero := (outputsAverages_iff 1 1 _ _).mp h 0 (by decide) 0 (by decide)
  omega

/-- The values 7, -6 and 3 at three positions. -/
def mixedValues (pos : ℕ) : ℤ := if pos = 0 then 7 else if pos = 1 then -6 else 3

/-- Their packs. -/
def mixedPacks (c : ℕ) : BitVec 128 :=
  packLanes 128 grp fun _ => BitVec.ofInt 4 (mixedValues (c / (dHead / grp)) + 8)

theorem dequantNibble_mixedPacks (pos : ℕ) {d : ℕ} (hd : d < dHead) :
  dequantNibble mixedPacks pos d = mixedValues pos
  := by
  have hpos : bufIdx pos (d / grp) / (dHead / grp) = pos := by
    change d < 64 at hd
    change (pos * 2 + d / 32) / 2 = pos
    omega
  rw [dequantNibble, mixedPacks, extractLsb'_packLanes _ (by decide) (Nat.mod_lt _ (by decide)),
    hpos, mixedValues]
  split_ifs <;> decide

/-- Two keys of one score, and a third one without weight: the averages of 7 and -6 are truncated
to zero. -/
theorem flashAttentionHead_twoPass_mixed :
  OutputsAverages 3 1 spikeStream ⟨(bankUntil 2).kPack, mixedPacks⟩
  := by
  apply ((flashAttentionHead_twoPass_iff 3 1 mixedPacks (by decide)).1 _ _).mpr
  intro i _ d hd
  have hscore : score (bankUntil 2).kPack (streamQuery spikeStream i)
      = fun pos => if pos < 2 then 896 else -1024 := by
    funext pos
    rw [bankUntil, score_bankWhere _ (getD_streamQuery_spike i)]
    simp only [decide_eq_true_eq]
  simp only [dequantNibble_mixedPacks _ hd, hscore]
  decide

/-! ### Bounds of the outputs -/

/-- An output in dimension `d` lies between the least and the largest of the decoded values. -/
def BetweenValues (bank : KVCacheHead) (kvLen d : ℕ) (out : ℤ) : Prop :=
  (∃ pos < kvLen, dequantNibble bank.vPack pos d ≤ out)
    ∧ ∃ pos < kvLen, out ≤ dequantNibble bank.vPack pos d

/-- For any number of query tokens and positions, the outputs of `flash_attention_head` lie
between the values exactly when no dimension has only positive or only negative values. -/
theorem flashAttentionHead_between_iff (kvLen qLen : ℕ) (q : ℕ → ℤ) (bank : KVCacheHead) :
  (∃ τ, (flashAttentionHead .q .o bank kvLen qLen).run
      (flashStore ((List.range (qLen * gqaRatio * dHead)).map q)) = some ((), τ)
    ∧ (τ .o).length = qLen * gqaRatio * dHead
    ∧ ∀ i < qLen * gqaRatio, ∀ d < dHead,
      BetweenValues bank kvLen d ((τ .o).getD (i * dHead + d) 0))
  ↔ qLen = 0 ∨ ∀ d < dHead, (∃ pos < kvLen, dequantNibble bank.vPack pos d ≤ 0)
      ∧ ∃ pos < kvLen, 0 ≤ dequantNibble bank.vPack pos d
  := by
  obtain ⟨τ, hrun, hzero⟩ := run_flashAttentionHead kvLen qLen q bank
  have hgetD : ∀ i, (τ .o).getD i 0 = 0 := by
    intro i
    rw [hzero]
    rcases Nat.lt_or_ge i (qLen * gqaRatio * dHead) with h | h
    · rw [List.getD_eq_getElem _ _ (by rwa [List.length_replicate]), List.getElem_replicate]
    · rw [List.getD_eq_default _ _ (by rwa [List.length_replicate])]
  constructor
  · rintro ⟨τ', hrun', -, hbetween⟩
    obtain rfl := congrArg Prod.snd (Option.some.inj (hrun.symm.trans hrun'))
    simp only [hgetD] at hbetween
    rcases Nat.eq_zero_or_pos qLen with hq | hq
    · left
      apply hq
    · right
      apply hbetween 0 (Nat.mul_pos hq (by decide))
  · intro h
    refine ⟨τ, hrun, ?_, ?_⟩
    · rw [hzero, List.length_replicate]
    · intro i hi d hd
      rw [hgetD]
      rcases h with rfl | h
      · rw [Nat.zero_mul] at hi
        cases hi
      · apply h d hd

/-- With a single position whose nibbles are 15, the values are 7 and the outputs zero. -/
theorem flashAttentionHead_not_between :
  ∃ τ, (flashAttentionHead .q .o (bankUntil 1) 1 1).run
      (flashStore ((List.range (1 * gqaRatio * dHead)).map fun _ => 1)) = some ((), τ)
    ∧ (τ .o).getD 0 1 = 0
    ∧ ¬ BetweenValues (bankUntil 1) 1 0 ((τ .o).getD 0 1)
    ∧ -32767 ≤ score (bankUntil 1).kPack (streamQuery (fun _ => 1) 0) 0
  := by
  obtain ⟨τ, hrun, hzero⟩ := run_flashAttentionHead 1 1 (fun _ => 1) (bankUntil 1)
  have hout : (τ .o).getD 0 1 = 0 := by
    rw [hzero]
    rfl
  refine ⟨τ, hrun, hout, ?_, by decide +kernel⟩
  rw [hout]
  rintro ⟨⟨pos, hpos, hle⟩, -⟩
  obtain rfl : pos = 0 := by omega
  revert hle
  decide +kernel

end Kv260
