import Mathlib.Algebra.Order.Field.Rat
import Mathlib.Data.Matrix.ColumnRowPartitioned
import Mathlib.Tactic.Ring

/-!
# The AWQ scales and the export

`QuantizedLinear` of `modeling.py` multiplies the columns of its weight by the AWQ scales, so
that they are rounded more finely, and divides its input by the same scales.  The export takes
the multiplied weights.  This module compares the projections of a decoder layer that the
kernel computes from the export with those of the evaluated model, when nothing is rounded.
-/

set_option autoImplicit false

namespace Kv260

open Matrix

/-! ### Matrices on scaled vectors -/

/-- Two affine maps agree on the multiples of `gamma` exactly when the offset is zero and the
columns agree wherever `gamma` is not zero. -/
theorem forall_mulVec_mul_eq_iff {r c : Type} [Fintype c] [DecidableEq c]
    (A B : Matrix r c ℚ) (offset : r → ℚ) (gamma : c → ℚ) :
  (∀ x, A *ᵥ (gamma * x) = B *ᵥ (gamma * x) + offset)
    ↔ offset = 0 ∧ ∀ j, gamma j = 0 ∨ ∀ i, A i j = B i j
  := by
  constructor
  · intro h
    have hoffset : offset = 0 := by
      have hzero := h 0
      rwa [mul_zero, mulVec_zero, mulVec_zero, zero_add, eq_comm] at hzero
    use hoffset
    intro j
    rcases eq_or_ne (gamma j) 0 with hgamma | hgamma
    · exact .inl hgamma
    · right
      intro i
      -- the vector whose multiple is the unit vector of the column
      have hunit : gamma * Pi.single j (gamma j)⁻¹ = Pi.single j 1 := by
        rw [← Pi.single_mul_right, mul_inv_cancel₀ hgamma]
      have hcolumn := congrFun (h (Pi.single j (gamma j)⁻¹)) i
      rwa [hunit, mulVec_single_one, mulVec_single_one, hoffset, add_zero] at hcolumn
  · rintro ⟨rfl, h⟩ x
    rw [add_zero]
    funext i
    simp only [mulVec, dotProduct]
    apply Finset.sum_congr rfl
    intro j _
    rcases h j with hgamma | heq
    · rw [Pi.mul_apply, hgamma, zero_mul, mul_zero, mul_zero]
    · rw [heq i]

/-- Scaling the columns undoes the division of the vector by the same scale. -/
theorem mulVec_div_scale {r c : Type} [Fintype c] (A : Matrix r c ℚ) {scale : c → ℚ}
    (hscale : ∀ j, scale j ≠ 0) (x : c → ℚ) :
  (of fun i j => A i j * scale j) *ᵥ (x / scale) = A *ᵥ x
  := by
  funext i
  simp only [mulVec, dotProduct]
  apply Finset.sum_congr rfl
  intro j _
  rw [of_apply, Pi.div_apply, mul_assoc, mul_div_cancel₀ _ (hscale j)]

/-! ### The evaluated module -/

/-- What rounds activations, weights and the weights of the normalisations. -/
structure Quantisers where
  act : ∀ {n : ℕ}, (Fin n → ℚ) → Fin n → ℚ
  weight : ∀ {rows : Type} {n : ℕ}, Matrix rows (Fin n) ℚ → Matrix rows (Fin n) ℚ
  gamma : ℚ → ℚ

/-- No rounding. -/
def Quantisers.exact : Quantisers := ⟨id, id, id⟩

/-- `lora_a` and `lora_b`. -/
structure LoraFactors (inFeatures outFeatures : ℕ) where
  rank : ℕ
  loraA : Matrix (Fin rank) (Fin inFeatures) ℚ
  loraB : Matrix (Fin outFeatures) (Fin rank) ℚ

/-- `QuantizedLinear`.  The factors are absent when `lora_rank` is zero. -/
structure QuantizedLinear (inFeatures outFeatures : ℕ) where
  weight : Matrix (Fin outFeatures) (Fin inFeatures) ℚ
  bias : Option (Fin outFeatures → ℚ)
  lora : Option (LoraFactors inFeatures outFeatures)
  awqInputScale : Fin inFeatures → ℚ
  hasAwqScale : Bool
  awqInputScale_pos : ∀ c, 0 < awqInputScale c

namespace QuantizedLinear

variable {inFeatures outFeatures : ℕ} (m : QuantizedLinear inFeatures outFeatures)

/-- `__init__`. -/
def ofLinear (weight : Matrix (Fin outFeatures) (Fin inFeatures) ℚ)
    (bias : Option (Fin outFeatures → ℚ)) (lora : Option (LoraFactors inFeatures outFeatures)) :
    QuantizedLinear inFeatures outFeatures where
  weight := weight
  bias := bias
  lora := lora
  awqInputScale _ := 1
  hasAwqScale := false
  awqInputScale_pos _ := one_pos

/-- `set_awq_scale`. -/
def setAwqScale (scale : Fin inFeatures → ℚ) (hscale : ∀ c, 0 < scale c) :
    QuantizedLinear inFeatures outFeatures :=
  { m with awqInputScale := scale, hasAwqScale := true, awqInputScale_pos := hscale }

/-- `_effective_weight`. -/
def effectiveWeight : Matrix (Fin outFeatures) (Fin inFeatures) ℚ :=
  match m.lora with
  | none => m.weight
  | some lora => m.weight + lora.loraB * lora.loraA

/-- The effective weight with its columns multiplied by the scale. -/
def scaledWeight : Matrix (Fin outFeatures) (Fin inFeatures) ℚ :=
  of fun r c => m.effectiveWeight r c * m.awqInputScale c

/-- `export_fp_weight`. -/
def exportFpWeight : Matrix (Fin outFeatures) (Fin inFeatures) ℚ :=
  if m.hasAwqScale then m.scaledWeight else m.effectiveWeight

/-- `bias`, which is zero when there is none. -/
def biasOrZero : Fin outFeatures → ℚ := m.bias.getD 0

/-- `forward`. -/
def forward (quant : Quantisers) (x : Fin inFeatures → ℚ) : Fin outFeatures → ℚ :=
  let workX := if m.hasAwqScale then x / m.awqInputScale else x
  let weight := if m.hasAwqScale then m.scaledWeight else m.effectiveWeight
  quant.weight weight *ᵥ quant.act workX + m.biasOrZero

/-- Without rounding the scale cancels. -/
theorem forward_exact (x : Fin inFeatures → ℚ) :
  m.forward .exact x = m.effectiveWeight *ᵥ x + m.biasOrZero
  := by
  rcases h : m.hasAwqScale with _ | _
  · simp only [forward, h, Quantisers.exact, id, Bool.false_eq_true, if_false]
  · simp only [forward, h, Quantisers.exact, id, if_true, scaledWeight]
    rw [mulVec_div_scale _ fun c => (m.awqInputScale_pos c).ne']

/-- On the multiples of `gamma`, the exported weight computes what `forward` computes. -/
def ExportMatches (gamma : Fin inFeatures → ℚ) : Prop :=
  ∀ x, m.exportFpWeight *ᵥ (gamma * x) = m.forward .exact (gamma * x)

/-- There is no bias, and no scale on a column that contributes. -/
def NothingToFold (gamma : Fin inFeatures → ℚ) : Prop :=
  m.biasOrZero = 0 ∧ (m.hasAwqScale = true →
    ∀ c, gamma c = 0 ∨ m.awqInputScale c = 1 ∨ ∀ r, m.effectiveWeight r c = 0)

/-- A column is exported as it is exactly when its scale is one or it is zero. -/
theorem exportFpWeight_column_iff (c : Fin inFeatures) :
  (∀ r, m.exportFpWeight r c = m.effectiveWeight r c)
    ↔ (m.hasAwqScale = true → m.awqInputScale c = 1 ∨ ∀ r, m.effectiveWeight r c = 0)
  := by
  rcases h : m.hasAwqScale with _ | _
  · simp only [exportFpWeight, h, Bool.false_eq_true, if_false, implies_true, false_implies]
  · simp only [exportFpWeight, h, if_true, scaledWeight, of_apply, true_implies]
    constructor
    · intro hcolumn
      rcases eq_or_ne (m.awqInputScale c) 1 with hone | hone
      · exact .inl hone
      · right
        intro r
        exact (mul_right_eq_self₀.mp (hcolumn r)).resolve_left hone
    · rintro (hone | hzero) r
      · rw [hone, mul_one]
      · rw [hzero r, zero_mul]

/-- The export matches exactly when nothing would have to be folded elsewhere. -/
theorem exportMatches_iff (gamma : Fin inFeatures → ℚ) :
  m.ExportMatches gamma ↔ m.NothingToFold gamma
  := by
  have hiff := forall_mulVec_mul_eq_iff m.exportFpWeight m.effectiveWeight m.biasOrZero gamma
  simp only [ExportMatches, forward_exact]
  rw [hiff, NothingToFold, and_congr_right_iff]
  intro _
  constructor
  · intro h hscale c
    rcases h c with hgamma | hcolumn
    · exact .inl hgamma
    · exact .inr ((m.exportFpWeight_column_iff c).mp hcolumn hscale)
  · intro h c
    by_cases hgamma : gamma c = 0
    · exact .inl hgamma
    · right
      apply (m.exportFpWeight_column_iff c).mpr
      intro hscale
      exact (h hscale c).resolve_left hgamma

end QuantizedLinear

/-! ### Decoder layers -/

/-- The linear modules and the weights of the normalisations of a decoder layer. -/
structure DecoderLayer (hidden attnDim kvDim ffn : ℕ) where
  qProj : QuantizedLinear hidden attnDim
  kProj : QuantizedLinear hidden kvDim
  vProj : QuantizedLinear hidden kvDim
  oProj : QuantizedLinear attnDim hidden
  gateProj : QuantizedLinear hidden ffn
  upProj : QuantizedLinear hidden ffn
  downProj : QuantizedLinear ffn hidden
  inputLayernorm : Fin hidden → ℚ
  postAttentionLayernorm : Fin hidden → ℚ

/-- The matrices and vectors that are exported for a layer. -/
structure LayerBundle (hidden attnDim kvDim ffn : ℕ) where
  qkv : Matrix (Fin attnDim ⊕ Fin kvDim ⊕ Fin kvDim) (Fin hidden) ℚ
  out : Matrix (Fin hidden) (Fin attnDim) ℚ
  gateUp : Matrix (Fin ffn ⊕ Fin ffn) (Fin hidden) ℚ
  down : Matrix (Fin hidden) (Fin ffn) ℚ
  gammaAttn : Fin hidden → ℚ
  gammaFfn : Fin hidden → ℚ

variable {hidden attnDim kvDim ffn : ℕ}

/-- `_quantize_layer_bundle`. -/
def quantizeLayerBundle (quant : Quantisers) (layer : DecoderLayer hidden attnDim kvDim ffn) :
    LayerBundle hidden attnDim kvDim ffn where
  qkv := quant.weight (fromRows layer.qProj.exportFpWeight
    (fromRows layer.kProj.exportFpWeight layer.vProj.exportFpWeight))
  out := quant.weight layer.oProj.exportFpWeight
  gateUp := quant.weight (fromRows layer.gateProj.exportFpWeight layer.upProj.exportFpWeight)
  down := quant.weight layer.downProj.exportFpWeight
  gammaAttn c := quant.gamma (layer.inputLayernorm c * 64)
  gammaFfn c := quant.gamma (layer.postAttentionLayernorm c * 64)

/-- What `rmsnorm_quant` does to a normalised vector, of which 64 units of `gamma` are one. -/
def applyGamma (quant : Quantisers) (gamma x : Fin hidden → ℚ) : Fin hidden → ℚ :=
  quant.act fun c => x c * gamma c / 64

namespace LayerBundle

variable (bundle : LayerBundle hidden attnDim kvDim ffn)

/-- The projections of a normalised vector to queries, keys and values. -/
def qkvOf (quant : Quantisers) (x : Fin hidden → ℚ) : Fin attnDim ⊕ Fin kvDim ⊕ Fin kvDim → ℚ :=
  bundle.qkv *ᵥ applyGamma quant bundle.gammaAttn x

/-- The projections of a normalised vector to gate and up. -/
def gateUpOf (quant : Quantisers) (x : Fin hidden → ℚ) : Fin ffn ⊕ Fin ffn → ℚ :=
  bundle.gateUp *ᵥ applyGamma quant bundle.gammaFfn x

end LayerBundle

namespace DecoderLayer

variable (layer : DecoderLayer hidden attnDim kvDim ffn)

/-- The evaluated projections to queries, keys and values. -/
def qkvOf (quant : Quantisers) (x : Fin hidden → ℚ) : Fin attnDim ⊕ Fin kvDim ⊕ Fin kvDim → ℚ :=
  let h := layer.inputLayernorm * x
  Sum.elim (layer.qProj.forward quant h)
    (Sum.elim (layer.kProj.forward quant h) (layer.vProj.forward quant h))

/-- The evaluated projections to gate and up. -/
def gateUpOf (quant : Quantisers) (x : Fin hidden → ℚ) : Fin ffn ⊕ Fin ffn → ℚ :=
  let h := layer.postAttentionLayernorm * x
  Sum.elim (layer.gateProj.forward quant h) (layer.upProj.forward quant h)

/-- The projections computed from the exported layer are the evaluated ones. -/
def FoldPreserves : Prop :=
  ∀ x, (quantizeLayerBundle .exact layer).qkvOf .exact x = layer.qkvOf .exact x
    ∧ (quantizeLayerBundle .exact layer).gateUpOf .exact x = layer.gateUpOf .exact x

theorem applyGamma_exact (gamma x : Fin hidden → ℚ) :
  applyGamma .exact (fun c => Quantisers.exact.gamma (gamma c * 64)) x = gamma * x
  := by
  funext c
  simp only [applyGamma, Quantisers.exact, id, Pi.mul_apply]
  ring

/-- The projections are those of the modules, one after the other. -/
theorem foldPreserves_iff_exportMatches :
  layer.FoldPreserves
    ↔ (layer.qProj.ExportMatches layer.inputLayernorm
        ∧ layer.kProj.ExportMatches layer.inputLayernorm
        ∧ layer.vProj.ExportMatches layer.inputLayernorm)
      ∧ layer.gateProj.ExportMatches layer.postAttentionLayernorm
      ∧ layer.upProj.ExportMatches layer.postAttentionLayernorm
  := by
  simp only [FoldPreserves, LayerBundle.qkvOf, LayerBundle.gateUpOf, qkvOf, gateUpOf,
    quantizeLayerBundle, applyGamma_exact]
  simp only [Quantisers.exact, id, fromRows_mulVec, Sum.elim_eq_iff]
  constructor
  · intro h
    exact ⟨⟨fun x => (h x).1.1, fun x => (h x).1.2.1, fun x => (h x).1.2.2⟩,
      fun x => (h x).2.1, fun x => (h x).2.2⟩
  · rintro ⟨⟨hq, hk, hv⟩, hgate, hup⟩ x
    exact ⟨⟨hq x, hk x, hv x⟩, hgate x, hup x⟩

/-- The export of a layer preserves its projections exactly when none of them has a bias or a
scale other than one on a column that contributes. -/
theorem foldPreserves_iff :
  layer.FoldPreserves
    ↔ (layer.qProj.NothingToFold layer.inputLayernorm
        ∧ layer.kProj.NothingToFold layer.inputLayernorm
        ∧ layer.vProj.NothingToFold layer.inputLayernorm)
      ∧ layer.gateProj.NothingToFold layer.postAttentionLayernorm
      ∧ layer.upProj.NothingToFold layer.postAttentionLayernorm
  := by
  rw [foldPreserves_iff_exportMatches]
  simp only [QuantizedLinear.exportMatches_iff]

end DecoderLayer

/-- A module of ones, with the scale two on all columns. -/
def scaledOnes (inFeatures outFeatures : ℕ) : QuantizedLinear inFeatures outFeatures :=
  (QuantizedLinear.ofLinear (of fun _ _ => 1) none none).setAwqScale (fun _ => 2)
    fun _ => two_pos

/-- A layer of such modules. -/
def scaledOnesLayer (hidden attnDim kvDim ffn : ℕ) : DecoderLayer hidden attnDim kvDim ffn where
  qProj := scaledOnes hidden attnDim
  kProj := scaledOnes hidden kvDim
  vProj := scaledOnes hidden kvDim
  oProj := scaledOnes attnDim hidden
  gateProj := scaledOnes hidden ffn
  upProj := scaledOnes hidden ffn
  downProj := scaledOnes ffn hidden
  inputLayernorm _ := 1
  postAttentionLayernorm _ := 1

/-- Its projections double. -/
theorem not_foldPreserves_scaledOnes :
  ¬ (scaledOnesLayer 960 960 320 2560).FoldPreserves
  := by
  rw [DecoderLayer.foldPreserves_iff_exportMatches]
  rintro ⟨⟨hq, -⟩, -⟩
  obtain ⟨-, hfold⟩ := (QuantizedLinear.exportMatches_iff _ _).mp hq
  rcases hfold rfl 0 with hgamma | hscale | hzero
  · exact absurd hgamma one_ne_zero
  · exact absurd hscale (by change (2 : ℚ) ≠ 1; norm_num)
  · exact absurd (hzero 0) one_ne_zero

end Kv260
