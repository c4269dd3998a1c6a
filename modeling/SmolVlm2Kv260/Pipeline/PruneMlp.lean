import Mathlib.Algebra.Field.Basic
import Mathlib.Data.Matrix.Mul
import Mathlib.Order.Hom.Basic

/-!
# Pruning hidden channels

`awq_mlp_channel_prune_eval.py` removes hidden channels from the modules of an MLP.  Over any
field, with nothing rounded and any activation, the smaller modules compute what the original ones
compute when the removed channels are set to zero.
-/

set_option autoImplicit false

namespace Kv260

open Matrix

variable {K : Type} [Field K]

/-- What `QuantizedLinear` has when nothing is rounded.  The scale is the one that is read: none
unless `has_awq_scale`, and then the buffer may have any length. -/
structure LinearModule (K : Type) (inFeatures outFeatures : ℕ) where
  weight : Matrix (Fin outFeatures) (Fin inFeatures) K
  bias : Option (Fin outFeatures → K)
  rank : ℕ
  loraA : Option (Matrix (Fin rank) (Fin inFeatures) K)
  loraB : Option (Matrix (Fin outFeatures) (Fin rank) K)
  awqInputScale : Option (Fin inFeatures → K)

namespace LinearModule

variable {inFeatures outFeatures kept : ℕ} (m : LinearModule K inFeatures outFeatures)

/-- `_effective_weight`. -/
def effectiveWeight : Matrix (Fin outFeatures) (Fin inFeatures) K :=
  match m.loraA, m.loraB with
  | some loraA, some loraB => m.weight + loraB * loraA
  | _, _ => m.weight

/-- `work_x` of `forward`. -/
def workX (x : Fin inFeatures → K) : Fin inFeatures → K :=
  match m.awqInputScale with
  | some scale => x / scale
  | none => x

/-- `weight` of `forward`. -/
def workWeight : Matrix (Fin outFeatures) (Fin inFeatures) K :=
  match m.awqInputScale with
  | some scale => of fun r c => m.effectiveWeight r c * scale c
  | none => m.effectiveWeight

/-- `forward`, with the identity for both quantisers. -/
def forward (x : Fin inFeatures → K) : Fin outFeatures → K :=
  m.workWeight *ᵥ m.workX x + m.bias.getD 0

/-- `_slice_quantized_linear` with `slice_rows=True`. -/
def sliceRows (keep : Fin kept ↪o Fin outFeatures) : LinearModule K inFeatures kept where
  weight := m.weight.submatrix keep id
  bias := m.bias.map (· ∘ keep)
  rank := m.rank
  loraA := m.loraA
  loraB := m.loraB.map (·.submatrix keep id)
  awqInputScale := m.awqInputScale

/-- `_slice_quantized_linear` with `slice_rows=False`. -/
def sliceColumns (keep : Fin kept ↪o Fin inFeatures) : LinearModule K kept outFeatures where
  weight := m.weight.submatrix id keep
  bias := m.bias
  rank := m.rank
  loraA := m.loraA.map (·.submatrix id keep)
  loraB := m.loraB
  awqInputScale := m.awqInputScale.map (· ∘ keep)

/-! ### Slices of the weight -/

theorem effectiveWeight_sliceRows (keep : Fin kept ↪o Fin outFeatures) :
  (m.sliceRows keep).effectiveWeight = m.effectiveWeight.submatrix keep id
  := by
  rw [effectiveWeight, effectiveWeight, sliceRows]
  cases m.loraA with
  | none => rfl
  | some loraA =>
    cases m.loraB with
    | none => rfl
    | some loraB => rfl

theorem effectiveWeight_sliceColumns (keep : Fin kept ↪o Fin inFeatures) :
  (m.sliceColumns keep).effectiveWeight = m.effectiveWeight.submatrix id keep
  := by
  rw [effectiveWeight, effectiveWeight, sliceColumns]
  cases m.loraA with
  | none => rfl
  | some loraA =>
    cases m.loraB with
    | none => rfl
    | some loraB => rfl

theorem workWeight_sliceRows (keep : Fin kept ↪o Fin outFeatures) :
  (m.sliceRows keep).workWeight = m.workWeight.submatrix keep id
  := by
  have effective := m.effectiveWeight_sliceRows keep
  rw [workWeight, workWeight, effective]
  change (match m.awqInputScale with | some scale => _ | none => _) = _
  cases m.awqInputScale with
  | none => rfl
  | some scale => rfl

theorem workWeight_sliceColumns (keep : Fin kept ↪o Fin inFeatures) :
  (m.sliceColumns keep).workWeight = m.workWeight.submatrix id keep
  := by
  have effective := m.effectiveWeight_sliceColumns keep
  rw [workWeight, workWeight, effective, sliceColumns]
  cases m.awqInputScale with
  | none => rfl
  | some scale => rfl

theorem workX_sliceColumns (keep : Fin kept ↪o Fin inFeatures) (x : Fin inFeatures → K) :
  (m.sliceColumns keep).workX (x ∘ keep) = m.workX x ∘ keep
  := by
  rw [workX, workX, sliceColumns]
  cases m.awqInputScale with
  | none => rfl
  | some scale => rfl

/-! ### Slices of the output and of the input -/

/-- The sliced rows compute the kept outputs. -/
theorem forward_sliceRows (keep : Fin kept ↪o Fin outFeatures) (x : Fin inFeatures → K) :
  (m.sliceRows keep).forward x = m.forward x ∘ keep
  := by
  have same_input : (m.sliceRows keep).workX x = m.workX x := rfl
  rw [forward, forward, workWeight_sliceRows, same_input, sliceRows]
  funext r
  cases m.bias with
  | none => rfl
  | some bias => rfl

end LinearModule

/-- The vector with all channels set to zero that are not kept. -/
def maskChannels {kept hidden : ℕ} (keep : Fin kept ↪o Fin hidden) (h : Fin hidden → K) :
    Fin hidden → K :=
  fun c => if ∃ i, keep i = c then h c else 0

theorem maskChannels_keep {kept hidden : ℕ} (keep : Fin kept ↪o Fin hidden)
    (h : Fin hidden → K) (i : Fin kept) :
  maskChannels keep h (keep i) = h (keep i)
  := if_pos ⟨i, rfl⟩

theorem maskChannels_of_notMem {kept hidden : ℕ} (keep : Fin kept ↪o Fin hidden)
    (h : Fin hidden → K) {c : Fin hidden} (hc : c ∉ Set.range keep) :
  maskChannels keep h c = 0
  := if_neg hc

namespace LinearModule

variable {inFeatures outFeatures kept : ℕ} (m : LinearModule K inFeatures outFeatures)

/-- A channel that is zero stays zero when it is divided by its scale. -/
theorem workX_maskChannels (keep : Fin kept ↪o Fin inFeatures) (h : Fin inFeatures → K) :
  m.workX (maskChannels keep h) = maskChannels keep (m.workX h)
  := by
  rw [workX, workX]
  cases m.awqInputScale with
  | none => rfl
  | some scale =>
    funext c
    simp only [maskChannels, Pi.div_apply]
    rw [ite_div, zero_div]

/-- The sliced columns compute, from the kept channels, what all columns compute when the other
channels are zero. -/
theorem forward_sliceColumns (keep : Fin kept ↪o Fin inFeatures) (h : Fin inFeatures → K) :
  (m.sliceColumns keep).forward (h ∘ keep) = m.forward (maskChannels keep h)
  := by
  have same_bias : (m.sliceColumns keep).bias = m.bias := rfl
  rw [forward, forward, workWeight_sliceColumns, workX_sliceColumns, same_bias,
    workX_maskChannels]
  congr 1
  funext r
  simp only [mulVec, dotProduct, submatrix_apply, id, Function.comp_apply]
  apply Fintype.sum_of_injective keep keep.injective
  · intro c hc
    rw [maskChannels_of_notMem keep _ hc, mul_zero]
  · intro i
    rw [maskChannels_keep]

end LinearModule

/-! ### The pruned MLP -/

/-- The linear modules of an MLP. -/
structure Mlp (K : Type) (features hidden : ℕ) where
  gateProj : LinearModule K features hidden
  upProj : LinearModule K features hidden
  downProj : LinearModule K hidden features

namespace Mlp

variable {features hidden kept : ℕ} (mlp : Mlp K features hidden) (sigma : K → K)

/-- The hidden channels. -/
def hiddenChannels (x : Fin features → K) : Fin hidden → K :=
  fun c => sigma (mlp.gateProj.forward x c) * mlp.upProj.forward x c

/-- `forward`. -/
def forward (x : Fin features → K) : Fin features → K :=
  mlp.downProj.forward (mlp.hiddenChannels sigma x)

/-- The MLP with all hidden channels set to zero that are not kept. -/
def maskedForward (keep : Fin kept ↪o Fin hidden) (x : Fin features → K) : Fin features → K :=
  mlp.downProj.forward (maskChannels keep (mlp.hiddenChannels sigma x))

/-- What `_apply_mlp_pruning` does to the modules of a layer. -/
def prune (keep : Fin kept ↪o Fin hidden) : Mlp K features kept where
  gateProj := mlp.gateProj.sliceRows keep
  upProj := mlp.upProj.sliceRows keep
  downProj := mlp.downProj.sliceColumns keep

theorem hiddenChannels_prune (keep : Fin kept ↪o Fin hidden) (x : Fin features → K) :
  (mlp.prune keep).hiddenChannels sigma x = mlp.hiddenChannels sigma x ∘ keep
  := by
  funext i
  simp only [hiddenChannels, prune, LinearModule.forward_sliceRows, Function.comp_apply]

/-- Pruning hidden channels sets them to zero. -/
theorem forward_prune (keep : Fin kept ↪o Fin hidden) (x : Fin features → K) :
  (mlp.prune keep).forward sigma x = mlp.maskedForward sigma keep x
  := by
  rw [forward, hiddenChannels_prune, maskedForward]
  apply LinearModule.forward_sliceColumns

end Mlp

end Kv260
