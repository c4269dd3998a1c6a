import SmolVlm2Kv260.Dataflow.LayerFunction

/-!
# A launch without its attention

Every output of the attention is zero.  The O projection of zeros is zero, so the first
residual leaves the loaded rows as they are, and a launch computes the feed-forward part of
its layer alone: activations and logits do not depend on the KV cache, the positions, the
weights before the feed-forward part or `gamma_attn`.
-/

set_option autoImplicit false

namespace Kv260

open Proc Blocks Memory

/-! ### Multiplying zeros -/

theorem columnProduct_of_zero (wgt : ℕ → ℕ → ℤ) (n k : ℕ) :
  columnProduct wgt n k 0 = 0
  := by
  rw [columnProduct]
  split_ifs
  · rw [Int.mul_zero, Int.zero_emod]
  · rw [packMul2Int8, Int.mul_zero]
    decide

/-- A row of zeros gives zero in every column. -/
theorem GemmOperands.elem_of_zeros {M K : ℕ} (op : GemmOperands M K)
    (h : ∀ r ∈ op.acts, ∀ a ∈ r, a = 0) (t n : ℕ) :
  op.elem t n = 0
  := by
  have hentry : ∀ c, entry op.acts t c = 0 := by
    intro c
    have hrow : ∀ a ∈ op.acts.getD t [], a = 0 :=
      forall_getD (P := fun r => ∀ a ∈ r, a = 0) h (fun a ha => by cases ha) t
    exact forall_getD (P := fun a => a = 0) hrow rfl c
  have hpsum : op.psum t n = 0 := by
    apply List.foldl_fixed'
    intro kg
    apply List.foldl_fixed'
    intro k
    dsimp only
    rw [hentry, columnProduct_of_zero]
    rfl
  rw [elem, hpsum, Int.zero_mul]
  apply apInt_succ_zero

theorem quantCodes_of_zeros {row : List ℤ} (h : ∀ x ∈ row, x = 0) :
  ∀ a ∈ quantCodes row, a = 0
  := by
  intro a ha
  obtain ⟨x, hx, rfl⟩ := List.mem_map.mp ha
  rw [h x hx, Int.zero_tdiv]
  apply apInt_succ_zero

namespace DynamicQuantiser

variable {q : DynamicQuantiser} (hq : q.WellFormed) (P : WeightPorts) (n N : ℕ)

/-- Only the columns that the quantiser reads of the work tokens matter. -/
theorem product_congr {x y : ℕ → ℕ → ℤ} (h : ∀ t < n, ∀ c < q.inCols, x t c = y t c) :
  q.product hq P n N x = q.product hq P n N y
  := by
  have hrow : ∀ t ∈ List.range n, q.tokenRow x t = q.tokenRow y t := by
    intro t ht
    rw [tokenRow, tokenRow, List.map_congr_left]
    intro c hc
    apply h t (List.mem_range.mp ht) c (List.mem_range.mp hc)
  have hacts : (List.range n).map (fun t => quantCodes (q.tokenRow x t))
      = (List.range n).map fun t => quantCodes (q.tokenRow y t) :=
    List.map_congr_left fun t ht => by rw [hrow t ht]
  have hscales : (List.range n).map (fun t => tokScale (q.tokenRow x t))
      = (List.range n).map fun t => tokScale (q.tokenRow y t) :=
    List.map_congr_left fun t ht => by rw [hrow t ht]
  simp only [product, operands, hacts, hscales]

/-- The products are those of an `INT32` stream. -/
theorem product_isApInt (x : ℕ → ℕ → ℤ) (t c : ℕ) :
  IsApInt 32 (q.product hq P n N x t c)
  := by
  apply forall_getD (P := IsApInt 32) _ (by decide)
  simp only [GemmOperands.outList, List.mem_flatMap, List.mem_map]
  rintro _ ⟨_, _, _, _, _, _, rfl⟩
  apply isApInt_apInt (by decide)

/-- Rows that are quantised from zeros give zeros. -/
theorem product_of_zeros {x : ℕ → ℕ → ℤ} (h : ∀ t, ∀ v ∈ q.tokenRow x t, v = 0) (t c : ℕ) :
  q.product hq P n N x t c = 0
  := by
  have hacts : ∀ r ∈ (q.operands hq P n x).acts, ∀ a ∈ r, a = 0 := by
    intro r hr
    obtain ⟨t, -, rfl⟩ := List.mem_map.mp hr
    apply quantCodes_of_zeros (h t)
  apply forall_getD (P := fun v => v = 0) _ rfl
  simp only [GemmOperands.outList, List.mem_flatMap, List.mem_map]
  rintro _ ⟨_, _, _, _, _, _, rfl⟩
  apply GemmOperands.elem_of_zeros _ hacts

end DynamicQuantiser

/-! ### The feed-forward part -/

/-- What the feed-forward part adds to the rows `x`, with the weights of its layer. -/
def ffnDelta (W : WeightPorts) (gammaFfn : ℕ → AXI256) (n : ℕ) (x : ℕ → ℕ → ℤ) : ℕ → ℕ → ℤ :=
  DynamicQuantiser.silu.product DynamicQuantiser.wellFormed_silu (W.advance LayerMatrix.down.wgtBase
    LayerMatrix.down.metaBase) n C
    ((DynamicQuantiser.rmsnorm (loadGamma gammaFfn)).product (DynamicQuantiser.wellFormed_rmsnorm _)
      (W.advance LayerMatrix.gateUp.wgtBase LayerMatrix.gateUp.metaBase) n nFfnGateup x)

/-- The rows after the feed-forward part and its residual. -/
def ffnRows (W : WeightPorts) (gammaFfn : ℕ → AXI256) (n : ℕ) (x : ℕ → ℕ → ℤ) (t c : ℕ) : ℤ :=
  apInt 32 (x t c + ffnDelta W gammaFfn n x t c)

/-- The columns of the rows are those of the `n` tokens. -/
theorem ffnDelta_congr (W : WeightPorts) (gammaFfn : ℕ → AXI256) {n : ℕ} {x y : ℕ → ℕ → ℤ}
    (h : ∀ t < n, ∀ c < C, x t c = y t c) :
  ffnDelta W gammaFfn n x = ffnDelta W gammaFfn n y
  := by
  apply congrArg (DynamicQuantiser.silu.product DynamicQuantiser.wellFormed_silu _ n C)
  apply DynamicQuantiser.product_congr (q := .rmsnorm (loadGamma gammaFfn)) _ _ _ _ h

theorem actValue_isApInt (src : ℕ → AXI256) (r c : ℕ) :
  IsApInt 32 (actValue src r c)
  := by
  have hlo := BitVec.le_toInt ((src ((r * C + c / 32 * 32) / 32)).extractLsb' (c % 32 * 8) 8)
  have hhi := BitVec.toInt_lt (x := (src ((r * C + c / 32 * 32) / 32)).extractLsb' (c % 32 * 8) 8)
  apply (isApInt_iff (by decide)).mpr
  rw [actValue, Int.shiftLeft_eq]
  constructor <;> omega

namespace Launch

variable (l : Launch) (P : DecoderPorts)

/-- Every value of the attention is zero. -/
theorem attnRows_eq_zero (kv : KvState) (qkv : ℕ → ℕ → ℤ) (t c : ℕ) :
  l.attnRows kv qkv t c = 0
  := by
  apply forall_getD (P := fun v => v = 0) _ rfl
  simp only [attentionOut, headOutputs, List.mem_flatMap, List.mem_map, flashRow_eq_zero]
  rintro _ ⟨_, _, _, _, _, _, rfl⟩
  rfl

theorem oprojRows_attnRows (kv : KvState) (qkv : ℕ → ℕ → ℤ) (t c : ℕ) :
  l.oprojRows P (l.attnRows kv qkv) t c = 0
  := by
  apply DynamicQuantiser.product_of_zeros
  intro t v hv
  obtain ⟨c, -, rfl⟩ := List.mem_map.mp hv
  apply l.attnRows_eq_zero

/-- The weights of the layer of a launch. -/
def layerWeights (W : WeightPorts) : WeightPorts := W.advance l.wgtOffset l.metaOffset

/-- The rows of the work tokens in the buffer that a launch loads. -/
def loaded (mem : DecoderMemory) (t c : ℕ) : ℤ := actValue (mem.act l.src) (l.workTokenOffset + t) c

/-- The second residual buffer after a launch. -/
def ffnResidual (mem : DecoderMemory) : ResBuf :=
  mem.resBuf1.mapRows l.workTokenOffset l.workTokenCount fun t c _ =>
    ffnRows (l.layerWeights P.weights) P.gammaFfn l.workTokenCount (l.loaded mem) t c

theorem ffnResidual_work (hfits : l.WorkFits) (mem : DecoderMemory) {t c : ℕ}
    (ht : t < l.workTokenCount) (hc : c < C) :
  l.ffnResidual P mem (l.workTokenOffset + t) c
    = ffnRows (l.layerWeights P.weights) P.gammaFfn l.workTokenCount (l.loaded mem) t c
  := by
  have hrow : l.workTokenOffset + t < maxL :=
    Nat.lt_of_lt_of_le (Nat.add_lt_add_left ht _) hfits
  rw [ffnResidual, Grid.mapRows, Grid.get_ofFn_of_lt _ hrow hc, if_pos (by omega),
    Nat.add_sub_cancel_left]

/-- The first residual leaves the loaded rows as they are. -/
theorem addWork_oproj (kv : KvState) (qkv : ℕ → ℕ → ℤ) (src : ℕ → AXI256) (resBuf : ResBuf) :
  l.addWork (loadAct src l.workTokenOffset l.workTokenCount resBuf)
      (l.oprojRows P (l.attnRows kv qkv))
    = loadAct src l.workTokenOffset l.workTokenCount resBuf
  := by
  apply Grid.ext_get
  intro r hr c hc
  rw [addWork, Grid.mapRows, Grid.get_ofFn_of_lt _ hr hc]
  split_ifs with h
  · rw [oprojRows_attnRows, Int.add_zero, loadAct, Grid.mapRows, Grid.get_ofFn_of_lt _ hr hc,
      if_pos h]
    apply actValue_isApInt
  · rfl

/-- The copied buffer has the loaded rows. -/
theorem copyRows_loaded (mem : DecoderMemory) :
  copyRows (loadAct (mem.act l.src) l.workTokenOffset l.workTokenCount mem.resBuf0) mem.resBuf1
      l.workTokenOffset l.workTokenCount
    = mem.resBuf1.mapRows l.workTokenOffset l.workTokenCount fun t c _ => l.loaded mem t c
  := by
  rw [copyRows_eq]
  apply Grid.ext_get
  intro r hr c hc
  rw [Grid.mapRows, Grid.mapRows, Grid.get_ofFn_of_lt _ hr hc, Grid.get_ofFn_of_lt _ hr hc]
  split_ifs with h
  · have hrow : l.workTokenOffset + (r - l.workTokenOffset) = r := by omega
    rw [hrow, loadAct, Grid.mapRows, Grid.get_ofFn_of_lt _ hr hc, if_pos h]
    rfl
  · rfl

/-- A launch computes the feed-forward part of its layer. -/
theorem layerFunction_resBuf1 (hfits : l.WorkFits) (mem : DecoderMemory) :
  (l.layerFunction P mem).resBuf1 = l.ffnResidual P mem
  := by
  have hwork : ∀ t < l.workTokenCount, ∀ c < C,
      l.work (mem.resBuf1.mapRows l.workTokenOffset l.workTokenCount fun t c _ => l.loaded mem t c)
        t c = l.loaded mem t c := by
    intro t ht c hc
    have hrow : l.workTokenOffset + t < maxL :=
      Nat.lt_of_lt_of_le (Nat.add_lt_add_left ht _) hfits
    rw [work, Grid.mapRows, Grid.get_ofFn_of_lt _ hrow hc, if_pos (by omega),
      Nat.add_sub_cancel_left]
  have hdelta : ∀ x, l.downRows P (l.gateupRows P x)
      = ffnDelta (l.layerWeights P.weights) P.gammaFfn l.workTokenCount x := fun _ => rfl
  dsimp only [layerFunction]
  rw [addWork_oproj, copyRows_loaded, hdelta, ffnDelta_congr _ _ hwork]
  apply Grid.ext_get
  intro r hr c hc
  rw [addWork, ffnResidual, Grid.mapRows, Grid.mapRows, Grid.get_ofFn_of_lt _ hr hc,
    Grid.get_ofFn_of_lt _ hr hc, Grid.mapRows, Grid.get_ofFn_of_lt _ hr hc]
  split_ifs
  · rfl
  · rfl

theorem layerFunction_act (hfits : l.WorkFits) (mem : DecoderMemory) :
  (l.layerFunction P mem).act = Function.update mem.act l.actOut
    (storeAct (l.ffnResidual P mem) l.workTokenOffset l.workTokenCount (mem.act l.actOut))
  := by
  rw [← layerFunction_resBuf1 l P hfits]
  rfl

theorem layerFunction_lmheadOut (hfits : l.WorkFits) (mem : DecoderMemory) :
  (l.layerFunction P mem).lmheadOut
    = if l.runLmhead ≠ 0 then
        writeLogits (P.logitsOf (l.ffnResidual P mem (l.seqLen - 1))) mem.lmheadOut
      else mem.lmheadOut
  := by
  rw [← layerFunction_resBuf1 l P hfits]
  rfl

/-- Both normalisations of a layer take the loaded rows, and quantise them with scales between 1
and 127.  A scale of zero is left for the products of gate and up and for the row of the
logits. -/
theorem quantisesSoundly_norm (gammaDdr : ℕ → AXI256) (mem : DecoderMemory) :
  (DynamicQuantiser.rmsnorm (loadGamma gammaDdr)).QuantisesSoundly
    ((List.range l.workTokenCount).map fun t => (List.range C).map (l.loaded mem t))
  := by
  have hrows := quantisesSoundly_loaded (.ofBuffer gammaDdr)
    ((List.range l.workTokenCount).map fun t => .ofBuffer (mem.act l.src) (l.workTokenOffset + t))
  simp only [List.map_map, Function.comp_def, GammaVector.vals_ofBuffer,
    LoadedToken.vals_ofBuffer] at hrows
  exact hrows

end Launch

end Kv260
