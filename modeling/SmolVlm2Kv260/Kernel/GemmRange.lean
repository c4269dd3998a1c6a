import SmolVlm2Kv260.Kernel.PackedMac
import Mathlib.Data.List.GetD
import Mathlib.Tactic.Linarith

/-!
# The range of the matrix multiplication

`w4a8_gemm` keeps its partial sums and its results in `INT32`s.  To tell their range from what
the packed multiplication loses, the kernel is taken over any multiplication of a pair of
weights by an activation; `pack_mul_2int8` gives the kernel of the source, and `exactMul` one
whose products are those of the integers.

Weights of exported nibbles lie between `-64` and `55`.  The partial sums of up to 2560 of their
products with `INT8` activations fit, and so do the results up to 2048 products.  From 2080 on
there are operands for which the multiplication by the token scale wraps.
-/

set_option autoImplicit false

namespace Kv260

open Proc Blocks

/-! ### The kernel over any multiplication -/

section Multiplication

variable (mul : ℤ → ℤ → ℤ → ℤ × ℤ)

/-- `w4a8_mac_unit`, with `mul` in place of `pack_mul_2int8`. -/
def w4a8MacUnitWith (act wgt : ℕ → ℕ → ℤ) (psum : ℕ → ℕ → ℤ) (m n : ℕ) : ℤ :=
  (List.range kUnroll).foldl (fun acc k =>
    let r := mul (wgt (n / 2 * 2) k) (wgt (n / 2 * 2 + 1) k) (act m k)
    apInt 32 (acc + if n % 2 = 0 then r.1 else r.2)) (psum m n)

/-- The partial sums of a tile. -/
def gemmTileWith (P : WeightPorts) (actBuf : List (List ℤ)) (kGrps nBase nLen mt mLen : ℕ)
    (uninit : ℕ → TileRegisters) : ℕ → ℕ → ℤ :=
  (List.range kGrps).foldl (fun psum kg =>
    let wgtDq := fun n k => if n < nLen then P.weight kGrps kg (nBase + n) k
      else (uninit kg).wgtDq n k
    let actTile := fun m k => if m < mLen then entry actBuf (mt + m) (kg * grp + k)
      else (uninit kg).actTile m k
    w4a8MacUnitWith mul actTile wgtDq psum) fun _ _ => 0

/-- The tile loops of `w4a8_gemm`. -/
def gemmTilesWith {ι : Type} (outS : ι) (P : WeightPorts) (M K N : ℕ)
    (uninit : ℕ → ℕ → ℕ → TileRegisters) (actBuf : List (List ℤ)) (tokScales : List ℤ) :
    Proc ι ℤ Unit :=
  forEach (tileCount tileN N) fun nt =>
    forEach (tileCount tileM M) fun i =>
      let nLen := tileLen tileN N nt
      let mLen := tileLen tileM M i
      let psum := gemmTileWith mul P actBuf (K / grp) (nt * tileN) nLen (i * tileM) mLen
        (uninit nt i)
      forEach mLen fun m =>
        forEach nLen fun n =>
          send outS (apInt 32 (psum m n * tokScales.getD (i * tileM + m) 0))

/-- `w4a8_gemm`, with `mul` in place of `pack_mul_2int8`. -/
def w4a8GemmWith {ι : Type} (actS actScaleS outS : ι) (P : WeightPorts) (M K N : ℕ)
    (uninit : ℕ → ℕ → ℕ → TileRegisters) : Proc ι ℤ Unit := do
  let actBuf ← readRows actS K M
  let tokScales ← readVec actScaleS M
  gemmTilesWith mul outS P M K N uninit actBuf tokScales

end Multiplication

/-- With the packed multiplication it is the kernel of the source. -/
theorem w4a8GemmWith_packMul2Int8 {ι : Type} (actS actScaleS outS : ι) (P : WeightPorts)
    (M K N : ℕ) (uninit : ℕ → ℕ → ℕ → TileRegisters) :
  w4a8GemmWith packMul2Int8 actS actScaleS outS P M K N uninit
    = w4a8Gemm actS actScaleS outS P M K N uninit
  := rfl

/-- The products of the integers. -/
def exactMul (wLo wHi act : ℤ) : ℤ × ℤ := (wLo * act, wHi * act)

/-- With exact products, a K-group adds its products to a partial sum. -/
theorem w4a8MacUnitWith_exactMul (act wgt psum : ℕ → ℕ → ℤ) (m n : ℕ) :
  w4a8MacUnitWith exactMul act wgt psum m n
    = (List.range kUnroll).foldl (fun acc k => apInt 32 (acc + wgt n k * act m k)) (psum m n)
  := by
  apply List.foldl_ext
  intro acc k _
  rcases Nat.mod_two_eq_zero_or_one n with h | h
  · simp only [exactMul, if_pos h, Nat.div_mul_cancel (Nat.dvd_of_mod_eq_zero h)]
  · have hself : n / 2 * 2 + 1 = n := by omega
    simp only [exactMul, h, one_ne_zero, if_false, hself]

/-! ### Dot products -/

namespace GemmOperands

variable {M K : ℕ} (op : GemmOperands M K)

/-- The weight that column `n` multiplies the `k`-th activation of a row by. -/
def columnWeight (n k : ℕ) : ℤ := op.ports.weight (K / grp) (k / grp) n (k % grp)

/-- The sum of the first `len` products of row `t` and column `n`. -/
def dotPrefix (t n len : ℕ) : ℤ :=
  ∑ k ∈ Finset.range len, op.columnWeight n k * entry op.acts t k

/-- The dot product of row `t` and column `n`. -/
def dot (t n : ℕ) : ℤ := op.dotPrefix t n K

/-- The result for row `t` and column `n`, in the unbounded integers. -/
def scaledDot (t n : ℕ) : ℤ := op.dot t n * op.scales.getD t 0

/-- The weights of a group. -/
theorem columnWeight_group (n kg : ℕ) {k : ℕ} (hk : k < kUnroll) :
  op.columnWeight n (kg * kUnroll + k) = op.ports.weight (K / grp) kg n k
  := by
  have hdiv : (kg * kUnroll + k) / grp = kg := Blocks.mul_add_div_of_lt hk
  have hmod : (kg * kUnroll + k) % grp = k := Nat.mul_add_mod_of_lt hk
  rw [columnWeight, hdiv, hmod]

/-- The products of the groups, one after the other, in a register that wraps. -/
theorem foldl_groups (hK : grp ∣ K) (f : ℕ → ℤ) :
  (List.range (K / grp)).foldl (fun acc kg =>
      (List.range kUnroll).foldl (fun acc k => apInt 32 (acc + f (kg * kUnroll + k))) acc) 0
    = apInt 32 (∑ k ∈ Finset.range K, f k)
  := by
  have hlen : K / grp * kUnroll = K := Nat.div_mul_cancel hK
  rw [foldl_range_mul (K / grp) kUnroll fun acc k => apInt 32 (acc + f k), hlen]
  apply foldl_apInt_add 31

/-- With exact products, a partial sum of a tile is a dot product in an `INT32`. -/
theorem gemmTileWith_exactMul (hK : grp ∣ K) {nBase nLen mt mLen : ℕ}
    (uninit : ℕ → TileRegisters) {m n : ℕ} (hm : m < mLen) (hn : n < nLen) :
  gemmTileWith exactMul op.ports op.acts (K / grp) nBase nLen mt mLen uninit m n
    = apInt 32 (op.dot (mt + m) (nBase + n))
  := by
  rw [dot, dotPrefix, ← foldl_groups hK]
  unfold gemmTileWith
  apply foldl_apply₂
  intro psum kg
  rw [w4a8MacUnitWith_exactMul]
  apply List.foldl_ext
  intro acc k hk
  rw [op.columnWeight_group _ _ (List.mem_range.mp hk), if_pos hm, if_pos hn]

/-- The packed multiplication gives the products of the integers. -/
def ProductsExact (N : ℕ) : Prop :=
  ∀ t < M, ∀ n < N, ∀ k < K,
    columnProduct op.columnWeight n k (entry op.acts t k)
      = op.columnWeight n k * entry op.acts t k

/-- Then the accumulators of the kernel are dot products in an `INT32`. -/
theorem psum_of_productsExact (hK : grp ∣ K) {N : ℕ} (h : op.ProductsExact N) {t n : ℕ}
    (ht : t < M) (hn : n < N) :
  op.psum t n = apInt 32 (op.dot t n)
  := by
  rw [dot, dotPrefix, ← foldl_groups hK, psum]
  apply List.foldl_ext
  intro acc kg hkg
  rw [addGroup]
  apply List.foldl_ext
  intro acc k hk
  have hlt : kg * kUnroll + k < K := by
    have hgroup : (kg + 1) * grp ≤ K / grp * grp :=
      Nat.mul_le_mul_right grp (List.mem_range.mp hkg)
    have hk' : k < 32 := List.mem_range.mp hk
    rw [Nat.div_mul_cancel hK] at hgroup
    change (kg + 1) * 32 ≤ K at hgroup
    change kg * 32 + k < K
    omega
  have hproduct := h t ht n hn _ hlt
  simp only [columnProduct, op.columnWeight_group _ _ (List.mem_range.mp hk)] at hproduct ⊢
  rw [hproduct]

end GemmOperands

/-! ### What is written -/

/-- The rows and columns of the results, in the order in which they are written. -/
def resultPositions (M N : ℕ) : List (ℕ × ℕ) :=
  (List.range (tileCount tileN N)).flatMap fun nt =>
    (List.range M).flatMap fun t =>
      (List.range (tileLen tileN N nt)).map fun n => (t, nt * tileN + n)

/-- Every row and every column is written. -/
theorem mem_resultPositions {M N t n : ℕ} :
  (t, n) ∈ resultPositions M N ↔ t < M ∧ n < N
  := by
  rw [lt_iff_exists_tile tileN_pos (n := N)]
  simp only [resultPositions, List.mem_flatMap, List.mem_map, List.mem_range, Prod.mk.injEq]
  constructor
  · rintro ⟨nt, hnt, t, ht, j, hj, rfl, rfl⟩
    exact ⟨ht, nt, hnt, j, hj, rfl⟩
  · rintro ⟨ht, nt, hnt, j, hj, rfl⟩
    exact ⟨nt, hnt, t, ht, j, hj, rfl, rfl⟩

theorem apInt_apInt_mul (w : ℕ) (x y : ℤ) :
  apInt w (apInt w x * y) = apInt w (x * y)
  := by
  have hwrap : 2 ^ w ∣ apInt w x - x := by
    rw [← apInt_eq_apInt_iff]
    have h := apInt_apInt_add w x 0
    rwa [add_zero, add_zero] at h
  rw [apInt_eq_apInt_iff, ← sub_mul]
  apply Dvd.dvd.mul_right hwrap

namespace GemmOperands

variable {M K : ℕ} (op : GemmOperands M K)

theorem emits_gemmTilesWith_exactMul (hK : grp ∣ K) {ι : Type} [DecidableEq ι] (outS : ι) (N : ℕ)
    (uninit : ℕ → ℕ → ℕ → TileRegisters) :
  Emits (gemmTilesWith exactMul outS op.ports M K N uninit op.acts op.scales) outS
    ((resultPositions M N).map fun p => apInt 32 (op.scaledDot p.1 p.2))
  := by
  simp only [resultPositions, List.map_flatMap, List.map_map, Function.comp_def]
  apply emits_forEach
  intro nt _
  rw [← flatMap_tiles tileM_pos M]
  apply emits_forEach
  intro i _
  apply emits_forEach
  intro m hm
  rw [List.map_eq_flatMap]
  apply emits_forEach
  intro n hn
  rw [op.gemmTileWith_exactMul hK _ hm hn, apInt_apInt_mul]
  apply emits_send

theorem run_w4a8GemmWith_exactMul (hK : grp ∣ K) (N : ℕ) (uninit : ℕ → ℕ → ℕ → TileRegisters) :
  ∃ τ, (w4a8GemmWith exactMul .act .actScale .out op.ports M K N uninit).run op.store
      = some ((), τ)
    ∧ τ .out = (resultPositions M N).map fun p => apInt 32 (op.scaledDot p.1 p.2)
  := by
  have hact : op.store .act = op.acts.flatten ++ [] := (List.append_nil _).symm
  have hrows := run_readRows op.length_acts op.length_row hact
  have hscale : Function.update op.store .act [] .actScale = op.scales ++ [] := by
    rw [Function.update_of_ne (by decide), List.append_nil]
    rfl
  have hvec := run_readVec op.length_scales hscale
  rw [w4a8GemmWith, run_bind_of_run hrows, run_bind_of_run hvec,
    op.emits_gemmTilesWith_exactMul hK]
  refine ⟨_, rfl, ?_⟩
  rw [Function.update_self]
  rfl

/-- With exact products, no partial sum wraps and the values written are the dot products times
the scale of their token. -/
structure WritesExactly (N : ℕ) : Prop where
  psum_fits : ∀ t < M, ∀ n < N, ∀ len ≤ K, IsApInt 32 (op.dotPrefix t n len)
  written : ∀ uninit, ∃ τ,
    (w4a8GemmWith exactMul .act .actScale .out op.ports M K N uninit).run op.store = some ((), τ)
      ∧ τ .out = (resultPositions M N).map fun p => op.scaledDot p.1 p.2

/-- What is written is exact when every result fits. -/
theorem written_iff (hK : grp ∣ K) (N : ℕ) (uninit : ℕ → ℕ → ℕ → TileRegisters) :
  (∃ τ, (w4a8GemmWith exactMul .act .actScale .out op.ports M K N uninit).run op.store
        = some ((), τ)
      ∧ τ .out = (resultPositions M N).map fun p => op.scaledDot p.1 p.2)
    ↔ ∀ t < M, ∀ n < N, IsApInt 32 (op.scaledDot t n)
  := by
  obtain ⟨τ, hτ, hout⟩ := op.run_w4a8GemmWith_exactMul hK N uninit
  constructor
  · rintro ⟨τ', hτ', hout'⟩ t ht n hn
    obtain rfl : τ = τ' := congrArg Prod.snd (Option.some.inj (hτ.symm.trans hτ'))
    rw [hout] at hout'
    apply List.map_inj_left.mp hout' (t, n) (mem_resultPositions.mpr ⟨ht, hn⟩)
  · intro h
    use τ, hτ
    rw [hout]
    apply List.map_congr_left
    rintro ⟨t, n⟩ hp
    obtain ⟨ht, hn⟩ := mem_resultPositions.mp hp
    apply h t ht n hn

/-- Where the packed products are exact, the kernel writes the dot products times the scale of
their token in an `INT32`. -/
theorem elem_of_productsExact (hK : grp ∣ K) {N : ℕ} (h : op.ProductsExact N) {t n : ℕ}
    (ht : t < M) (hn : n < N) :
  op.elem t n = apInt 32 (op.scaledDot t n)
  := by
  rw [elem, op.psum_of_productsExact hK h ht hn, apInt_apInt_mul, scaledDot]

/-! ### Exported operands -/

/-- Weights with zero point 8 and scales that are not negative, and positive token scales. -/
structure Exported (N : ℕ) : Prop where
  zero_point : ∀ n < N, ∀ kg < K / grp, (op.ports.fetchMeta (K / grp) n kg).2.toInt = 8
  scale_nonneg : ∀ n < N, ∀ kg < K / grp, 0 ≤ (op.ports.fetchMeta (K / grp) n kg).1.toInt
  tok_scale_pos : ∀ s ∈ op.scales, 1 ≤ s

end GemmOperands

/-- A weight with zero point 8. -/
theorem dequantW4Group_bounds (wgtPack : WgtPack) {scale : ℤ} (h : 0 ≤ scale) (h' : scale ≤ 127)
    (i : ℕ) :
  -64 ≤ dequantW4Group wgtPack scale 8 i ∧ dequantW4Group wgtPack scale 8 i ≤ 55
  := by
  have hnib := (wgtPack.extractLsb' (i * 4) 4).isLt
  rw [dequantW4Group, Int.shiftRight_eq_div_pow]
  generalize (wgtPack.extractLsb' (i * 4) 4).toNat = nib at hnib ⊢
  rw [apInt_of_mem (w := 9) (by decide) (by omega) (by omega)]
  have hlow : -8 * 127 ≤ ((nib : ℤ) - 8) * scale := by nlinarith
  have hhigh : ((nib : ℤ) - 8) * scale ≤ 7 * 127 := by nlinarith
  rw [apInt_of_mem (by decide) (by omega) (by omega)]
  omega

/-- The product of such a weight with an activation. -/
theorem abs_product_le {w a : ℤ} (hw : -64 ≤ w ∧ w ≤ 55) (ha : IsApInt 8 a) :
  |w * a| ≤ 8192
  := by
  obtain ⟨ha, ha'⟩ := (isApInt_iff (by decide)).mp ha
  have hweight : |w| ≤ 64 := abs_le.mpr (by omega)
  have hact : |a| ≤ 128 := abs_le.mpr (by omega)
  rw [abs_mul]
  apply mul_le_mul hweight hact (abs_nonneg a) (by decide)

namespace GemmOperands

variable {M K : ℕ} (op : GemmOperands M K)

/-- The rows of the buffer are `INT8`s, also beyond their ends. -/
theorem isApInt_entry (t c : ℕ) :
  IsApInt 8 (entry op.acts t c)
  := by
  have hrow : ∀ x ∈ op.acts.getD t [], IsApInt 8 x :=
    Blocks.forall_getD op.int8_acts (fun _ => List.not_mem_nil.elim) t
  have hzero : IsApInt 8 0 := rfl
  apply Blocks.forall_getD hrow hzero

theorem tokScale_bounds {N : ℕ} (h : op.Exported N) {t : ℕ} (ht : t < M) :
  1 ≤ op.scales.getD t 0 ∧ op.scales.getD t 0 ≤ 127
  := by
  have hlt : t < op.scales.length := by rwa [op.length_scales]
  rw [List.getD_eq_getElem _ _ hlt]
  have hmem := List.getElem_mem hlt
  have hint8 := (isApInt_iff (by decide)).mp (op.int8_scales _ hmem)
  constructor
  · apply h.tok_scale_pos _ hmem
  · omega

theorem columnWeight_bounds (hK : grp ∣ K) {N : ℕ} (h : op.Exported N) {n k : ℕ} (hn : n < N)
    (hk : k < K) :
  -64 ≤ op.columnWeight n k ∧ op.columnWeight n k ≤ 55
  := by
  have hkg : k / grp < K / grp := Nat.div_lt_div_of_lt_of_dvd hK hk
  have hlt := (op.ports.fetchMeta (K / grp) n (k / grp)).1.toInt_lt
  rw [columnWeight, WeightPorts.weight, h.zero_point n hn _ hkg]
  apply dequantW4Group_bounds _ (h.scale_nonneg n hn _ hkg)
  omega

theorem abs_dotPrefix_le (hK : grp ∣ K) {N : ℕ} (h : op.Exported N) (t : ℕ) {n len : ℕ}
    (hn : n < N) (hlen : len ≤ K) :
  |op.dotPrefix t n len| ≤ 8192 * len
  := by
  calc |op.dotPrefix t n len|
      ≤ ∑ k ∈ Finset.range len, |op.columnWeight n k * entry op.acts t k| :=
        Finset.abs_sum_le_sum_abs _ _
    _ ≤ ∑ k ∈ Finset.range len, 8192 := by
        apply Finset.sum_le_sum
        intro k hk
        have hlt : k < K := lt_of_lt_of_le (Finset.mem_range.mp hk) hlen
        apply abs_product_le (op.columnWeight_bounds hK h hn hlt) (op.isApInt_entry t k)
    _ = 8192 * len := by
        rw [Finset.sum_const, Finset.card_range, nsmul_eq_mul, mul_comm]

/-- The partial sums fit for every `K` of the decoder. -/
theorem psum_fits_of_exported (hK : grp ∣ K ∧ K ≤ maxDecGemmK) {N : ℕ} (h : op.Exported N)
    (t : ℕ) {n len : ℕ} (hn : n < N) (hlen : len ≤ K) :
  IsApInt 32 (op.dotPrefix t n len)
  := by
  have hbound := abs_le.mp (op.abs_dotPrefix_le hK.1 h t hn hlen)
  have hmax : len ≤ 2560 := le_trans hlen hK.2
  rw [isApInt_iff (by decide)]
  omega

theorem writesExactly_iff (hK : grp ∣ K ∧ K ≤ maxDecGemmK) {N : ℕ} (h : op.Exported N) :
  op.WritesExactly N ↔ ∀ t < M, ∀ n < N, IsApInt 32 (op.scaledDot t n)
  := by
  constructor
  · intro hw
    rw [← op.written_iff hK.1 N fun _ _ _ => ⟨fun _ _ => 0, fun _ _ => 0⟩]
    apply hw.written
  · intro hfits
    constructor
    · intro t _ n hn len hlen
      apply op.psum_fits_of_exported hK h t hn hlen
    · intro uninit
      apply (op.written_iff hK.1 N uninit).mpr hfits

/-- Up to 2048 products, the results fit. -/
theorem scaledDot_fits (hK : grp ∣ K) (hle : K ≤ 2048) {N : ℕ} (h : op.Exported N) {t n : ℕ}
    (ht : t < M) (hn : n < N) :
  IsApInt 32 (op.scaledDot t n)
  := by
  obtain ⟨hs, hs'⟩ := op.tokScale_bounds h ht
  have hdot := op.abs_dotPrefix_le hK h t hn (le_refl K)
  have hprod : |op.scaledDot t n| ≤ 8192 * 2048 * 127 := by
    rw [scaledDot, abs_mul]
    apply mul_le_mul (by rw [dot]; omega) _ (abs_nonneg _) (by decide)
    apply abs_le.mpr
    omega
  have hbound := abs_le.mp hprod
  rw [isApInt_iff (by decide)]
  omega

end GemmOperands

/-! ### The largest operands -/

/-- The bytes of the metadata: scale 127 and zero point 8. -/
def maxMetaByte (i : ℕ) : BitVec 8 := if i % 2 = 0 then 127 else 8

/-- All activations are `-128` and all scales 127.  The weights of the odd columns are `-64`; the
even columns have the nibbles of a given word. -/
def maxOperands (M K : ℕ) (even : AXI256) : GemmOperands M K where
  acts := List.replicate M (List.replicate K (-128))
  scales := List.replicate M 127
  ports := ⟨fun _ => even, fun _ => 0, axiWord maxMetaByte, axiWord maxMetaByte⟩
  length_acts := List.length_replicate
  length_row := by
    intro r hr
    rw [List.eq_of_mem_replicate hr, List.length_replicate]
  length_scales := List.length_replicate
  int8_acts := by
    intro r hr a ha
    rw [List.eq_of_mem_replicate hr] at ha
    rw [List.eq_of_mem_replicate ha]
    decide
  int8_scales := by
    intro s hs
    rw [List.eq_of_mem_replicate hs]
    decide

/-- The nibbles of weights that are zero. -/
def zeroNibbles : AXI256 :=
  0x8888888888888888888888888888888888888888888888888888888888888888

namespace GemmOperands

variable (M K : ℕ) (even : AXI256)

theorem fetchMeta_maxOperands (kGrps gn kg : ℕ) :
  (maxOperands M K even).ports.fetchMeta kGrps gn kg = (127, 8)
  := by
  have hscale : ∀ i metaOff : ℕ,
      (axiWord maxMetaByte i).extractLsb' (metaOff % 16 * 16) 8 = 127 := by
    intro i metaOff
    have hbyte : metaOff % 16 * 16 = metaOff % 16 * 2 * 8 := by omega
    rw [hbyte, extractLsb'_axiWord _ _ (by omega), maxMetaByte, if_pos (by omega)]
  have hzero : ∀ i metaOff : ℕ,
      (axiWord maxMetaByte i).extractLsb' (metaOff % 16 * 16 + 8) 8 = 8 := by
    intro i metaOff
    have hbyte : metaOff % 16 * 16 + 8 = (metaOff % 16 * 2 + 1) * 8 := by omega
    rw [hbyte, extractLsb'_axiWord _ _ (by omega), maxMetaByte, if_neg (by omega)]
  simp only [WeightPorts.fetchMeta, maxOperands, ite_self, hscale, hzero]

/-- The weights of the columns whose nibbles are zero. -/
theorem columnWeight_maxOperands {even : AXI256} {n : ℕ} (hn : n % 2 = 1 ∨ even = 0) (k : ℕ) :
  (maxOperands M K even).columnWeight n k = -64
  := by
  have hpack : (maxOperands M K even).ports.fetchPack (K / grp) n (k / grp) = 0 := by
    rcases hn with hodd | rfl
    · simp only [WeightPorts.fetchPack, maxOperands, hodd, one_ne_zero, if_false]
      split <;> rfl
    · simp only [WeightPorts.fetchPack, maxOperands, ite_self]
      split <;> rfl
  have hnib : ((0 : WgtPack).extractLsb' (k % grp * 4) 4).toNat = 0 := by simp
  rw [columnWeight, WeightPorts.weight, fetchMeta_maxOperands, hpack, dequantW4Group, hnib]
  decide

/-- The weights of the even columns whose nibbles are the zero point. -/
theorem columnWeight_zeroNibbles {n : ℕ} (hn : n % 2 = 0) (k : ℕ) :
  (maxOperands M K zeroNibbles).columnWeight n k = 0
  := by
  have hweight : ∀ i < grp, dequantW4Group (zeroNibbles.extractLsb' 0 128) 127 8 i = 0
      ∧ dequantW4Group (zeroNibbles.extractLsb' 128 128) 127 8 i = 0 := by
    decide
  have hlt : k % grp < grp := Nat.mod_lt _ (by decide)
  rw [columnWeight, WeightPorts.weight, fetchMeta_maxOperands, WeightPorts.fetchPack]
  simp only [if_pos hn]
  split
  · apply (hweight _ hlt).1
  · apply (hweight _ hlt).2

theorem exported_maxOperands (N : ℕ) :
  (maxOperands M K even).Exported N
  := by
  constructor
  · intro n _ kg _
    rw [fetchMeta_maxOperands]
    rfl
  · intro n _ kg _
    rw [fetchMeta_maxOperands]
    decide
  · intro s hs
    rw [List.eq_of_mem_replicate hs]
    decide

theorem entry_maxOperands {t k : ℕ} (ht : t < M) (hk : k < K) :
  entry (maxOperands M K even).acts t k = -128
  := by
  rw [entry, maxOperands, List.getD_replicate _ ht, List.getD_replicate _ hk]

theorem scaledDot_maxOperands {even : AXI256} {t n : ℕ} (ht : t < M)
    (hn : n % 2 = 1 ∨ even = 0) :
  (maxOperands M K even).scaledDot t n = 8192 * 127 * K
  := by
  have hdot : (maxOperands M K even).dot t n = ∑ _k ∈ Finset.range K, (-64) * (-128) := by
    rw [dot, dotPrefix]
    apply Finset.sum_congr rfl
    intro k hk
    rw [columnWeight_maxOperands M K hn, entry_maxOperands M K even ht (Finset.mem_range.mp hk)]
  have hscale : (maxOperands M K even).scales.getD t 0 = 127 := List.getD_replicate _ ht
  rw [scaledDot, hdot, hscale, Finset.sum_const, Finset.card_range, nsmul_eq_mul]
  omega

/-- Beside columns of zeros, the packed multiplication by the largest weights is exact. -/
theorem productsExact_maxOperands (N : ℕ) :
  (maxOperands M K zeroNibbles).ProductsExact N
  := by
  intro t ht n _ k hk
  rw [columnProduct, entry_maxOperands M K _ ht hk]
  split_ifs with hn
  · rw [columnWeight_zeroNibbles M K hn]
    decide
  · have hodd : n % 2 = 1 := by omega
    rw [columnWeight_maxOperands M K (.inl hodd), columnWeight_zeroNibbles M K (by omega)]
    decide

/-- For every operand of a shape, the results are exact exactly when no result of theirs leaves
the `INT32`s; no operand with exported weights reaches that far exactly when there is nothing to
write or there are at most 2048 products to sum. -/
theorem gemmWritesExactly_iff (M K N : ℕ) (hK : grp ∣ K ∧ K ≤ maxDecGemmK) :
  ((∀ op : GemmOperands M K, op.Exported N → op.WritesExactly N)
      ↔ M = 0 ∨ N = 0 ∨ K ≤ 2048)
    ∧ ∀ op : GemmOperands M K, op.Exported N →
      (op.WritesExactly N ↔ ∀ t < M, ∀ n < N, IsApInt 32 (op.scaledDot t n))
  := by
  refine ⟨?_, fun op h => op.writesExactly_iff hK h⟩
  constructor
  · intro hall
    by_contra hnot
    simp only [not_or, not_le] at hnot
    obtain ⟨hM, hN, hlt⟩ := hnot
    have hmax := hall _ (exported_maxOperands M K 0 N)
    rw [writesExactly_iff _ hK (exported_maxOperands M K 0 N)] at hmax
    have hfits := hmax 0 (Nat.pos_of_ne_zero hM) 0 (Nat.pos_of_ne_zero hN)
    rw [scaledDot_maxOperands M K (Nat.pos_of_ne_zero hM) (.inr rfl), isApInt_iff (by decide)]
      at hfits
    obtain ⟨q, rfl⟩ := hK.1
    change 2048 < 32 * q at hlt
    change _ ∧ 8192 * 127 * ((32 * q : ℕ) : ℤ) < _ at hfits
    omega
  · intro hcond op h
    rw [op.writesExactly_iff hK h]
    intro t ht n hn
    rcases hcond with rfl | rfl | hle
    · cases ht
    · cases hn
    · apply op.scaledDot_fits hK.1 hle h ht hn

/-- The sums of the QKV projection. -/
theorem gemmWritesExactly_qkv :
  ((∀ op : GemmOperands maxL C, op.Exported nQkv → op.WritesExactly nQkv)
      ↔ maxL = 0 ∨ nQkv = 0 ∨ C ≤ 2048)
    ∧ ∀ op : GemmOperands maxL C, op.Exported nQkv →
      (op.WritesExactly nQkv ↔ ∀ t < maxL, ∀ n < nQkv, IsApInt 32 (op.scaledDot t n))
  := gemmWritesExactly_iff maxL C nQkv (by decide)

/-- A single token of the down projection, with zeros in the even columns and the largest
operands in the odd ones.  The packed products are exact, and `w4a8_gemm` writes a negative number
for the second column. -/
theorem not_writesExactly_down :
  (maxOperands 1 ffnDim zeroNibbles).Exported C
    ∧ (maxOperands 1 ffnDim zeroNibbles).ProductsExact C
    ∧ (maxOperands 1 ffnDim zeroNibbles).scaledDot 0 1 = 2663383040
    ∧ ¬ (maxOperands 1 ffnDim zeroNibbles).WritesExactly C
    ∧ ∀ uninit, ∃ τ,
      (w4a8Gemm .act .actScale .out (maxOperands 1 ffnDim zeroNibbles).ports 1 ffnDim C
          uninit).run (maxOperands 1 ffnDim zeroNibbles).store = some ((), τ)
        ∧ (τ .out)[1]? = some (-1631584256)
  := by
  have hexported := exported_maxOperands 1 ffnDim zeroNibbles C
  have hexact := productsExact_maxOperands 1 ffnDim C
  have hscaled : (maxOperands 1 ffnDim zeroNibbles).scaledDot 0 1 = 2663383040 := by
    rw [scaledDot_maxOperands 1 ffnDim (by decide) (.inl rfl)]
    rfl
  refine ⟨hexported, hexact, hscaled, ?_, ?_⟩
  · rw [writesExactly_iff _ (by decide) hexported]
    intro h
    have hfits := h 0 (by decide) 1 (by decide)
    rw [hscaled] at hfits
    revert hfits
    decide
  · intro uninit
    obtain ⟨τ, hτ, hout⟩ := run_outList (maxOperands 1 ffnDim zeroNibbles) C uninit
    use τ, hτ
    rw [hout, outList_of_one_row, getElem?_rowMajor _ (by decide)]
    change some ((maxOperands 1 ffnDim zeroNibbles).elem 0 1) = _
    rw [elem_of_productsExact _ (by decide) hexact (by decide) (by decide), hscaled]
    rfl

end GemmOperands

end Kv260
