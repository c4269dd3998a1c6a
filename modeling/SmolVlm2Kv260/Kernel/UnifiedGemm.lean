import Mathlib.Algebra.BigOperators.Group.Finset.Basic
import SmolVlm2Kv260.Kernel.Gemm
import SmolVlm2Kv260.Memory.Cells

/-!
# The matrix multiplication of the vision kernels

`unified_gemm_w4a8_int8_in_int32_out` of `unified_w4a8_gemm.h` multiplies activations in DDR
by quantised weights in DDR.  It goes through tiles of four rows and sixty-four columns; the
rows and columns that a tile at the border lacks are zeros.  Its results are lanes of
32 bits, of which a word holds eight.

Buffers are functions from word indices, and the output buffer is none of the others.
Indices do not overflow the `int` of the source.
-/

set_option autoImplicit false

namespace Kv260

open Blocks Memory

/-! ### Lanes -/

/-- `axi_read_i8_linear`. -/
def axiReadI8Linear (base : ℕ → AXI256) (idx : ℕ) : ℤ :=
  ((base (idx / 32)).extractLsb' (idx % 32 * 8) 8).toInt

/-- `axi_read_i32_linear`. -/
def axiReadI32Linear (base : ℕ → AXI256) (idx : ℕ) : ℤ :=
  ((base (idx / 8)).extractLsb' (idx % 8 * 32) 32).toInt

/-- `axi_write_i32_linear`. -/
def axiWriteI32Linear (base : ℕ → AXI256) (idx : ℕ) (value : ℤ) : ℕ → AXI256 :=
  Function.update base (idx / 8)
    (setRange (base (idx / 8)) (idx % 8 * 32) (BitVec.ofInt 32 value))

/-- The lanes of 32 bits of a buffer. -/
def i32Lanes : Cells (ℕ → AXI256) ℕ (BitVec 32) where
  read base idx := (base (idx / 8)).extractLsb' (idx % 8 * 32) 32
  write base idx v := Function.update base (idx / 8)
    (setRange (base (idx / 8)) (idx % 8 * 32) v)
  read_write base i v j := by
    rcases eq_or_ne (j / 8) (i / 8) with hword | hword
    · rw [hword, Function.update_self]
      rcases eq_or_ne (j % 8) (i % 8) with hlane | hlane
      · have hji : j = i := by omega
        rw [hlane, extractLsb'_setRange _ _ (by omega), if_pos hji]
      · have hji : ¬ j = i := by
          rintro rfl
          apply hlane rfl
        rw [extractLsb'_setRange_of_disjoint _ _ (by omega) (by omega), if_neg hji]
    · have hji : ¬ j = i := by
        rintro rfl
        apply hword rfl
      rw [Function.update_of_ne hword, if_neg hji]

/-- A bit vector of 32 bits read as an `INT32`. -/
theorem toInt_ofInt_apInt (x : ℤ) :
  (BitVec.ofInt 32 x).toInt = apInt 32 x
  := by
  rw [BitVec.toInt_ofInt, Int.bmod_def, apInt]
  split <;> omega

/-! ### Sums in an accumulator -/

theorem apInt_apInt_add (w : ℕ) (x y : ℤ) :
  apInt w (apInt w x + y) = apInt w (x + y)
  := by
  have hcancel : (x + 2 ^ (w - 1)) % 2 ^ w - 2 ^ (w - 1) + y + 2 ^ (w - 1)
      = (x + 2 ^ (w - 1)) % 2 ^ w + y := by omega
  have hcomm : x + 2 ^ (w - 1) + y = x + y + 2 ^ (w - 1) := by omega
  simp only [apInt, hcancel, Int.emod_add_emod, hcomm]

/-- An accumulator that wraps at each addition holds the wrapped sum. -/
theorem foldl_apInt_add_from (w : ℕ) (f : ℕ → ℤ) (a : ℤ) (n : ℕ) :
  (List.range n).foldl (fun acc k => apInt w (acc + f k)) (apInt w a)
    = apInt w (a + ∑ k ∈ Finset.range n, f k)
  := by
  induction n with
  | zero => rw [Finset.sum_range_zero, add_zero]; rfl
  | succ n ih =>
      rw [List.range_succ, List.foldl_append, ih, Finset.sum_range_succ, ← add_assoc]
      apply apInt_apInt_add

theorem foldl_apInt_add (w : ℕ) (f : ℕ → ℤ) (n : ℕ) :
  (List.range n).foldl (fun acc k => apInt (w + 1) (acc + f k)) 0
    = apInt (w + 1) (∑ k ∈ Finset.range n, f k)
  := by
  have h := foldl_apInt_add_from (w + 1) f 0 n
  rw [apInt_succ_zero, zero_add] at h
  apply h

/-! ### The multiplication -/

/-- The pack of weights the kernel fetches at `wgtOff`. -/
def unifiedPack (wgt : ℕ → AXI256) (wgtOff : ℕ) : WgtPack :=
  let rawW := wgt (wgtOff / 2)
  if wgtOff % 2 = 0 then rawW.extractLsb' 0 128 else rawW.extractLsb' 128 128

/-- The scale and zero point the kernel fetches at `metaOff`, as bytes; the words of metadata
are `scales`. -/
def unifiedMeta (scales : ℕ → AXI256) (metaOff : ℕ) : BitVec 8 × BitVec 8 :=
  let rawM := scales (metaOff / 16)
  let metaShift := metaOff % 16 * 16
  (rawM.extractLsb' metaShift 8, rawM.extractLsb' (metaShift + 8) 8)

section Gemm

variable (act wgt scales : ℕ → AXI256) (M K N : ℕ)

/-- The weight in column `gn`, K-group `kg` and nibble `k`. -/
def unifiedWeight (kGrps gn kg k : ℕ) : ℤ :=
  let wgtOff := gn * kGrps + kg
  dequantW4Group (unifiedPack wgt wgtOff) (unifiedMeta scales wgtOff).1.toInt
    (unifiedMeta scales wgtOff).2.toInt k

/-- One K-group added to the partial sums of the tile of rows from `mt` and columns from
`nt`. -/
def unifiedTileStep (mt nt : ℕ) (psum : ℕ → ℕ → ℤ) (kg : ℕ) : ℕ → ℕ → ℤ :=
  let actTile := fun m k =>
    if mt + m < M then axiReadI8Linear act ((mt + m) * K + kg * grp + k) else 0
  let wgtTile := fun n k =>
    if nt + n < N then unifiedWeight wgt scales (K / grp) (nt + n) kg k else 0
  w4a8MacUnit actTile wgtTile psum

/-- The partial sums of a tile. -/
def unifiedTile (mt nt : ℕ) : ℕ → ℕ → ℤ :=
  (List.range (K / grp)).foldl (unifiedTileStep act wgt scales M K N mt nt) fun _ _ => 0

/-- Write the partial sums of a tile to the rows and columns the matrix has. -/
def storeTile (mt nt : ℕ) (psum : ℕ → ℕ → ℤ) (out : ℕ → AXI256) : ℕ → AXI256 :=
  (List.range tileM).foldl (fun out m =>
    if M ≤ mt + m then out
    else (List.range (min tileN (N - nt))).foldl (fun out n =>
      axiWriteI32Linear out ((mt + m) * N + nt + n) (psum m n)) out) out

/-- `unified_gemm_w4a8_int8_in_int32_out`. -/
def unifiedGemmW4A8Int8InInt32Out (out : ℕ → AXI256) : ℕ → AXI256 :=
  (List.range (tileCount tileM M)).foldl (fun out i =>
    (List.range (tileCount tileN N)).foldl (fun out j =>
      storeTile M N (i * tileM) (j * tileN)
        (unifiedTile act wgt scales M K N (i * tileM) (j * tileN)) out) out) out

/-! ### What it computes -/

/-- The `k`-th weight of column `n`; there is none beyond the last column. -/
def columnWeight (k n : ℕ) : ℤ :=
  if n < N then unifiedWeight wgt scales (K / grp) n (k / grp) (k % grp) else 0

/-- The product of column `n` when its weight is paired with that of column `n ^ 1`. -/
def pairedProduct (weight : ℕ → ℤ) (n : ℕ) (a : ℤ) : ℤ :=
  if n % 2 = 0 then (packMul2Int8 (weight n) (weight (n + 1)) a).1
  else (packMul2Int8 (weight (n - 1)) (weight n) a).2

/-- The result for row `m` and column `n`: the sum of the products over all `k`, in an
`INT32`. -/
def unifiedElem (m n : ℕ) : ℤ :=
  apInt 32 (∑ k ∈ Finset.range K,
    pairedProduct (columnWeight wgt scales K N k) n (axiReadI8Linear act (m * K + k)))

/-- A pair of columns of a tile is a pair of columns of the matrix. -/
theorem w4a8MacUnit_pairedProduct {weight : ℕ → ℕ → ℤ} {nt : ℕ} (hnt : nt % 2 = 0)
    {actTile wgtTile : ℕ → ℕ → ℤ} {k₀ : ℕ}
    (hwgt : ∀ n, ∀ k < kUnroll, wgtTile n k = weight (k₀ + k) (nt + n)) (psum : ℕ → ℕ → ℤ)
    (m n : ℕ) :
  w4a8MacUnit actTile wgtTile psum m n
    = (List.range kUnroll).foldl (fun acc k =>
        apInt 32 (acc + pairedProduct (weight (k₀ + k)) (nt + n) (actTile m k))) (psum m n)
  := by
  apply List.foldl_ext
  intro acc k hk
  have hk' := List.mem_range.mp hk
  rw [pairedProduct]
  rcases Nat.mod_two_eq_zero_or_one n with h | h
  · have hpar : (nt + n) % 2 = 0 := by omega
    simp only [h, hpar, if_true, Nat.div_mul_cancel (Nat.dvd_of_mod_eq_zero h), hwgt _ _ hk',
      Nat.add_assoc]
  · have hpar : (nt + n) % 2 = 1 := by omega
    have hprev : nt + n / 2 * 2 = nt + n - 1 := by omega
    have hself : nt + (n / 2 * 2 + 1) = nt + n := by omega
    simp only [h, hpar, one_ne_zero, if_false, hwgt _ _ hk', hprev, hself]

/-- The partial sums of a tile are the results for its rows and columns. -/
theorem unifiedTile_eq (hK : grp ∣ K) {mt nt m : ℕ} (hnt : nt % 2 = 0) (hm : mt + m < M)
    (n : ℕ) :
  unifiedTile act wgt scales M K N mt nt m n
    = unifiedElem act wgt scales K N (mt + m) (nt + n)
  := by
  let accumulate : ℤ → ℕ → ℤ := fun acc k =>
    apInt 32 (acc + pairedProduct (columnWeight wgt scales K N k) (nt + n)
      (axiReadI8Linear act ((mt + m) * K + k)))
  let accumulateGroup : ℤ → ℕ → ℤ := fun acc kg =>
    (List.range kUnroll).foldl (fun acc k => accumulate acc (kg * kUnroll + k)) acc
  have hgroup : ∀ (psum : ℕ → ℕ → ℤ) (kg : ℕ),
      unifiedTileStep act wgt scales M K N mt nt psum kg m n
        = accumulateGroup (psum m n) kg := by
    intro psum kg
    have hwgt : ∀ n, ∀ k < kUnroll,
        (if nt + n < N then unifiedWeight wgt scales (K / grp) (nt + n) kg k else 0)
          = columnWeight wgt scales K N (kg * kUnroll + k) (nt + n) := by
      intro n k hk
      have hdiv : (kg * kUnroll + k) / grp = kg := Blocks.mul_add_div_of_lt hk
      have hmod : (kg * kUnroll + k) % grp = k := Nat.mul_add_mod_of_lt hk
      rw [columnWeight, hdiv, hmod]
    rw [unifiedTileStep, w4a8MacUnit_pairedProduct hnt hwgt]
    simp only [hm, if_true, Nat.add_assoc]
    rfl
  have hfold := foldl_range_mul (K / grp) kUnroll accumulate 0
  rw [Nat.div_mul_cancel hK] at hfold
  rw [unifiedTile, foldl_apply₂ (G := accumulateGroup) hgroup, hfold]
  apply foldl_apInt_add 31

/-! ### What it writes -/

/-- The lanes a tile writes. -/
def tileLog (mt nt : ℕ) (psum : ℕ → ℕ → ℤ) : List (ℕ × BitVec 32) :=
  (List.range tileM).flatMap fun m =>
    if M ≤ mt + m then []
    else (List.range (min tileN (N - nt))).map fun n =>
      ((mt + m) * N + nt + n, BitVec.ofInt 32 (psum m n))

/-- The lanes the multiplication writes. -/
def outLog : List (ℕ × BitVec 32) :=
  (List.range (tileCount tileM M)).flatMap fun i =>
    (List.range (tileCount tileN N)).flatMap fun j =>
      tileLog M N (i * tileM) (j * tileN)
        (unifiedTile act wgt scales M K N (i * tileM) (j * tileN))

theorem storeTile_eq (mt nt : ℕ) (psum : ℕ → ℕ → ℤ) (out : ℕ → AXI256) :
  storeTile M N mt nt psum out = i32Lanes.writeAll out (tileLog M N mt nt psum)
  := by
  rw [tileLog, Cells.writeAll_flatMap]
  apply List.foldl_ext
  intro out m _
  split
  · rfl
  · rw [Cells.writeAll, List.foldl_map]
    rfl

theorem unifiedGemm_eq (out : ℕ → AXI256) :
  unifiedGemmW4A8Int8InInt32Out act wgt scales M K N out
    = i32Lanes.writeAll out (outLog act wgt scales M K N)
  := by
  rw [outLog, Cells.writeAll_flatMap]
  apply List.foldl_ext
  intro out i _
  rw [Cells.writeAll_flatMap]
  apply List.foldl_ext
  intro out j _
  apply storeTile_eq

/-- The lanes written are those of the rows and columns of the matrix, with their results. -/
theorem mem_outLog (hK : grp ∣ K) (w : ℕ × BitVec 32) :
  w ∈ outLog act wgt scales M K N
    ↔ ∃ m < M, ∃ n < N,
        w = (m * N + n, BitVec.ofInt 32 (unifiedElem act wgt scales K N m n))
  := by
  have htile : ∀ i j m n : ℕ, i * tileM + m < M →
      unifiedTile act wgt scales M K N (i * tileM) (j * tileN) m n
        = unifiedElem act wgt scales K N (i * tileM + m) (j * tileN + n) :=
    fun i j m n hm => unifiedTile_eq act wgt scales M K N hK (by simp only [tileN]; omega) hm n
  constructor
  · intro hw
    obtain ⟨i, -, hw⟩ := List.mem_flatMap.mp hw
    obtain ⟨j, -, hw⟩ := List.mem_flatMap.mp hw
    obtain ⟨m, -, hw⟩ := List.mem_flatMap.mp hw
    rcases Nat.lt_or_ge (i * tileM + m) M with hm | hm
    · rw [if_neg (Nat.not_le.mpr hm)] at hw
      obtain ⟨n, hn, rfl⟩ := List.mem_map.mp hw
      have hn' := List.mem_range.mp hn
      refine ⟨i * tileM + m, hm, j * tileN + n, by omega, ?_⟩
      rw [htile i j m n hm, Nat.add_assoc]
    · rw [if_pos hm] at hw
      cases hw
  · rintro ⟨r, hr, c, hc, rfl⟩
    obtain ⟨i, hi, m, hm, rfl⟩ := (lt_iff_exists_tile tileM_pos).mp hr
    obtain ⟨j, hj, n, hn, rfl⟩ := (lt_iff_exists_tile tileN_pos).mp hc
    have hm' := Nat.lt_of_lt_of_le hm (tileLen_le tileM M i)
    have hn' := Nat.lt_of_lt_of_le hn (tileLen_le tileN N j)
    apply List.mem_flatMap.mpr ⟨i, List.mem_range.mpr hi, _⟩
    apply List.mem_flatMap.mpr ⟨j, List.mem_range.mpr hj, _⟩
    apply List.mem_flatMap.mpr ⟨m, List.mem_range.mpr hm', _⟩
    rw [if_neg (Nat.not_le.mpr hr)]
    apply List.mem_map.mpr ⟨n, List.mem_range.mpr (by omega), _⟩
    rw [htile i j m n hr, Nat.add_assoc]

/-- A lane belongs to one row and one column. -/
theorem rowMajor_injective {m n m' n' : ℕ} (hn : n < N) (hn' : n' < N)
    (h : m * N + n = m' * N + n') :
  m = m' ∧ n = n'
  := by
  have hdiv := congrArg (· / N) h
  have hmod := congrArg (· % N) h
  simp only [Nat.mul_add_mod, Nat.mod_eq_of_lt hn, Nat.mod_eq_of_lt hn', Nat.mul_comm _ N,
    Nat.mul_add_div (Nat.zero_lt_of_lt hn), Nat.div_eq_of_lt hn, Nat.div_eq_of_lt hn',
    Nat.add_zero] at hdiv hmod
  exact ⟨hdiv, hmod⟩

/-- For any numbers of rows and columns, and any `K` made of whole groups, lane `m * N + n` of
the output holds the result for row `m` and column `n`, and the other lanes are as before. -/
theorem unifiedGemm_refines (hK : grp ∣ K) (out : ℕ → AXI256) :
  (∀ m < M, ∀ n < N,
    axiReadI32Linear (unifiedGemmW4A8Int8InInt32Out act wgt scales M K N out) (m * N + n)
      = unifiedElem act wgt scales K N m n)
  ∧ ∀ i, (∀ m < M, ∀ n < N, i ≠ m * N + n) →
    axiReadI32Linear (unifiedGemmW4A8Int8InInt32Out act wgt scales M K N out) i
      = axiReadI32Linear out i
  := by
  have hread : ∀ i, axiReadI32Linear (unifiedGemmW4A8Int8InInt32Out act wgt scales M K N out) i
      = ((latest (outLog act wgt scales M K N) i).getD (i32Lanes.read out i)).toInt := by
    intro i
    rw [← Cells.read_writeAll, ← unifiedGemm_eq]
    rfl
  constructor
  · intro m hm n hn
    have hlast := latest_eq_some
      ((mem_outLog act wgt scales M K N hK _).mpr ⟨m, hm, n, hn, rfl⟩) fun w hw hlane => by
        obtain ⟨m', -, n', hn', rfl⟩ := (mem_outLog act wgt scales M K N hK w).mp hw
        obtain ⟨rfl, rfl⟩ := rowMajor_injective N hn' hn hlane
        rfl
    rw [hread, hlast, Option.getD_some, toInt_ofInt_apInt, unifiedElem]
    apply apInt_of_mem (by decide)
    · rw [apInt]
      omega
    · rw [apInt]
      omega
  · intro i hi
    have hnone : latest (outLog act wgt scales M K N) i = none := by
      apply latest_eq_none
      intro w hw hlane
      obtain ⟨m, hm, n, hn, rfl⟩ := (mem_outLog act wgt scales M K N hK w).mp hw
      apply hi m hm n hn hlane.symm
    rw [hread, hnone]
    rfl

/-- One group of ones, times one group of weights of one, is 32; the lane beside it keeps its
value. -/
theorem unifiedGemm_refines_ones :
  let act : ℕ → AXI256 := fun _ =>
    0x0101010101010101010101010101010101010101010101010101010101010101
  let wgt : ℕ → AXI256 := fun _ =>
    0x9999999999999999999999999999999999999999999999999999999999999999
  let scales : ℕ → AXI256 := fun _ =>
    0x0810081008100810081008100810081008100810081008100810081008100810
  axiReadI32Linear (unifiedGemmW4A8Int8InInt32Out act wgt scales 1 32 1 act) 0 = 32
    ∧ axiReadI32Linear (unifiedGemmW4A8Int8InInt32Out act wgt scales 1 32 1 act) 1 = 0x01010101
  := by
  intro act wgt scales
  obtain ⟨hlane, hframe⟩ := unifiedGemm_refines act wgt scales 1 32 1 (by decide) act
  have hother : ∀ m < 1, ∀ n < 1, 1 ≠ m * 1 + n := by decide
  constructor
  · rw [hlane 0 (by decide) 0 (by decide)]
    decide +kernel
  · rw [hframe 1 hother]
    decide +kernel

end Gemm

end Kv260
