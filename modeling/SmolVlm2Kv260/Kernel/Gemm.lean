import SmolVlm2Kv260.Kernel.Common
import SmolVlm2Kv260.Process.Basic
import Mathlib.Algebra.BigOperators.Ring.List
import Mathlib.Algebra.Group.Action.Defs

/-!
# The W4A8 matrix multiplication

`w4a8_gemm` of `w4a8_gemm.h` with the primitives of `unified_w4a8_gemm.h`.  It buffers `M`
rows of `K` activations and their scales, and then writes its results tile by tile: the
tiles of `N` columns on the outside, inside them those of `M` rows, inside them the rows
and the columns of a tile.

* `w4a8Gemm` is the process; `GemmOperands.elem` is the result it computes for a row and a
  column, and `GemmOperands.outList` the order in which it writes them.
* The order is row-major exactly when there is one row or one tile of columns, or when all
  results are zero because there is nothing to sum.
-/

set_option autoImplicit false

namespace Kv260

open Proc Blocks

/-! ### Arithmetic of a column pair -/

/-- The operand of `pack_mul_2int8`: `wHi` from bit 9 on, or-ed with the sign-extended
`wLo`. -/
def packedWeights (wLo wHi : ℤ) : BitVec 18 :=
  BitVec.ofInt 18 wHi <<< 9 ||| (BitVec.ofInt 9 wLo).signExtend 18

/-- `pack_mul_2int8`: two weights share one multiplication by `act`; the products are read
off the low 9 bits and the bits from 9 on. -/
def packMul2Int8 (wLo wHi act : ℤ) : ℤ × ℤ :=
  let product := BitVec.ofInt 35 ((packedWeights wLo wHi).toInt * act)
  (apInt 16 (product.extractLsb' 0 9).toNat, apInt 16 (product.extractLsb' 9 18).toNat)

/-- The low 9 bits of the packed weights are those of the low weight. -/
theorem packedWeights_emod (wLo wHi : ℤ) :
  (packedWeights wLo wHi).toInt % 512 = wLo % 512
  := by
  have hlow : (packedWeights wLo wHi).setWidth 9 = BitVec.ofInt 9 wLo := by
    apply BitVec.eq_of_getLsbD_eq
    intro i hi
    have hi' : i < 18 := by omega
    simp [packedWeights, BitVec.getElem_signExtend, hi, hi']
  have hnat := congrArg BitVec.toNat hlow
  rw [BitVec.toNat_setWidth, BitVec.toNat_ofInt] at hnat
  rw [BitVec.toInt_eq_toNat_cond]
  split <;> omega

/-- The low product does not depend on the other weight. -/
theorem packMul2Int8_fst (wLo wHi a : ℤ) :
  (packMul2Int8 wLo wHi a).1 = wLo * a % 512
  := by
  have hpacked : (packedWeights wLo wHi).toInt * a % 512 = wLo * a % 512 := by
    rw [Int.mul_emod, packedWeights_emod, ← Int.mul_emod]
  rw [packMul2Int8]
  generalize (packedWeights wLo wHi).toInt * a = x at *
  generalize wLo * a = y at *
  simp only [BitVec.extractLsb'_toNat, BitVec.toNat_ofInt, Nat.shiftRight_zero]
  rw [apInt_of_mem (by decide)] <;> omega
/-- `dequant_w4_group`: the weight in the `i`-th nibble of a pack. -/
def dequantW4Group (wgtPack : WgtPack) (scale zp : ℤ) (i : ℕ) : ℤ :=
  let nibble : ℤ := (wgtPack.extractLsb' (i * 4) 4).toNat
  let tmp := apInt 9 (nibble - zp)
  apInt 8 ((tmp * scale) >>> (4 : ℕ))

/-- `w4a8_mac_unit`: add the products of one K-group to the partial sums.  Columns are
multiplied in pairs `(n, n + 1)` with `n` even. -/
def w4a8MacUnit (act wgt : ℕ → ℕ → ℤ) (psum : ℕ → ℕ → ℤ) (m n : ℕ) : ℤ :=
  (List.range kUnroll).foldl (fun acc k =>
    let r := packMul2Int8 (wgt (n / 2 * 2) k) (wgt (n / 2 * 2 + 1) k) (act m k)
    apInt 32 (acc + if n % 2 = 0 then r.1 else r.2)) (psum m n)

/-! ### Weight ports -/

/-- The four ports through which weights and their group metadata are read. -/
structure WeightPorts where
  wgtHalf0 : ℕ → AXI256
  wgtHalf1 : ℕ → AXI256
  metaHalf0 : ℕ → AXI256
  metaHalf1 : ℕ → AXI256

namespace WeightPorts

/-- The ports advanced by `w` words of weights and `m` words of metadata. -/
def advance (P : WeightPorts) (w m : ℕ) : WeightPorts where
  wgtHalf0 i := P.wgtHalf0 (w + i)
  wgtHalf1 i := P.wgtHalf1 (w + i)
  metaHalf0 i := P.metaHalf0 (m + i)
  metaHalf1 i := P.metaHalf1 (m + i)

theorem advance_advance (P : WeightPorts) (w m w' m' : ℕ) :
  (P.advance w m).advance w' m' = P.advance (w + w') (m + m')
  := by
  simp only [advance, Nat.add_assoc]

/-- The pack of weights `w4a8_gemm` fetches for column `gn` and K-group `kg`. -/
def fetchPack (P : WeightPorts) (kGrps gn kg : ℕ) : WgtPack :=
  let wgtOff := gn * kGrps + kg
  let rawW := if gn % 2 = 0 then P.wgtHalf0 (wgtOff / 2) else P.wgtHalf1 (wgtOff / 2)
  if wgtOff % 2 = 0 then rawW.extractLsb' 0 128 else rawW.extractLsb' 128 128

/-- The scale and zero point `w4a8_gemm` fetches for column `gn` and K-group `kg`, as the
bytes they are stored in. -/
def fetchMeta (P : WeightPorts) (kGrps gn kg : ℕ) : BitVec 8 × BitVec 8 :=
  let metaOff := gn * kGrps + kg
  let rawM := if gn % 2 = 0 then P.metaHalf0 (metaOff / 16) else P.metaHalf1 (metaOff / 16)
  let metaShift := metaOff % 16 * 16
  (rawM.extractLsb' metaShift 8, rawM.extractLsb' (metaShift + 8) 8)

/-- The `k`-th weight of column `gn` in K-group `kg`. -/
def weight (P : WeightPorts) (kGrps kg gn k : ℕ) : ℤ :=
  dequantW4Group (P.fetchPack kGrps gn kg) (P.fetchMeta kGrps gn kg).1.toInt
    (P.fetchMeta kGrps gn kg).2.toInt k

end WeightPorts

/-! ### The process -/

/-- The registers of a tile before they are filled: the source leaves those of the columns
and rows that a partial tile lacks uninitialised. -/
structure TileRegisters where
  wgtDq : ℕ → ℕ → ℤ
  actTile : ℕ → ℕ → ℤ

/-- Row `t`, column `c` of a buffer. -/
def entry (buf : List (List ℤ)) (t c : ℕ) : ℤ := (buf.getD t []).getD c 0

/-- The partial sums of the tile of `mLen` rows from `mt` and `nLen` columns from `nBase`. -/
def gemmTile (P : WeightPorts) (actBuf : List (List ℤ)) (kGrps nBase nLen mt mLen : ℕ)
    (uninit : ℕ → TileRegisters) : ℕ → ℕ → ℤ :=
  (List.range kGrps).foldl (fun psum kg =>
    let wgtDq := fun n k => if n < nLen then P.weight kGrps kg (nBase + n) k
      else (uninit kg).wgtDq n k
    let actTile := fun m k => if m < mLen then entry actBuf (mt + m) (kg * grp + k)
      else (uninit kg).actTile m k
    w4a8MacUnit actTile wgtDq psum) fun _ _ => 0

/-- The tile loops of `w4a8_gemm`, after the activations are buffered. -/
def gemmTiles {ι : Type} (outS : ι) (P : WeightPorts) (M K N : ℕ)
    (uninit : ℕ → ℕ → ℕ → TileRegisters) (actBuf : List (List ℤ)) (tokScales : List ℤ) :
    Proc ι ℤ Unit :=
  forEach (tileCount tileN N) fun nt =>
    forEach (tileCount tileM M) fun i =>
      let nLen := tileLen tileN N nt
      let mLen := tileLen tileM M i
      let psum := gemmTile P actBuf (K / grp) (nt * tileN) nLen (i * tileM) mLen (uninit nt i)
      forEach mLen fun m =>
        forEach nLen fun n =>
          send outS (apInt 32 (psum m n * tokScales.getD (i * tileM + m) 0))

/-- `w4a8_gemm`. -/
def w4a8Gemm {ι : Type} (actS actScaleS outS : ι) (P : WeightPorts) (M K N : ℕ)
    (uninit : ℕ → ℕ → ℕ → TileRegisters) : Proc ι ℤ Unit := do
  let actBuf ← readRows actS K M
  let tokScales ← readVec actScaleS M
  gemmTiles outS P M K N uninit actBuf tokScales

/-! ### What it computes -/

/-- A fold over functions of two arguments, read at one pair of arguments. -/
theorem foldl_apply₂ {α β γ δ : Type} {F : (α → β → γ) → δ → α → β → γ} {G : γ → δ → γ}
    {a : α} {b : β} (h : ∀ f d, F f d a b = G (f a b) d) (l : List δ) (f : α → β → γ) :
  l.foldl F f a b = l.foldl G (f a b)
  := by
  induction l generalizing f with
  | nil => rfl
  | cons d l ih => rw [List.foldl_cons, List.foldl_cons, ih, h]

/-- The product that the accumulator of column `n` receives from its `k`-th weight.  That
of an odd column carries over from the product of the column before. -/
def columnProduct (wgt : ℕ → ℕ → ℤ) (n k : ℕ) (a : ℤ) : ℤ :=
  if n % 2 = 0 then wgt n k * a % 512 else (packMul2Int8 (wgt (n - 1) k) (wgt n k) a).2

/-- One K-group added to the accumulator of a row and a column. -/
def addGroup (wgt : ℕ → ℕ → ℤ) (act : ℕ → ℤ) (n : ℕ) (acc : ℤ) : ℤ :=
  (List.range kUnroll).foldl (fun acc k => apInt 32 (acc + columnProduct wgt n k (act k))) acc

theorem w4a8MacUnit_eq (act wgt psum : ℕ → ℕ → ℤ) (m n : ℕ) :
  w4a8MacUnit act wgt psum m n = addGroup wgt (act m) n (psum m n)
  := by
  apply List.foldl_ext
  intro acc k _
  rw [columnProduct]
  rcases Nat.mod_two_eq_zero_or_one n with h | h
  · simp only [if_pos h, packMul2Int8_fst, Nat.div_mul_cancel (Nat.dvd_of_mod_eq_zero h)]
  · have hprev : n / 2 * 2 = n - 1 := by omega
    have hself : n - 1 + 1 = n := by omega
    simp only [h, one_ne_zero, if_false, hprev, hself]

/-- Only the weights of a column and, if it is odd, of the one before enter its
accumulator. -/
theorem addGroup_congr {wgt wgt' : ℕ → ℕ → ℤ} {act act' : ℕ → ℤ} {n n' : ℕ}
    (hpar : n % 2 = n' % 2) (hcol : wgt n = wgt' n')
    (hprev : n % 2 = 1 → wgt (n - 1) = wgt' (n' - 1)) (hact : act = act') (acc : ℤ) :
  addGroup wgt act n acc = addGroup wgt' act' n' acc
  := by
  apply List.foldl_ext
  intro acc k _
  unfold columnProduct
  rw [← hpar, hcol, hact]
  rcases Nat.mod_two_eq_zero_or_one n with h | h
  · rw [if_pos h, if_pos h]
  · rw [hprev h]

/-- What `M` rows of `K` activations are multiplied by, and the scales of the rows. -/
structure GemmOperands (M K : ℕ) where
  acts : List (List ℤ)
  scales : List ℤ
  ports : WeightPorts
  length_acts : acts.length = M
  length_row : ∀ r ∈ acts, r.length = K
  length_scales : scales.length = M
  int8_acts : ∀ r ∈ acts, ∀ a ∈ r, IsApInt 8 a
  int8_scales : ∀ s ∈ scales, IsApInt 8 s

namespace GemmOperands

variable {M K : ℕ} (op : GemmOperands M K)

/-- The accumulator of row `t` and column `n`. -/
def psum (t n : ℕ) : ℤ :=
  (List.range (K / grp)).foldl (fun acc kg =>
    addGroup (op.ports.weight (K / grp) kg) (fun k => entry op.acts t (kg * grp + k)) n acc) 0

/-- The result for row `t` and column `n`. -/
def elem (t n : ℕ) : ℤ := apInt 32 (op.psum t n * op.scales.getD t 0)

/-- The results in the order in which they are written, for `N` columns. -/
def outList (N : ℕ) : List ℤ :=
  (List.range (tileCount tileN N)).flatMap fun nt =>
    (List.range M).flatMap fun t =>
      (List.range (tileLen tileN N nt)).map fun n => op.elem t (nt * tileN + n)

/-- The partial sums of a tile are the accumulators of its rows and columns. -/
theorem gemmTile_eq {nBase nLen mt mLen : ℕ} (hbase : nBase % 2 = 0)
    (uninit : ℕ → TileRegisters) {m n : ℕ} (hm : m < mLen) (hn : n < nLen) :
  gemmTile op.ports op.acts (K / grp) nBase nLen mt mLen uninit m n
    = op.psum (mt + m) (nBase + n)
  := by
  unfold gemmTile psum
  apply foldl_apply₂
  intro f kg
  rw [w4a8MacUnit_eq]
  apply addGroup_congr
  · omega
  · funext k
    rw [if_pos hn]
  · intro hodd
    funext k
    have hcol : nBase + (n - 1) = nBase + n - 1 := by omega
    rw [if_pos (by omega), hcol]
  · funext k
    rw [if_pos hm]

/-- The tile loops write the results in the order of `outList`. -/
theorem emits_gemmTiles {ι : Type} [DecidableEq ι] (outS : ι) (N : ℕ)
    (uninit : ℕ → ℕ → ℕ → TileRegisters) :
  Emits (gemmTiles outS op.ports M K N uninit op.acts op.scales) outS (op.outList N)
  := by
  apply emits_forEach
  intro nt _
  rw [← flatMap_tiles tileM_pos M]
  apply emits_forEach
  intro i _
  apply emits_forEach
  intro m hm
  have helem : ∀ n < tileLen tileN N nt,
      Emits (send outS (apInt 32 (gemmTile op.ports op.acts (K / grp) (nt * tileN)
          (tileLen tileN N nt) (i * tileM) (tileLen tileM M i) (uninit nt i) m n
          * op.scales.getD (i * tileM + m) 0)))
        outS [op.elem (i * tileM + m) (nt * tileN + n)] := by
    intro n hn
    rw [op.gemmTile_eq (by simp only [tileN]; omega) _ hm hn]
    apply emits_send
  rw [List.map_eq_flatMap]
  apply emits_forEach helem

/-- The process consumes its operands and writes `outList`. -/
theorem run_w4a8Gemm {ι : Type} [DecidableEq ι] {actS actScaleS outS : ι}
    (hne : actS ≠ actScaleS) (N : ℕ) (uninit : ℕ → ℕ → ℕ → TileRegisters)
    {σ : Store ι ℤ} {restA restS : List ℤ}
    (hact : σ actS = op.acts.flatten ++ restA) (hscale : σ actScaleS = op.scales ++ restS) :
  ∃ τ, (w4a8Gemm actS actScaleS outS op.ports M K N uninit).run σ = some ((), τ)
    ∧ τ outS = Function.update (Function.update σ actS restA) actScaleS restS outS
        ++ op.outList N
  := by
  have hrows := run_readRows op.length_acts op.length_row hact
  have hscale' : Function.update σ actS restA actScaleS = op.scales ++ restS := by
    rw [Function.update_of_ne hne.symm, hscale]
  have hvec := run_readVec op.length_scales hscale'
  rw [w4a8Gemm, run_bind_of_run hrows, run_bind_of_run hvec, op.emits_gemmTiles]
  refine ⟨_, rfl, ?_⟩
  rw [Function.update_self]

/-! ### The order of the results -/

/-- The results row by row. -/
def rowMajor (N : ℕ) : List ℤ :=
  (List.range M).flatMap fun t => (List.range N).map fun n => op.elem t n

theorem length_rowMajor (N : ℕ) :
  (op.rowMajor N).length = M * N
  := by
  apply length_flatMap_range
  intro t _
  rw [List.length_map, List.length_range]

theorem getElem?_rowMajor {N i : ℕ} (hi : i < M * N) :
  (op.rowMajor N)[i]? = some (op.elem (i / N) (i % N))
  := by
  have hN : 0 < N := Nat.pos_of_mul_pos_left (Nat.zero_lt_of_lt hi)
  have hmod := Nat.mod_lt i hN
  have hdiv : i / N < M := (Nat.div_lt_iff_lt_mul hN).mpr hi
  have hblock := getElem?_flatMap_range (f := fun t => (List.range N).map (op.elem t))
    (fun t _ => by rw [List.length_map, List.length_range]) hdiv hmod
  rw [Nat.div_add_mod'] at hblock
  rw [rowMajor, hblock, List.getElem?_map, List.getElem?_range hmod, Option.map_some]

/-- One row is written from its first column to its last. -/
theorem outList_of_one_row (op : GemmOperands 1 K) (N : ℕ) :
  op.outList N = op.rowMajor N
  := by
  have htiles := flatMap_tiles tileN_pos N fun n => [op.elem 0 n]
  simp only [outList, rowMajor, List.range_one, List.flatMap_singleton, List.map_eq_flatMap,
    htiles]

/-- One tile of columns is written row by row. -/
theorem outList_of_one_tile {N : ℕ} (hN : 1 ≤ N) (h : N ≤ tileN) :
  op.outList N = op.rowMajor N
  := by
  have hlen : tileLen tileN N 0 = N := by
    rw [tileLen]
    split <;> omega
  rw [outList, tileCount_eq_one hN h, List.range_one, List.flatMap_singleton, hlen]
  simp only [Nat.zero_mul, Nat.zero_add]
  rfl

theorem length_outList (N : ℕ) :
  (op.outList N).length = M * N
  := by
  have hsum := congrArg List.length (range_tiles tileN_pos N)
  simp only [List.length_flatMap, List.length_map, List.length_range] at hsum
  simp only [outList, List.length_flatMap, List.length_map, List.length_range,
    List.map_const', List.sum_replicate, smul_eq_mul, List.sum_map_mul_left, hsum]

/-- With nothing to sum, all results are zero. -/
theorem elem_of_no_columns (op : GemmOperands M 0) (t n : ℕ) :
  op.elem t n = 0
  := by
  have hpsum : op.psum t n = 0 := rfl
  rw [elem, hpsum, Int.zero_mul]
  apply apInt_succ_zero

theorem outList_of_no_columns (op : GemmOperands M 0) (N : ℕ) :
  op.outList N = op.rowMajor N
  := by
  have hout : op.outList N = List.replicate (M * N) 0 := by
    apply List.eq_replicate_iff.mpr
    use op.length_outList N
    simp only [outList, List.mem_flatMap, List.mem_map, elem_of_no_columns]
    rintro _ ⟨_, _, _, _, _, _, rfl⟩
    rfl
  have hrow : op.rowMajor N = List.replicate (M * N) 0 := by
    apply List.eq_replicate_iff.mpr
    use op.length_rowMajor N
    simp only [rowMajor, List.mem_flatMap, List.mem_map, elem_of_no_columns]
    rintro _ ⟨_, _, _, _, rfl⟩
    rfl
  rw [hout, hrow]

/-- With several rows and tiles of columns, the second row begins right after the first
tile of the first row. -/
theorem getElem?_outList_tileN {N : ℕ} (hM : 2 ≤ M) (hN : tileN < N) :
  (op.outList N)[tileN]? = some (op.elem 1 0)
  := by
  have hlen : tileLen tileN N 0 = tileN := by
    rw [tileLen, if_pos (by omega)]
  have hcount : 1 ≤ tileCount tileN N := by
    simp only [tileCount, tileN] at hN ⊢
    omega
  have hlenrow : ∀ t < M, ((List.range tileN).map fun n => op.elem t n).length = tileN := by
    intro t _
    rw [List.length_map, List.length_range]
  have hlt : tileN < ((List.range M).flatMap fun t =>
      (List.range tileN).map fun n => op.elem t n).length := by
    rw [length_flatMap_range hlenrow]
    simp only [tileN]
    omega
  have hrow := getElem?_flatMap_range hlenrow (Nat.lt_of_succ_le hM) tileN_pos
  simp only [Nat.one_mul, Nat.add_zero] at hrow
  rw [outList, flatMap_range_split _ hcount, List.range_one, List.flatMap_singleton]
  simp only [hlen, Nat.zero_mul, Nat.zero_add]
  rw [List.getElem?_append_left hlt, hrow]
  rfl

end GemmOperands

/-! ### The order on the output stream -/

/-- The streams of the multiplication. -/
inductive GemmChan where
  | act
  | actScale
  | out
  deriving DecidableEq

/-- The streams before the multiplication starts. -/
def GemmOperands.store {M K : ℕ} (op : GemmOperands M K) : Store GemmChan ℤ
  | .act => op.acts.flatten
  | .actScale => op.scales
  | .out => []

/-- Run on its operands alone, the kernel writes `outList`. -/
theorem GemmOperands.run_outList {M K : ℕ} (op : GemmOperands M K) (N : ℕ)
    (uninit : ℕ → ℕ → ℕ → TileRegisters) :
  ∃ τ, (w4a8Gemm .act .actScale .out op.ports M K N uninit).run op.store = some ((), τ)
    ∧ τ .out = op.outList N
  := by
  have hact : op.store .act = op.acts.flatten ++ [] := (List.append_nil _).symm
  have hscale : op.store .actScale = op.scales ++ [] := (List.append_nil _).symm
  apply op.run_w4a8Gemm (by decide) N uninit hact hscale

/-- Run on any `M` rows of `K` activations, `w4a8_gemm` ends after writing `M * N` values,
of which the `i`-th is the result for row `i / N` and column `i % N`. -/
def GemmWritesRowMajor (M K N : ℕ) : Prop :=
  ∀ (op : GemmOperands M K) (uninit : ℕ → ℕ → ℕ → TileRegisters),
    ∃ τ, (w4a8Gemm .act .actScale .out op.ports M K N uninit).run op.store = some ((), τ)
      ∧ (τ .out).length = M * N
      ∧ ∀ i < M * N, (τ .out)[i]? = some (op.elem (i / N) (i % N))

theorem gemmWritesRowMajor_iff_outList (M K N : ℕ) :
  GemmWritesRowMajor M K N ↔ ∀ op : GemmOperands M K, op.outList N = op.rowMajor N
  := by
  constructor
  · intro h op
    obtain ⟨τ, hτ, hout⟩ := op.run_outList N fun _ _ _ => ⟨fun _ _ => 0, fun _ _ => 0⟩
    obtain ⟨τ', hτ', hlen, hget⟩ := h op fun _ _ _ => ⟨fun _ _ => 0, fun _ _ => 0⟩
    obtain rfl : τ = τ' := congrArg Prod.snd (Option.some.inj (hτ.symm.trans hτ'))
    rw [← hout]
    apply List.ext_getElem?
    intro i
    rcases Nat.lt_or_ge i (M * N) with hi | hi
    · rw [hget i hi, op.getElem?_rowMajor hi]
    · rw [List.getElem?_eq_none (by omega),
        List.getElem?_eq_none (by rw [op.length_rowMajor]; exact hi)]
  · intro h op uninit
    obtain ⟨τ, hτ, hout⟩ := op.run_outList N uninit
    rw [h op] at hout
    use τ, hτ
    rw [hout]
    use op.length_rowMajor N
    intro i hi
    apply op.getElem?_rowMajor hi

/-- Operands that tell the second row from the first: the activation in row 1, column 0
and the weight in column 0 are one, the other activations are zero. -/
def markedOperands (M K : ℕ) : GemmOperands M K where
  acts := (List.range M).map fun t => (List.range K).map fun c => if t = 1 ∧ c = 0 then 1 else 0
  scales := List.replicate M 1
  ports := ⟨fun _ => 1, fun _ => 0, fun _ => 16, fun _ => 0⟩
  length_acts := by rw [List.length_map, List.length_range]
  length_row := by
    simp only [List.mem_map, List.mem_range]
    rintro _ ⟨_, _, rfl⟩
    rw [List.length_map, List.length_range]
  length_scales := List.length_replicate
  int8_acts := by
    simp only [List.mem_map, List.mem_range]
    rintro _ ⟨t, _, rfl⟩ a ha
    obtain ⟨c, _, rfl⟩ := List.mem_map.mp ha
    split <;> decide
  int8_scales := by
    intro s hs
    rw [List.eq_of_mem_replicate hs]
    decide

theorem columnProduct_zero {wgt : ℕ → ℕ → ℤ} {n k : ℕ} (hn : n % 2 = 0) :
  columnProduct wgt n k 0 = 0
  := by
  rw [columnProduct, if_pos hn, Int.mul_zero, Int.zero_emod]

/-- A K-group whose activations are zero leaves the accumulator of an even column alone. -/
theorem addGroup_of_zero {wgt : ℕ → ℕ → ℤ} {act : ℕ → ℤ} {n : ℕ} {acc : ℤ}
    (hn : n % 2 = 0) (hact : ∀ k, act k = 0) (hacc : IsApInt 32 acc) :
  addGroup wgt act n acc = acc
  := by
  apply List.foldl_fixed'
  intro k
  rw [hact, columnProduct_zero hn, Int.add_zero]
  apply hacc

theorem entry_markedOperands (M K t c : ℕ) :
  entry (markedOperands M K).acts t c = if t < M ∧ c < K ∧ t = 1 ∧ c = 0 then 1 else 0
  := by
  simp only [entry, markedOperands, List.getD_eq_getElem?_getD, List.getElem?_map]
  rcases Nat.lt_or_ge t M with ht | ht
  · rw [List.getElem?_range ht, Option.map_some, Option.getD_some, List.getElem?_map]
    rcases Nat.lt_or_ge c K with hc | hc
    · rw [List.getElem?_range hc, Option.map_some, Option.getD_some]
      simp only [ht, hc, true_and]
    · rw [List.getElem?_eq_none (by rw [List.length_range]; exact hc), if_neg (by omega)]
      rfl
  · have hlen : (List.range M).length ≤ t := by rwa [List.length_range]
    rw [List.getElem?_eq_none hlen, if_neg (by omega)]
    rfl

theorem markedOperands_elem_zero (M K : ℕ) {n : ℕ} (hn : n % 2 = 0) :
  (markedOperands M K).elem 0 n = 0
  := by
  have hpsum : (markedOperands M K).psum 0 n = 0 := by
    apply List.foldl_fixed'
    intro kg
    apply addGroup_of_zero hn _ (by decide)
    intro k
    rw [entry_markedOperands, if_neg (by omega)]
  rw [GemmOperands.elem, hpsum, Int.zero_mul]
  apply apInt_succ_zero

/-- The first K-group of row 1 leaves one in the accumulator of column 0. -/
theorem markedOperands_addGroup_one {M K : ℕ} (hM : 2 ≤ M) (hK : 1 ≤ K) (kGrps : ℕ) :
  addGroup ((markedOperands M K).ports.weight kGrps 0)
    (fun k => entry (markedOperands M K).acts 1 (0 * grp + k)) 0 0 = 1
  := by
  have hweight : (markedOperands M K).ports.weight kGrps 0 0 0 = 1 := by
    simp only [WeightPorts.weight, WeightPorts.fetchPack, WeightPorts.fetchMeta, Nat.zero_mul,
      Nat.add_zero, Nat.zero_mod, if_true, markedOperands]
    decide
  rw [addGroup, kUnroll, grp, List.range_succ_eq_map, List.foldl_cons, List.foldl_map]
  have hfirst : apInt 32 (0 + columnProduct ((markedOperands M K).ports.weight kGrps 0) 0 0
      (entry (markedOperands M K).acts 1 (0 * 32 + 0))) = 1 := by
    rw [columnProduct, hweight, entry_markedOperands, if_pos (by omega), if_pos (by omega)]
    rfl
  rw [hfirst]
  apply List.foldl_fixed'
  intro k
  rw [entry_markedOperands, if_neg (by omega), columnProduct_zero rfl]
  rfl

theorem markedOperands_elem_one {M K : ℕ} (hM : 2 ≤ M) (hK : grp ≤ K) :
  (markedOperands M K).elem 1 0 = 1
  := by
  obtain ⟨q, hq⟩ : ∃ q, K / grp = q + 1 := by
    use K / grp - 1
    have hpos := Nat.div_pos hK (by decide)
    omega
  have hpsum : (markedOperands M K).psum 1 0 = 1 := by
    rw [GemmOperands.psum, hq, List.range_succ_eq_map, List.foldl_cons, List.foldl_map,
      markedOperands_addGroup_one hM (Nat.le_trans (by decide) hK)]
    apply List.foldl_fixed'
    intro kg
    apply addGroup_of_zero rfl _ (by decide)
    intro k
    rw [entry_markedOperands, if_neg (by simp only [grp]; omega)]
  have hscale : (markedOperands M K).scales.getD 1 0 = 1 := by
    rw [markedOperands, List.getD_eq_getElem?_getD, List.getElem?_replicate_of_lt (by omega)]
    rfl
  rw [GemmOperands.elem, hpsum, hscale]
  rfl

/-- With several rows, several tiles of columns and something to sum, the order is not
row-major. -/
theorem not_gemmWritesRowMajor {M K N : ℕ} (hM : 2 ≤ M) (hK : grp ≤ K) (hN : tileN < N) :
  ¬ GemmWritesRowMajor M K N
  := by
  rw [gemmWritesRowMajor_iff_outList]
  intro h
  have hi : tileN < M * N := Nat.lt_of_lt_of_le hN (Nat.le_mul_of_pos_left N (by omega))
  have hget := (markedOperands M K).getElem?_outList_tileN hM hN
  rw [h, (markedOperands M K).getElem?_rowMajor hi, Nat.div_eq_of_lt hN, Nat.mod_eq_of_lt hN,
    markedOperands_elem_one hM hK, markedOperands_elem_zero M K (by decide)] at hget
  cases hget

/-- For up to `maxL` rows, any number of columns and any number of K-groups the decoder
supports, the results are written in row-major order exactly when there is one row, or one
tile of columns, or nothing to sum. -/
theorem gemmWritesRowMajor_iff (M K N : ℕ) (hM : 1 ≤ M ∧ M ≤ maxL) (hN : 1 ≤ N)
    (hK : grp ∣ K ∧ K ≤ maxDecGemmK) :
  GemmWritesRowMajor M K N ↔ M = 1 ∨ N ≤ tileN ∨ K = 0
  := by
  constructor
  · intro h
    by_contra hnot
    simp only [not_or, Nat.not_le] at hnot
    obtain ⟨hM₁, hN₁, hK₁⟩ := hnot
    apply not_gemmWritesRowMajor _ _ hN₁ h
    · omega
    · apply Nat.le_of_dvd (Nat.pos_of_ne_zero hK₁) hK.1
  · intro h
    rw [gemmWritesRowMajor_iff_outList]
    intro op
    rcases h with rfl | h | rfl
    · apply op.outList_of_one_row
    · apply op.outList_of_one_tile hN h
    · apply op.outList_of_no_columns

/-- The QKV projection of a single token writes its results in row-major order. -/
theorem gemmWritesRowMajor_qkv_one_token :
  GemmWritesRowMajor 1 C nQkv
  := (gemmWritesRowMajor_iff 1 C nQkv (by decide) (by decide) (by decide)).mpr (.inl rfl)

/-- The QKV projection of two tokens does not. -/
theorem not_gemmWritesRowMajor_qkv_two_tokens :
  ¬ GemmWritesRowMajor 2 C nQkv
  := not_gemmWritesRowMajor (Nat.le_refl 2) (by decide) (by decide)

end Kv260
