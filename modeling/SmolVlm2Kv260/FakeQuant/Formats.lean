import Mathlib.Data.Int.Log
import Mathlib.Data.List.MinMax
import Mathlib.Data.List.Sort
import SmolVlm2Kv260.Export.Fidelity

/-!
# The evaluated quantisers

`quantize_tensor_by_format` of `quant_ops.py` rounds a tensor as the format would, and returns
the rounded tensor.  This module has the quantisers, on exact rationals.
-/

set_option autoImplicit false

namespace Kv260

open Levels

/-- A tensor: its shape, and its elements in row-major order. -/
structure Tensor where
  shape : List ℕ
  data : Fin shape.prod → ℚ

/-- The exceptions of the quantisers. -/
inductive QuantError where
  | unpackError
  | zeroDivisionError
  | ambiguousReshape
  | emptyReduction
  | valueError (message : String)

/-- `_safe_absmax` of `n` elements. -/
def safeAbsmax (n : ℕ) (f : ℕ → ℚ) : ℚ := max (absMax n f) (1 / 10 ^ 8)

namespace Tensor

/-- Element `i` of `reshape(-1)`, and beyond the last the zeros it is padded with. -/
def flat (x : Tensor) (i : ℕ) : ℚ := if h : i < x.shape.prod then x.data ⟨i, h⟩ else 0

/-- `reshape_as`, of the elements `f 0, f 1, …`. -/
def reshapeAs (x : Tensor) (f : ℕ → ℚ) : Tensor := ⟨x.shape, fun i => f i⟩

/-- The size of dimension `-1`. -/
def lastDim (x : Tensor) : ℕ := x.shape.getLast?.getD 1

/-- The elements that share all indices but the last with element `i`. -/
def lastRow (x : Tensor) (i : ℕ) : ℕ → ℚ := fun j => x.flat (i / x.lastDim * x.lastDim + j)

theorem flat_reshapeAs (x : Tensor) (f : ℕ → ℚ) {i : ℕ} (hi : i < x.shape.prod) :
  (x.reshapeAs f).flat i = f i
  := dif_pos hi

theorem reshapeAs_congr (x : Tensor) {f g : ℕ → ℚ} (h : ∀ i < x.shape.prod, f i = g i) :
  x.reshapeAs f = x.reshapeAs g
  := by
  rw [reshapeAs, reshapeAs]
  congr 1
  funext i
  apply h i i.isLt

/-! ### Uniform steps -/

/-- Row `r` of a weight. -/
def row (weight : Tensor) (inFeatures r : ℕ) : ℕ → ℚ := fun c => weight.flat (r * inFeatures + c)

/-- `w4_fake_quant`.  The shape is unpacked into two numbers, and the number of groups of a row
is left to `reshape`, which fails when there is no row. -/
def w4FakeQuant (weight : Tensor) (groupSize : ℕ) : Except QuantError Tensor :=
  match weight.shape with
  | [outFeatures, inFeatures] =>
      if groupSize = 0 then .error .zeroDivisionError
      else if outFeatures = 0 then .error .ambiguousReshape
      else
        .ok (weight.reshapeAs fun i =>
          Kv260.w4FakeQuant groupSize inFeatures (weight.row inFeatures (i / inFeatures))
            (i % inFeatures))
  | _ => .error .unpackError

/-- `scale` of `a8_per_token_fake_quant`, for the token of element `i`. -/
def a8Scale (x : Tensor) (i : ℕ) : ℚ := safeAbsmax x.lastDim (x.lastRow i) / 127

/-- `a8_per_token_fake_quant`. -/
def a8PerTokenFakeQuant (x : Tensor) : Except QuantError Tensor :=
  if x.lastDim = 0 then .error .emptyReduction
  else
    .ok (x.reshapeAs fun i => npClip (-128) 127 (npRound (x.flat i / x.a8Scale i)) * x.a8Scale i)

/-! ### Block floating point -/

/-- `max_abs` of block `b`. -/
def bfpMaxAbs (x : Tensor) (blockSize b : ℕ) : ℚ :=
  max (absMax blockSize fun j => x.flat (b * blockSize + j)) (2 ^ (-16 : ℤ))

/-- `shared_exp` of block `b`. -/
def sharedExp (x : Tensor) (blockSize b : ℕ) : ℤ := Int.log 2 (x.bfpMaxAbs blockSize b)

/-- `bfp_fake_quant`. -/
def bfpFakeQuant (x : Tensor) (blockSize mantissaLevels : ℕ) : Except QuantError Tensor :=
  if blockSize = 0 then .error .zeroDivisionError
  else
    .ok (x.reshapeAs fun i =>
      let scale := 2 ^ x.sharedExp blockSize (i / blockSize)
      npClip (-mantissaLevels) mantissaLevels (npRound (x.flat i / scale * mantissaLevels))
        / mantissaLevels * scale)

end Tensor

/-! ### Sums of powers of two -/

/-- `combinations_with_replacement` of `terms` of the shifts: the first is one of them, the
others are none before it. -/
def combinationsWithReplacement : List ℕ → ℕ → List (List ℕ)
  | _, 0 => [[]]
  | shifts, terms + 1 =>
      shifts.tails.flatMap fun rest =>
        match rest with
        | [] => []
        | shift :: _ => (combinationsWithReplacement rest terms).map (shift :: ·)

/-- `product((-1.0, 1.0), repeat=terms)`. -/
def signVectors : ℕ → List (List ℚ)
  | 0 => [[]]
  | n + 1 => [-1, 1].flatMap fun sign => (signVectors n).map (sign :: ·)

/-- `value`, the sum of the signed powers. -/
def apotValue (signs : List ℚ) (combo : List ℕ) : ℚ :=
  (signs.zip combo).foldl (fun value e => value + e.1 * 2 ^ (-e.2 : ℤ)) 0

/-- `magnitudes`. -/
def apotMagnitudes (maxTerms maxShift : ℕ) : List ℚ :=
  0 :: (List.range maxTerms).flatMap fun terms =>
    (combinationsWithReplacement (List.range (maxShift + 1)) (terms + 1)).flatMap fun combo =>
      (signVectors (terms + 1)).map fun signs => apotValue signs combo

/-- `sorted(set(magnitudes))`. -/
def apotValues (maxTerms maxShift : ℕ) : List ℚ :=
  (apotMagnitudes maxTerms maxShift).dedup.insertionSort (· ≤ ·)

/-- `build_apot_codebook`: of more than `2 ** bits` values, that many are taken at equal
distances, with the indices rounded down. -/
def buildApotCodebook (bits maxTerms maxShift : ℕ) : List ℚ :=
  let values := apotValues maxTerms maxShift
  if 2 ^ bits < values.length then
    (List.range (2 ^ bits)).map fun i =>
      values.getD (i * (values.length - 1) / (2 ^ bits - 1)) 0
  else values

/-- The first entry at the least distance, which `argmin` selects. -/
def nearestEntry (codebook : List ℚ) (x : ℚ) : ℚ :=
  (codebook.argmin fun entry => |x - entry|).getD 0

namespace Tensor

/-- `scale` of `apot_fake_quant`, for element `i`. -/
def apotScale (x : Tensor) (i : ℕ) : ℚ := safeAbsmax x.lastDim (x.lastRow i)

/-- `apot_fake_quant`.  A vector is a matrix of one row. -/
def apotFakeQuant (x : Tensor) (bits maxTerms maxShift : ℕ) : Except QuantError Tensor :=
  if x.lastDim = 0 then .error .emptyReduction
  else
    .ok (x.reshapeAs fun i =>
      nearestEntry (buildApotCodebook bits maxTerms maxShift) (x.flat i / x.apotScale i)
        * x.apotScale i)

/-! ### Formats -/

/-- `quantize_tensor_by_format`. -/
def quantizeTensorByFormat (tensor : Tensor) (fmt : String) (groupSize blockSize bits : ℕ) :
    Except QuantError Tensor :=
  if fmt = "w4_uniform_rtn" ∨ fmt = "w4_awq_rtn" then tensor.w4FakeQuant groupSize
  else if fmt = "a8_per_token" then tensor.a8PerTokenFakeQuant
  else if fmt = "bfp8" then tensor.bfpFakeQuant blockSize 127
  else if fmt = "apot4" then tensor.apotFakeQuant bits 2 6
  else if fmt = "apot8" then tensor.apotFakeQuant bits 2 7
  else .error (.valueError s!"Unsupported quant format: {fmt}")

end Tensor

end Kv260
