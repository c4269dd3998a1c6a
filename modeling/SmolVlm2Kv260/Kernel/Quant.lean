import SmolVlm2Kv260.Kernel.ApproxMath
import SmolVlm2Kv260.Process.Trace

/-!
# The dynamic quantisers

`rmsnorm_quant` of `w4a8_gemm.h`, `act_quant` of `act_quant.h` and `silu_gate_fuse_quant`
of `silu_gate.h`.  Each of them reads the values of a token, computes a row of results,
writes the scale of the row, and then the row divided by the scale.

The division of the source is by an `INT8` that may have wrapped to zero; `Int.tdiv` by
zero is zero.
-/

set_option autoImplicit false

namespace Kv260

open Proc

/-! ### Rows -/

/-- `x < 0 ? -x : x` in an `INT32`. -/
def absI32 (x : ℤ) : ℤ := if x < 0 then apInt 32 (-x) else x

/-- The largest absolute value of a row, counted from zero. -/
def absmax (row : List ℤ) : ℤ :=
  row.foldl (fun m x => if absI32 x > m then absI32 x else m) 0

/-- The scale of a row. -/
def tokScale (row : List ℤ) : ℤ := apInt 8 ((absmax row).tdiv 127 + 1)

/-- Write the scale of a row, and then its `cols` values divided by the scale.  The scale is zero
for a row with `absmax / 127` of 255 modulo 256; the source then divides by zero, and here the
codes are zero. -/
def quantizeRow {ι : Type} (outS scaleS : ι) (cols : ℕ) (row : List ℤ) : Proc ι ℤ Unit := do
  send scaleS (tokScale row)
  forEach cols fun c => send outS (apInt 8 ((row.getD c 0).tdiv (tokScale row)))

/-! ### The three quantisers -/

/-- The mean square of a row in Q16, at least one. -/
def rms2Q16 (buf : List ℤ) : ℕ :=
  let sqSum := buf.foldl (fun s x => apInt 43 (s + apInt 43 (x * x))) 0
  max ((sqSum + C / 2).tdiv C % 2 ^ 32).toNat 1

/-- A row normalised by its root mean square and multiplied by `gamma`. -/
def rmsnormRow (gamma : List ℤ) (buf : List ℤ) : List ℤ :=
  let rmsInvQ23 := apInt 32 (approxRsqrtQ15 (rms2Q16 buf) * 2 ^ 8)
  List.zipWith (fun x g =>
    let normed := apInt 32 ((x * rmsInvQ23) >>> (15 : ℕ))
    apInt 32 ((normed * g) >>> (6 : ℕ))) buf gamma

/-- `rmsnorm_quant`. -/
def rmsnormQuant {ι : Type} (inS outS scaleS : ι) (gamma : List ℤ) (seqLen : ℕ) :
    Proc ι ℤ Unit :=
  forEach seqLen fun _ => do
    let buf ← readVec inS C
    quantizeRow outS scaleS C (rmsnormRow gamma buf)

/-- `act_quant`. -/
def actQuant {ι : Type} (inS outS scaleS : ι) (rows cols : ℕ) : Proc ι ℤ Unit :=
  forEach rows fun _ => do
    let rowBuf ← readVec inS cols
    quantizeRow outS scaleS cols rowBuf

/-- `silu_approx`. -/
def siluApprox (x : ℤ) : ℤ := approxSiluQ8_8 (x >>> (2 : ℕ))

/-- The gated row: SiLU of the gate, times `up`. -/
def siluGateRow (gate up : List ℤ) : List ℤ :=
  List.zipWith (fun g u => apInt 32 ((siluApprox g * u) >>> (8 : ℕ))) gate up

/-- `silu_gate_fuse_quant`. -/
def siluGateFuseQuant {ι : Type} (gateUpS ffnActS ffnScaleS : ι) (nTokens : ℕ) :
    Proc ι ℤ Unit :=
  forEach nTokens fun _ => do
    let gate ← readVec gateUpS ffnDim
    let up ← readVec gateUpS ffnDim
    quantizeRow ffnActS ffnScaleS ffnDim (siluGateRow gate up)

/-! ### Their accesses -/

section Trace

variable {ι : Type} (inS outS scaleS : ι)

/-- The accesses of a quantiser for one token: `inCols` values are read, the scale is
written, and then `cols` values. -/
def quantRowTrace (inCols cols : ℕ) : List (Event ι) :=
  List.replicate inCols (.rd inS) ++ .wr scaleS :: List.replicate cols (.wr outS)

/-- The accesses of a quantiser for `rows` tokens. -/
def quantTrace (rows inCols cols : ℕ) : List (Event ι) :=
  (List.range rows).flatMap fun _ => quantRowTrace inS outS scaleS inCols cols

theorem follows_quantizeRow (cols : ℕ) (row : List ℤ) :
  (quantizeRow outS scaleS cols row).Follows (.wr scaleS :: List.replicate cols (.wr outS))
  := by
  apply (follows_send scaleS _).bind
  intro _
  apply follows_forEach_send

theorem follows_rmsnormQuant (gamma : List ℤ) (seqLen : ℕ) :
  (rmsnormQuant inS outS scaleS gamma seqLen).Follows (quantTrace inS outS scaleS seqLen C C)
  := by
  apply follows_forEach
  intro _ _
  apply (follows_readVec inS C).bind
  intro buf
  apply follows_quantizeRow

theorem follows_actQuant (rows cols : ℕ) :
  (actQuant inS outS scaleS rows cols).Follows (quantTrace inS outS scaleS rows cols cols)
  := by
  apply follows_forEach
  intro _ _
  apply (follows_readVec inS cols).bind
  intro buf
  apply follows_quantizeRow

theorem follows_siluGateFuseQuant (nTokens : ℕ) :
  (siluGateFuseQuant inS outS scaleS nTokens).Follows
    (quantTrace inS outS scaleS nTokens (ffnDim + ffnDim) ffnDim)
  := by
  apply follows_forEach
  intro _ _
  rw [quantRowTrace, ← List.replicate_append_replicate, List.append_assoc]
  apply (follows_readVec inS ffnDim).bind
  intro gate
  apply (follows_readVec inS ffnDim).bind
  intro up
  apply follows_quantizeRow

end Trace

end Kv260
