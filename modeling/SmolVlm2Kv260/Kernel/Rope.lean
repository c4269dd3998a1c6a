import SmolVlm2Kv260.Kernel.ApproxMath
import SmolVlm2Kv260.Process.Trace

/-!
# The rotary embedding

`rope_split_qk` of `rope.h` splits the token-major QKV stream into queries, keys and values
and rotates the queries and keys.  Its three processes are `split` and two
`ropeApplyStream`s; run one after the other they are `ropeSplitQk`.
-/

set_option autoImplicit false

namespace Kv260

open Proc Blocks

/-! ### Rotation -/

/-- `rope_rotate_pair`. -/
def ropeRotatePair (x₀ x₁ cosV sinV : ℤ) : ℤ × ℤ :=
  let r₀ := apInt 43 (x₀ * cosV - x₁ * sinV)
  let r₁ := apInt 43 (x₀ * sinV + x₁ * cosV)
  (apInt 32 (r₀ >>> (15 : ℕ)), apInt 32 (r₁ >>> (15 : ℕ)))

/-- The pair of dimensions `d` and `d + 32` of a head, rotated for position `pos`. -/
def ropePair (pos : ℕ) (vec : List ℤ) (d : ℕ) : ℤ × ℤ :=
  let cs := approxRopeSincosQ15 d pos
  ropeRotatePair (vec.getD d 0) (vec.getD (d + dHead / 2) 0) cs.1 cs.2

/-- A head rotated for position `pos`. -/
def ropeVec (pos : ℕ) (vec : List ℤ) : List ℤ :=
  ((List.range (dHead / 2)).map fun d => (ropePair pos vec d).1)
    ++ (List.range (dHead / 2)).map fun d => (ropePair pos vec d).2

theorem length_ropeVec (pos : ℕ) (vec : List ℤ) :
  (ropeVec pos vec).length = dHead
  := by
  rw [ropeVec, List.length_append, List.length_map, List.length_map, List.length_range]
  rfl

/-! ### The processes -/

section Processes

variable {ι : Type}

/-- `rope_apply_stream`. -/
def ropeApplyStream (inS outS : ι) (posStart nHeads nTokens : ℕ) : Proc ι ℤ Unit :=
  forEach nTokens fun t =>
    forEach nHeads fun _ => do
      let vec ← readVec inS dHead
      forEach dHead fun d => send outS ((ropeVec (posStart + t) vec).getD d 0)

/-- The loop `SPLIT` of `rope_split_qk`. -/
def split (qkvIn qPre kPre vOut : ι) (nTokens : ℕ) : Proc ι ℤ Unit :=
  forEach nTokens fun _ => do
    forEach (hQ * dHead) fun _ => recv qkvIn >>= send qPre
    forEach (hKv * dHead) fun _ => recv qkvIn >>= send kPre
    forEach (hKv * dHead) fun _ => recv qkvIn >>= send vOut

/-- `rope_split_qk`, its processes run one after the other. -/
def ropeSplitQk (qkvIn qPre kPre qRotOut kRotOut vOut : ι) (posStart nTokens : ℕ) :
    Proc ι ℤ Unit := do
  split qkvIn qPre kPre vOut nTokens
  ropeApplyStream qPre qRotOut posStart hQ nTokens
  ropeApplyStream kPre kRotOut posStart hKv nTokens

end Processes

/-! ### What the rotation writes -/

/-- The `i`-th head of a token-major stream of `nHeads` heads a token belongs to token
`i / nHeads`; the heads are rotated one by one and keep their order. -/
theorem transfers_ropeApplyStream {ι : Type} [DecidableEq ι] {inS outS : ι} (hne : inS ≠ outS)
    (posStart nHeads nTokens : ℕ) {vec : ℕ → List ℤ} (hvec : ∀ i, (vec i).length = dHead) :
  Transfers (ropeApplyStream inS outS posStart nHeads nTokens) inS outS
    ((List.range (nTokens * nHeads)).flatMap vec)
    ((List.range (nTokens * nHeads)).flatMap fun i => ropeVec (posStart + i / nHeads) (vec i))
  := by
  rw [← flatMap_range_mul, ← flatMap_range_mul]
  apply transfers_forEach hne
  intro t _
  apply transfers_forEach hne
  intro h hh
  have htoken : (t * nHeads + h) / nHeads = t := by
    apply mul_add_div_of_lt hh
  rw [htoken]
  apply transfers_readVec hne (hvec _)
  apply emits_forEach_getD (length_ropeVec _ _)

end Kv260
