import Mathlib.Algebra.Order.BigOperators.Group.List
import Mathlib.Tactic.Linarith
import Mathlib.Tactic.Ring
import SmolVlm2Kv260.Kernel.Decoder
import SmolVlm2Kv260.Kernel.QuantSound

/-!
# The normalisation of loaded activations

`load_act` fills a token with `INT8` values in Q8.8.  For such a token and any `INT8` weights,
no register of `rmsnorm_quant` overflows, and the normalised values stay below `soundMax`.

The largest value belongs to a token that is zero but for one element: it is normalised to
about the root of 960, which is 31, and doubled by the smallest weight.  What is left to
`soundMax` is two per cent, of which the table of the reciprocal root and the rounding of the
mean take less than one.
-/

set_option autoImplicit false

namespace Kv260

/-! ### The reciprocal root -/

/-- The table entry for `x`, and `1 / sqrt 2` of it for an odd exponent. -/
def rsqrtMantissa (x : ℕ) : ℤ :=
  let msb := u32MsbIndex x
  let normQ6 := if 6 ≤ msb then x >>> (msb - 6) else x <<< (6 - msb)
  let value := kRsqrtLutQ15.getD (min (max normQ6 64) 127 - 64) 0
  if msb % 2 = 1 then (value * q15InvSqrt2) >>> (15 : ℕ) else value

/-- The reciprocal root as computed in unbounded integers. -/
def rsqrtValue (x : ℕ) : ℤ :=
  if x ≤ 1 then q15OneI16 else max (rsqrtMantissa x >>> (u32MsbIndex x / 2)) 1

theorem kRsqrtLutQ15_mem :
  ∀ i < 64, 0 < kRsqrtLutQ15.getD i 0 ∧ kRsqrtLutQ15.getD i 0 < 32767
  := by
  decide +kernel

theorem rsqrtMantissa_mem (x : ℕ) :
  0 ≤ rsqrtMantissa x ∧ rsqrtMantissa x < 32767
  := by
  rw [rsqrtMantissa]
  generalize (if 6 ≤ u32MsbIndex x then x >>> (u32MsbIndex x - 6)
    else x <<< (6 - u32MsbIndex x)) = normQ6
  obtain ⟨hpos, hlt⟩ := kRsqrtLutQ15_mem (min (max normQ6 64) 127 - 64) (by omega)
  split
  · rw [q15InvSqrt2, Int.shiftRight_eq_div_pow]
    omega
  · omega

theorem shiftRight_mem {x b : ℤ} (h : 0 ≤ x) (h' : x < b) (n : ℕ) :
  0 ≤ x >>> n ∧ x >>> n < b
  := by
  rw [Int.shiftRight_eq_div_pow]
  constructor
  · apply Int.ediv_nonneg h
    positivity
  · apply lt_of_le_of_lt (Int.ediv_le_self _ h) h'

theorem rsqrtValue_mem (x : ℕ) :
  1 ≤ rsqrtValue x ∧ rsqrtValue x ≤ 32767
  := by
  obtain ⟨hpos, hlt⟩ := rsqrtMantissa_mem x
  have hshift := shiftRight_mem hpos hlt (u32MsbIndex x / 2)
  rw [rsqrtValue, q15OneI16]
  split <;> omega

/-- No register of `approx_rsqrt_q15` overflows. -/
theorem approxRsqrtQ15_eq (x : ℕ) :
  approxRsqrtQ15 x = rsqrtValue x
  := by
  obtain ⟨hlow, hhigh⟩ := rsqrtValue_mem x
  have hmantissa := rsqrtMantissa_mem x
  have hround : ∀ y : ℤ, 0 ≤ y → y < 32768 → apInt 32 y = y := by
    intro y hy hy'
    apply apInt_of_mem (by decide) <;> omega
  have hvalue : approxRsqrtQ15 x = apInt 16 (rsqrtValue x) := by
    rw [approxRsqrtQ15, rsqrtValue]
    split
    · rfl
    · rw [rsqrtMantissa] at hmantissa ⊢
      dsimp only at hmantissa ⊢
      split
      · rename_i hodd
        rw [if_pos hodd] at hmantissa
        rw [hround _ hmantissa.1 (by omega)]
      · rfl
  rw [hvalue]
  apply apInt_of_mem (by decide) <;> omega

/-- Each entry of the table is the reciprocal root at the middle of its interval, and at most
one per cent off at its end. -/
theorem kRsqrtLutQ15_sq_mul_le :
  ∀ i < 64, 100 * (kRsqrtLutQ15.getD i 0) ^ 2 * (i + 65) ≤ 101 * 64 * 2 ^ 30
  := by
  decide +kernel

section Bound

variable {y : ℕ} (h : 64 ≤ y)

include h

theorem six_le_log2 :
  6 ≤ y.log2
  := by
  apply (Nat.le_log2 (by omega)).mpr
  apply h

/-- The leading seven bits of `y`, and what the bits below them may add. -/
theorem shifted_mem :
  64 ≤ y >>> (y.log2 - 6) ∧ y >>> (y.log2 - 6) ≤ 127
    ∧ 64 * y < (y >>> (y.log2 - 6) + 1) * 2 ^ y.log2
  := by
  have hpow : 2 ^ y.log2 = 64 * 2 ^ (y.log2 - 6) := by
    rw [show 64 = 2 ^ 6 from rfl, ← pow_add, Nat.add_sub_cancel' (six_le_log2 h)]
  have hpos : 0 < 2 ^ (y.log2 - 6) := Nat.two_pow_pos _
  have hlow := Nat.log2_self_le (n := y) (by omega)
  have hhigh := Nat.lt_log2_self (n := y)
  rw [pow_succ, hpow] at hhigh
  rw [hpow] at hlow
  rw [Nat.shiftRight_eq_div_pow, hpow]
  refine ⟨(Nat.le_div_iff_mul_le hpos).mpr hlow, ?_, ?_⟩
  · apply Nat.le_of_lt_succ
    apply (Nat.div_lt_iff_lt_mul hpos).mpr
    omega
  · have hlt := Nat.lt_mul_div_succ y hpos
    calc
      64 * y < 64 * (2 ^ (y.log2 - 6) * (y / 2 ^ (y.log2 - 6) + 1)) := by omega
      _ = (y / 2 ^ (y.log2 - 6) + 1) * (64 * 2 ^ (y.log2 - 6)) := by ring

/-- The table entry for `y`. -/
theorem rsqrtMantissa_eq :
  rsqrtMantissa y = if y.log2 % 2 = 1
    then (kRsqrtLutQ15.getD (y >>> (y.log2 - 6) - 64) 0 * q15InvSqrt2) >>> (15 : ℕ)
    else kRsqrtLutQ15.getD (y >>> (y.log2 - 6) - 64) 0
  := by
  obtain ⟨hlow, hhigh, -⟩ := shifted_mem h
  have hsix := six_le_log2 h
  simp only [rsqrtMantissa, u32MsbIndex, hsix, if_true, max_eq_left hlow, min_eq_left hhigh]

/-- The constant for an odd exponent is at most the root of a half. -/
theorem rsqrtMantissa_sq_le :
  rsqrtMantissa y ^ 2 * 2 ^ (y.log2 % 2)
    ≤ kRsqrtLutQ15.getD (y >>> (y.log2 - 6) - 64) 0 ^ 2
  := by
  obtain ⟨-, hhigh, -⟩ := shifted_mem h
  have hpos := (kRsqrtLutQ15_mem (y >>> (y.log2 - 6) - 64) (by omega)).1
  rw [rsqrtMantissa_eq h]
  generalize kRsqrtLutQ15.getD (y >>> (y.log2 - 6) - 64) 0 = value at *
  rcases Nat.mod_two_eq_zero_or_one y.log2 with heven | hodd
  · rw [if_neg (by omega), heven, pow_zero, mul_one]
  · rw [if_pos hodd, hodd, pow_one, q15InvSqrt2, Int.shiftRight_eq_div_pow]
    have hnonneg : 0 ≤ value * 23170 / (2 ^ 15 : ℕ) := by omega
    have hle : value * 23170 / (2 ^ 15 : ℕ) * 2 ^ 15 ≤ value * 23170 := by omega
    generalize value * 23170 / (2 ^ 15 : ℕ) = rounded at *
    have hsq := pow_le_pow_left₀ (by positivity) hle 2
    rw [mul_pow, mul_pow] at hsq
    linarith [sq_nonneg value]

theorem rsqrtMantissa_sq_mul_le :
  100 * rsqrtMantissa y ^ 2 * 2 ^ (y.log2 % 2) * ((y >>> (y.log2 - 6) : ℕ) + 1)
    ≤ 101 * 64 * 2 ^ 30
  := by
  obtain ⟨hlow, hhigh, -⟩ := shifted_mem h
  have hsq := rsqrtMantissa_sq_le h
  have hentry := kRsqrtLutQ15_sq_mul_le (y >>> (y.log2 - 6) - 64) (by omega)
  generalize y >>> (y.log2 - 6) = normQ6 at *
  rw [Nat.cast_sub hlow] at hentry
  calc
    100 * rsqrtMantissa y ^ 2 * 2 ^ (y.log2 % 2) * ((normQ6 : ℤ) + 1)
      = 100 * (rsqrtMantissa y ^ 2 * 2 ^ (y.log2 % 2)) * (normQ6 + 1) := by ring
    _ ≤ 100 * kRsqrtLutQ15.getD (normQ6 - 64) 0 ^ 2 * (normQ6 + 1) := by
      apply mul_le_mul_of_nonneg_right _ (by positivity)
      apply mul_le_mul_of_nonneg_left hsq (by decide)
    _ ≤ 101 * 64 * 2 ^ 30 := by
      push_cast at hentry
      linarith

/-- The square of the reciprocal root exceeds the reciprocal by at most one per cent. -/
theorem rsqrtValue_sq_mul_le (h' : y ≤ 2 ^ 30) :
  100 * rsqrtValue y ^ 2 * y ≤ 101 * 2 ^ 30
  := by
  obtain ⟨hpos, -⟩ := rsqrtMantissa_mem y
  obtain ⟨-, -, hlt⟩ := shifted_mem h
  have hmantissa := rsqrtMantissa_sq_mul_le h
  have hlog : y.log2 = y.log2 % 2 + 2 * (y.log2 / 2) := by omega
  have hnonneg := (shiftRight_mem hpos (rsqrtMantissa_mem y).2 (y.log2 / 2)).1
  rw [rsqrtValue, if_neg (by omega), u32MsbIndex]
  rcases le_total (rsqrtMantissa y >>> (y.log2 / 2)) 1 with hone | hone
  · rw [max_eq_right hone]
    omega
  · rw [max_eq_left hone]
    have hshift : rsqrtMantissa y >>> (y.log2 / 2) * 2 ^ (y.log2 / 2) ≤ rsqrtMantissa y := by
      rw [Int.shiftRight_eq_div_pow]
      apply Int.ediv_mul_le
      positivity
    have hsq := pow_le_pow_left₀ (by positivity) hshift 2
    have hlt' : 64 * (y : ℤ)
        ≤ ((y >>> (y.log2 - 6) : ℕ) + 1) * 2 ^ (y.log2 % 2) * (2 ^ (y.log2 / 2)) ^ 2 := by
      rw [← pow_mul, mul_assoc, ← pow_add, mul_comm (y.log2 / 2), ← hlog]
      exact_mod_cast hlt.le
    generalize rsqrtMantissa y >>> (y.log2 / 2) = root at *
    rw [mul_pow] at hsq
    have hscaled : 64 * (100 * root ^ 2 * y) ≤ 64 * (101 * 2 ^ 30) := by
      calc
        64 * (100 * root ^ 2 * y) = 100 * root ^ 2 * (64 * y) := by ring
        _ ≤ 100 * root ^ 2 * (((y >>> (y.log2 - 6) : ℕ) + 1) * 2 ^ (y.log2 % 2)
            * (2 ^ (y.log2 / 2)) ^ 2) := by
          apply mul_le_mul_of_nonneg_left hlt' (by positivity)
        _ = 100 * (root ^ 2 * (2 ^ (y.log2 / 2)) ^ 2) * 2 ^ (y.log2 % 2)
            * ((y >>> (y.log2 - 6) : ℕ) + 1) := by ring
        _ ≤ 100 * rsqrtMantissa y ^ 2 * 2 ^ (y.log2 % 2) * ((y >>> (y.log2 - 6) : ℕ) + 1) := by
          apply mul_le_mul_of_nonneg_right _ (by positivity)
          apply mul_le_mul_of_nonneg_right _ (by positivity)
          apply mul_le_mul_of_nonneg_left hsq (by decide)
        _ ≤ 64 * (101 * 2 ^ 30) := by linarith
    apply le_of_mul_le_mul_left hscaled
    decide

end Bound

/-! ### The normalisation in unbounded integers -/

/-- The sum of the squares. -/
def sumSquares (buf : List ℤ) : ℤ := (buf.map fun x => x * x).sum

/-- The rounded mean of the squares. -/
def meanSquare (buf : List ℤ) : ℤ := (sumSquares buf + C / 2).tdiv C

/-- The scaled reciprocal root of the mean, which is at least one. -/
def rmsInv (buf : List ℤ) : ℤ := rsqrtValue (max (meanSquare buf).toNat 1) * 2 ^ 8

/-- A value divided by the root mean square. -/
def normedValue (buf : List ℤ) (x : ℤ) : ℤ := (x * rmsInv buf) >>> (15 : ℕ)

/-- A normalised value times its weight. -/
def normValue (buf : List ℤ) (x g : ℤ) : ℤ := (normedValue buf x * g) >>> (6 : ℕ)

/-- What each register of `rmsnorm_quant` is assigned fits into it. -/
structure RmsnormFits (gamma buf : List ℤ) : Prop where
  square : ∀ x ∈ buf, IsApInt 43 (x * x)
  sqSum : ∀ n, IsApInt 43 (sumSquares (buf.take n))
  mean : 0 ≤ meanSquare buf ∧ meanSquare buf < 2 ^ 32
  rmsInv : IsApInt 32 (rmsInv buf)
  product : ∀ x ∈ buf, IsApInt 43 (x * Kv260.rmsInv buf)
  normed : ∀ x ∈ buf, IsApInt 32 (normedValue buf x)
  scaled : ∀ x ∈ buf, ∀ g ∈ gamma, IsApInt 32 (normValue buf x g)

theorem sumSquares_append (l l' : List ℤ) :
  sumSquares (l ++ l') = sumSquares l + sumSquares l'
  := by
  rw [sumSquares, List.map_append, List.sum_append]
  rfl

/-- A sum that always fits is the sum. -/
theorem foldl_sqSum {buf : List ℤ} (hsq : ∀ x ∈ buf, IsApInt 43 (x * x))
    (hsum : ∀ n, IsApInt 43 (sumSquares (buf.take n))) :
  buf.foldl (fun s x => apInt 43 (s + apInt 43 (x * x))) 0 = sumSquares buf
  := by
  have hprefix : ∀ n, (buf.take n).foldl (fun s x => apInt 43 (s + apInt 43 (x * x))) 0
      = sumSquares (buf.take n) := by
    intro n
    induction n with
    | zero => rfl
    | succ n ih =>
        rcases Nat.lt_or_ge n buf.length with hn | hn
        · have hlast : sumSquares (buf.take (n + 1))
              = sumSquares (buf.take n) + buf[n] * buf[n] := by
            rw [List.take_succ_eq_append_getElem hn, sumSquares_append, sumSquares, sumSquares,
              List.map_singleton, List.sum_singleton]
          have hfits := hsum (n + 1)
          rw [hlast] at hfits
          rw [hlast, List.take_succ_eq_append_getElem hn, List.foldl_append, ih, List.foldl_cons,
            List.foldl_nil, hsq _ (List.getElem_mem hn)]
          apply hfits
        · rw [List.take_of_length_le hn] at ih
          rw [List.take_of_length_le (by omega)]
          apply ih
  have hall := hprefix buf.length
  rw [List.take_length] at hall
  apply hall

/-- When everything fits, the row is the one computed in unbounded integers. -/
theorem RmsnormFits.rmsnormRow_eq {gamma buf : List ℤ} (h : RmsnormFits gamma buf) :
  rmsnormRow gamma buf = List.zipWith (normValue buf) buf gamma
  := by
  have hmean : rms2Q16 buf = max (meanSquare buf).toNat 1 := by
    rw [rms2Q16, foldl_sqSum h.square h.sqSum, ← meanSquare,
      Int.emod_eq_of_lt h.mean.1 h.mean.2]
  have hinv : apInt 32 (approxRsqrtQ15 (rms2Q16 buf) * 2 ^ 8) = Kv260.rmsInv buf := by
    rw [hmean, approxRsqrtQ15_eq]
    apply h.rmsInv
  rw [rmsnormRow, hinv]
  apply List.ext_getElem
  · rw [List.length_zipWith, List.length_zipWith]
  · intro c hc hc'
    rw [List.length_zipWith, lt_inf_iff] at hc
    obtain ⟨hbuf, hgamma⟩ := hc
    have hmem : buf[c] ∈ buf := List.getElem_mem hbuf
    have hmem' : gamma[c] ∈ gamma := List.getElem_mem hgamma
    have hnormed : apInt 32 ((buf[c] * Kv260.rmsInv buf) >>> (15 : ℕ)) = _ := h.normed _ hmem
    rw [List.getElem_zipWith, List.getElem_zipWith, hnormed]
    apply h.scaled _ hmem _ hmem'

/-! ### Loaded activations -/

/-- A token as `load_act` fills it. -/
structure LoadedToken where
  vals : List ℤ
  length_vals : vals.length = C
  int8_vals : ∀ x ∈ vals, ∃ a, IsApInt 8 a ∧ x = a <<< (8 : ℕ)

/-- The weights of a normalisation. -/
structure GammaVector where
  vals : List ℤ
  length_vals : vals.length = C
  int8_vals : ∀ g ∈ vals, IsApInt 8 g

theorem isApInt_toInt {w : ℕ} (hw : 0 < w) (v : BitVec w) :
  IsApInt w v.toInt
  := by
  apply (isApInt_iff hw).mpr ⟨BitVec.le_toInt v, BitVec.toInt_lt⟩

/-- Row `r` of an activation buffer. -/
def LoadedToken.ofBuffer (src : ℕ → AXI256) (r : ℕ) : LoadedToken where
  vals := (List.range C).map (actValue src r)
  length_vals := by rw [List.length_map, List.length_range]
  int8_vals := by
    intro x hx
    obtain ⟨c, -, rfl⟩ := List.mem_map.mp hx
    exact ⟨_, isApInt_toInt (by decide) _, rfl⟩

@[simp]
theorem LoadedToken.vals_ofBuffer (src : ℕ → AXI256) (r : ℕ) :
  (ofBuffer src r).vals = (List.range C).map (actValue src r)
  := by rw [ofBuffer]

/-- The weights that `load_gamma` reads. -/
def GammaVector.ofBuffer (gammaDdr : ℕ → AXI256) : GammaVector where
  vals := loadGamma gammaDdr
  length_vals := by
    have hlane : ∀ v < C / 32, ((List.range 32).map fun b =>
        ((gammaDdr v).extractLsb' (b * 8) 8).toInt).length = 32 := by
      intro v _
      rw [List.length_map, List.length_range]
    apply Blocks.length_flatMap_range hlane
  int8_vals := by
    intro g hg
    obtain ⟨v, -, hg⟩ := List.mem_flatMap.mp hg
    obtain ⟨b, -, rfl⟩ := List.mem_map.mp hg
    apply isApInt_toInt (by decide)

@[simp]
theorem GammaVector.vals_ofBuffer (gammaDdr : ℕ → AXI256) :
  (ofBuffer gammaDdr).vals = loadGamma gammaDdr
  := rfl

namespace LoadedToken

variable (tok : LoadedToken)

theorem abs_val_le {x : ℤ} (hx : x ∈ tok.vals) :
  |x| ≤ 2 ^ 15
  := by
  obtain ⟨a, ha, rfl⟩ := tok.int8_vals x hx
  obtain ⟨hlow, hhigh⟩ := (isApInt_iff (by decide)).mp ha
  rw [Int.shiftLeft_eq, abs_le]
  omega

theorem sq_mem {x : ℤ} (hx : x ∈ tok.vals) :
  0 ≤ x * x ∧ x * x ≤ 2 ^ 30
  := by
  have hsq := pow_le_pow_left₀ (abs_nonneg x) (tok.abs_val_le hx) 2
  rw [sq_abs, sq] at hsq
  exact ⟨mul_self_nonneg x, hsq⟩

theorem sumSquares_mem (n : ℕ) :
  0 ≤ sumSquares (tok.vals.take n) ∧ sumSquares (tok.vals.take n) ≤ 960 * 2 ^ 30
  := by
  have hmem : ∀ y ∈ (tok.vals.take n).map (fun x => x * x), 0 ≤ y ∧ y ≤ 2 ^ 30 := by
    intro y hy
    obtain ⟨x, hx, rfl⟩ := List.mem_map.mp hy
    apply tok.sq_mem (List.mem_of_mem_take hx)
  have hlen : ((tok.vals.take n).map fun x => x * x).length ≤ 960 := by
    rw [List.length_map, List.length_take, tok.length_vals]
    apply Nat.min_le_right
  constructor
  · apply List.sum_nonneg
    intro y hy
    apply (hmem y hy).1
  · have hsum := List.sum_le_card_nsmul _ _ fun y hy => (hmem y hy).2
    rw [nsmul_eq_mul] at hsum
    rw [sumSquares]
    have hlen' : (((tok.vals.take n).map fun x => x * x).length : ℤ) ≤ 960 := by exact_mod_cast hlen
    omega

theorem sq_le_sumSquares {x : ℤ} (hx : x ∈ tok.vals) :
  x * x ≤ sumSquares tok.vals
  := by
  apply List.single_le_sum
  · intro y hy
    obtain ⟨z, -, rfl⟩ := List.mem_map.mp hy
    apply mul_self_nonneg
  · apply List.mem_map_of_mem hx

/-- A token with a value has a mean from which the table takes seven bits. -/
theorem meanSquare_mem {x : ℤ} (hx : x ∈ tok.vals) (hne : x ≠ 0) :
  68 ≤ meanSquare tok.vals ∧ meanSquare tok.vals ≤ 2 ^ 30
    ∧ sumSquares tok.vals ≤ 968 * meanSquare tok.vals
  := by
  have hsum := tok.sumSquares_mem C
  rw [List.take_of_length_le tok.length_vals.le] at hsum
  have hsq : 2 ^ 16 ≤ x * x := by
    obtain ⟨a, -, rfl⟩ := tok.int8_vals x hx
    rw [Int.shiftLeft_eq] at hne ⊢
    have ha : a ≠ 0 := by
      rintro rfl
      apply hne (Int.zero_mul _)
    have hpos : 0 < a * a := mul_self_pos.mpr ha
    push_cast
    linarith
  have hle := tok.sq_le_sumSquares hx
  rw [meanSquare, Int.tdiv_eq_ediv_of_nonneg (by omega)]
  change 68 ≤ (sumSquares tok.vals + 960 / 2) / 960 ∧ (sumSquares tok.vals + 960 / 2) / 960 ≤ _
    ∧ _ ≤ 968 * ((sumSquares tok.vals + 960 / 2) / 960)
  omega

/-- The normalised values are at most 63 halves. -/
theorem abs_normedValue_le {x : ℤ} (hx : x ∈ tok.vals) :
  |normedValue tok.vals x| ≤ 8064
  := by
  rcases eq_or_ne x 0 with rfl | hne
  · rw [normedValue, Int.zero_mul]
    decide
  · obtain ⟨hlow, hhigh, hsum⟩ := tok.meanSquare_mem hx hne
    have hcast : ((meanSquare tok.vals).toNat : ℤ) = meanSquare tok.vals :=
      Int.toNat_of_nonneg (by omega)
    have hroot := rsqrtValue_sq_mul_le (y := (meanSquare tok.vals).toNat) (by omega) (by omega)
    rw [hcast] at hroot
    have hinv : rmsInv tok.vals = rsqrtValue (meanSquare tok.vals).toNat * 2 ^ 8 := by
      rw [rmsInv, max_eq_left (by omega)]
    generalize rsqrtValue (meanSquare tok.vals).toNat = root at *
    have hsq := tok.sq_le_sumSquares hx
    have hprod : (x * root) ^ 2 ≤ 1032192 ^ 2 := by
      have hle : x * x * root ^ 2 ≤ 968 * meanSquare tok.vals * root ^ 2 := by
        apply mul_le_mul_of_nonneg_right _ (by positivity)
        omega
      rw [mul_pow, sq x]
      linarith
    obtain ⟨hlow', hhigh'⟩ := abs_le.mp (abs_le_of_sq_le_sq hprod (by decide))
    rw [normedValue, hinv, ← mul_assoc, Int.shiftRight_eq_div_pow, abs_le]
    omega

theorem abs_normValue_le {x g : ℤ} (hx : x ∈ tok.vals) (hg : IsApInt 8 g) :
  |normValue tok.vals x g| ≤ soundMax
  := by
  obtain ⟨hlow, hhigh⟩ := (isApInt_iff (by decide)).mp hg
  have hg' : |g| ≤ 128 := by
    apply abs_le.mpr
    omega
  have hprod : |normedValue tok.vals x * g| ≤ 8064 * 128 := by
    rw [abs_mul]
    apply mul_le_mul (tok.abs_normedValue_le hx) hg' (abs_nonneg g) (by decide)
  obtain ⟨hlow', hhigh'⟩ := abs_le.mp hprod
  rw [normValue, soundMax, Int.shiftRight_eq_div_pow, abs_le]
  omega

theorem rmsInv_mem :
  0 ≤ rmsInv tok.vals ∧ rmsInv tok.vals < 2 ^ 23
  := by
  obtain ⟨hlow, hhigh⟩ := rsqrtValue_mem (max (meanSquare tok.vals).toNat 1)
  rw [rmsInv]
  omega

theorem abs_mul_rmsInv_le {x : ℤ} (hx : x ∈ tok.vals) :
  |x * rmsInv tok.vals| ≤ 2 ^ 15 * 2 ^ 23
  := by
  obtain ⟨hlow, hhigh⟩ := tok.rmsInv_mem
  rw [abs_mul, abs_of_nonneg hlow]
  apply mul_le_mul (tok.abs_val_le hx) hhigh.le hlow
  decide

/-- For loaded activations and any weights, everything fits. -/
theorem rmsnormFits (gamma : GammaVector) :
  RmsnormFits gamma.vals tok.vals
  := by
  constructor
  · intro x hx
    obtain ⟨hlow, hhigh⟩ := tok.sq_mem hx
    apply apInt_of_mem (by decide) <;> omega
  · intro n
    obtain ⟨hlow, hhigh⟩ := tok.sumSquares_mem n
    apply apInt_of_mem (by decide) <;> omega
  · have hsum := tok.sumSquares_mem C
    rw [List.take_of_length_le tok.length_vals.le] at hsum
    rw [meanSquare, Int.tdiv_eq_ediv_of_nonneg (by omega)]
    change 0 ≤ (sumSquares tok.vals + 960 / 2) / 960 ∧ (sumSquares tok.vals + 960 / 2) / 960 < _
    omega
  · obtain ⟨hlow, hhigh⟩ := tok.rmsInv_mem
    apply apInt_of_mem (by decide) <;> omega
  · intro x hx
    obtain ⟨hlow, hhigh⟩ := abs_le.mp (tok.abs_mul_rmsInv_le hx)
    apply apInt_of_mem (by decide) <;> omega
  · intro x hx
    obtain ⟨hlow, hhigh⟩ := abs_le.mp (tok.abs_normedValue_le hx)
    apply apInt_of_mem (by decide) <;> omega
  · intro x hx g hg
    obtain ⟨hlow, hhigh⟩ := abs_le.mp (tok.abs_normValue_le hx (gamma.int8_vals g hg))
    rw [soundMax] at hlow hhigh
    apply apInt_of_mem (by decide) <;> omega

/-- The normalised values, computed in unbounded integers. -/
def normRow (gamma : GammaVector) : List ℤ :=
  List.zipWith (normValue tok.vals) tok.vals gamma.vals

/-- The scale and the codes of the normalised values are sound. -/
theorem soundRow_normRow (gamma : GammaVector) :
  SoundRow (tok.normRow gamma) (tokScale (tok.normRow gamma)) (quantCodes (tok.normRow gamma))
  := by
  apply soundRow_of_le
  intro y hy
  obtain ⟨c, hc, rfl⟩ := List.getElem_of_mem hy
  simp only [normRow, List.getElem_zipWith]
  apply tok.abs_normValue_le (List.getElem_mem _) (gamma.int8_vals _ (List.getElem_mem _))

end LoadedToken

end Kv260
