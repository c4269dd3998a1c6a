import Mathlib.Algebra.Order.Ring.Int
import Mathlib.Data.Int.Basic

/-!
# Common types and model constants

The model dimensions of `common.h`, the fixed-width integers of the kernels, and the
256-bit words of the AXI ports.

An `ap_int<w>` is modelled by the integer it holds.  The operators of `ap_int` widen their
results, so arithmetic is that of `ℤ`, and a value is brought back to its width where it is
assigned or cast: `apInt w x` is `x` assigned to an `ap_int<w>`.  Packed words are bit
vectors; `w.range(hi, lo)` is `w.extractLsb' lo (hi - lo + 1)`, and the assignment
`w.range(hi, lo) = v` is `setRange w lo v`.
-/

set_option autoImplicit false

namespace Kv260

/-! ### Model dimensions -/

/-- `hidden_size`. -/
abbrev C : ℕ := 960
/-- `num_attention_heads`. -/
abbrev hQ : ℕ := 15
/-- `num_key_value_heads`. -/
abbrev hKv : ℕ := 5
/-- `head_dim`. -/
abbrev dHead : ℕ := 64
/-- `intermediate_size`. -/
abbrev ffnDim : ℕ := 2560
/-- Columns of the fused QKV projection. -/
abbrev nQkv : ℕ := C + hKv * dHead * 2
/-- Columns of the fused gate/up projection. -/
abbrev nFfnGateup : ℕ := ffnDim * 2
abbrev numLayers : ℕ := 32
/-- The sequence length the hardware supports. -/
abbrev hwMaxSeq : ℕ := 2048
abbrev maxSeq : ℕ := hwMaxSeq
/-- Rows of the on-chip activation buffers. -/
abbrev maxL : ℕ := 512
/-- Elements of a quantisation group. -/
abbrev grp : ℕ := 32
abbrev kUnroll : ℕ := grp
abbrev tileM : ℕ := 4
abbrev tileN : ℕ := 64
/-- The largest `K` of a decoder GEMM. -/
abbrev maxDecGemmK : ℕ := ffnDim
/-- Tokens of a query tile. -/
abbrev qTile : ℕ := 32
/-- Positions of a KV tile. -/
abbrev kvTile : ℕ := 64
/-- Depth of an ordinary stream. -/
abbrev fifoD : ℕ := 16
/-- Depth of an attention stream. -/
abbrev fifoAttn : ℕ := 64

abbrev imageSize : ℕ := 512
abbrev patchSize : ℕ := 16
/-- Patches in a row of an image. -/
abbrev vitPatchGrid : ℕ := imageSize / patchSize
/-- Tokens of an image before the connector. -/
abbrev vitTokens : ℕ := 1024
abbrev vitC : ℕ := 768
abbrev vitHeads : ℕ := 12
abbrev vitHeadDim : ℕ := 64
abbrev vitQkv : ℕ := vitC * 3
abbrev vitFfnDim : ℕ := vitC * 4
abbrev pixelShuffleFactor : ℕ := 4
abbrev imageTokens : ℕ := vitTokens / (pixelShuffleFactor * pixelShuffleFactor)
abbrev connectorIn : ℕ := vitC * pixelShuffleFactor * pixelShuffleFactor
abbrev connectorOut : ℕ := C

theorem grp_pos : 0 < grp := by decide

theorem tileM_pos : 0 < tileM := by decide

theorem tileN_pos : 0 < tileN := by decide

theorem qTile_pos : 0 < qTile := by decide

theorem kvTile_pos : 0 < kvTile := by decide

/-- Ports, KV buffers and halves of the weights come in pairs, indexed by `Fin 2`. -/
instance neZeroTwo : NeZero (2 : ℕ) := ⟨two_ne_zero⟩

/-! ### Fixed-width integers -/

/-- The value an `ap_int<w>` holds after `x` is assigned to it. -/
def apInt (w : ℕ) (x : ℤ) : ℤ := (x + 2 ^ (w - 1)) % 2 ^ w - 2 ^ (w - 1)

@[simp]
theorem apInt_succ_zero (w : ℕ) :
  apInt (w + 1) 0 = 0
  := by
  have h : (0 : ℤ) < 2 ^ w := pow_pos (by omega) w
  rw [apInt, Nat.add_sub_cancel, zero_add, pow_succ, Int.emod_eq_of_lt h.le (by omega),
    sub_self]

/-- A value that fits an `ap_int<w>` is held unchanged. -/
theorem apInt_of_mem {w : ℕ} (hw : 0 < w) {x : ℤ} (h : -2 ^ (w - 1) ≤ x)
    (h' : x < 2 ^ (w - 1)) :
  apInt w x = x
  := by
  have hpow : (2 : ℤ) ^ w = 2 * 2 ^ (w - 1) := by
    rw [← pow_succ', Nat.sub_add_cancel hw]
  rw [apInt, Int.emod_eq_of_lt (by omega) (by omega)]
  omega

/-- `x` is a value of an `ap_int<w>`. -/
def IsApInt (w : ℕ) (x : ℤ) : Prop := apInt w x = x

instance (w : ℕ) (x : ℤ) : Decidable (IsApInt w x) :=
  inferInstanceAs (Decidable (_ = _))

/-- What an `ap_int<w>` holds lies in its range. -/
theorem apInt_mem {w : ℕ} (hw : 0 < w) (x : ℤ) :
  -2 ^ (w - 1) ≤ apInt w x ∧ apInt w x < 2 ^ (w - 1)
  := by
  have hpow : (2 : ℤ) ^ w = 2 * 2 ^ (w - 1) := by
    rw [← pow_succ', Nat.sub_add_cancel hw]
  have hpos : (0 : ℤ) < 2 ^ w := pow_pos (by decide) w
  have hlow := Int.emod_nonneg (x + 2 ^ (w - 1)) hpos.ne'
  have hhigh := Int.emod_lt_of_pos (x + 2 ^ (w - 1)) hpos
  rw [apInt]
  omega

/-- The values of an `ap_int<w>` are the integers in its range. -/
theorem isApInt_iff {w : ℕ} (hw : 0 < w) {x : ℤ} :
  IsApInt w x ↔ -2 ^ (w - 1) ≤ x ∧ x < 2 ^ (w - 1)
  := by
  constructor
  · intro h
    rw [← show apInt w x = x from h]
    apply apInt_mem hw
  · rintro ⟨h, h'⟩
    apply apInt_of_mem hw h h'

theorem isApInt_apInt {w : ℕ} (hw : 0 < w) (x : ℤ) :
  IsApInt w (apInt w x)
  := by
  obtain ⟨h, h'⟩ := apInt_mem hw x
  apply apInt_of_mem hw h h'

/-! ### Packed words -/

abbrev AXI256 : Type := BitVec 256

/-- Thirty-two weight nibbles. -/
abbrev WgtPack : Type := BitVec 128

/-- The word with the bits `f`. -/
def ofBits (w : ℕ) (f : ℕ → Bool) : BitVec w :=
  (BitVec.iunfoldr (fun i (_ : Unit) => ((), f i)) ()).2

theorem getLsbD_ofBits (w : ℕ) (f : ℕ → Bool) (i : ℕ) :
  (ofBits w f).getLsbD i = (decide (i < w) && f i)
  := by
  rcases Nat.lt_or_ge i w with h | h
  · simp only [h, decide_true, Bool.true_and]
    apply BitVec.iunfoldr_getLsbD (fun _ => ()) ⟨i, h⟩ fun _ => rfl
  · rw [BitVec.getLsbD_of_ge _ _ h, decide_eq_false (Nat.not_lt.mpr h), Bool.false_and]

theorem getLsbD_ofBits_of_lt {w i : ℕ} (f : ℕ → Bool) (hi : i < w) :
  (ofBits w f).getLsbD i = f i
  := by
  rw [getLsbD_ofBits, decide_eq_true hi, Bool.true_and]

/-- A bit of a range is a bit of the word. -/
theorem getLsbD_extractLsb'_of_lt {n m i : ℕ} (w : BitVec n) (lo : ℕ) (hi : i < m) :
  (w.extractLsb' lo m).getLsbD i = w.getLsbD (lo + i)
  := by
  rw [BitVec.getLsbD_extractLsb', decide_eq_true hi, Bool.true_and]

/-- The assignment `w.range(lo + m - 1, lo) = v`. -/
def setRange {n m : ℕ} (w : BitVec n) (lo : ℕ) (v : BitVec m) : BitVec n :=
  ofBits n fun i => if lo ≤ i ∧ i < lo + m then v.getLsbD (i - lo) else w.getLsbD i

/-- The assigned range holds what was assigned. -/
theorem extractLsb'_setRange {n m : ℕ} (w : BitVec n) {lo : ℕ} (v : BitVec m)
    (h : lo + m ≤ n) :
  (setRange w lo v).extractLsb' lo m = v
  := by
  apply BitVec.eq_of_getLsbD_eq
  intro i hi
  have hbit : lo + i < n := by omega
  rw [getLsbD_extractLsb'_of_lt _ _ hi, setRange, getLsbD_ofBits_of_lt _ hbit, if_pos (by omega),
    Nat.add_sub_cancel_left]

/-- A range disjoint from the assigned one is unchanged. -/
theorem extractLsb'_setRange_of_disjoint {n m k : ℕ} (w : BitVec n) {lo lo' : ℕ}
    (v : BitVec m) (h : lo' + k ≤ lo ∨ lo + m ≤ lo') (h' : lo' + k ≤ n) :
  (setRange w lo v).extractLsb' lo' k = w.extractLsb' lo' k
  := by
  apply BitVec.eq_of_getLsbD_eq
  intro i hi
  have hbit : lo' + i < n := by omega
  rw [getLsbD_extractLsb'_of_lt _ _ hi, getLsbD_extractLsb'_of_lt _ _ hi, setRange,
    getLsbD_ofBits_of_lt _ hbit, if_neg (by omega)]

/-- The word whose first `k` lanes of `m` bits are assigned in turn from `f`. -/
def packLanes (n : ℕ) {m : ℕ} (k : ℕ) (f : ℕ → BitVec m) : BitVec n :=
  (List.range k).foldl (fun w i => setRange w (i * m) (f i)) 0

theorem extractLsb'_packLanes {n m k : ℕ} (f : ℕ → BitVec m) (hk : k * m ≤ n) {i : ℕ}
    (hi : i < k) :
  (packLanes n k f).extractLsb' (i * m) m = f i
  := by
  induction k with
  | zero => cases hi
  | succ k ih =>
      rw [Nat.succ_mul] at hk
      rw [packLanes, List.range_succ, List.foldl_append, List.foldl_cons, List.foldl_nil]
      rcases Nat.lt_succ_iff_lt_or_eq.mp hi with hlt | rfl
      · have hmul := Nat.mul_le_mul_right m (Nat.succ_le_of_lt hlt)
        rw [Nat.succ_mul] at hmul
        rw [extractLsb'_setRange_of_disjoint _ _ (.inl hmul) (by omega)]
        apply ih (by omega) hlt
      · apply extractLsb'_setRange _ _ hk

/-! ### Byte memories -/

/-- The `i`-th 256-bit word of a byte memory, least significant byte first. -/
def axiWord (bytes : ℕ → BitVec 8) (i : ℕ) : AXI256 :=
  ofBits 256 fun b => (bytes (32 * i + b / 8)).getLsbD (b % 8)

/-- The lanes of a word are its bytes. -/
theorem extractLsb'_axiWord (bytes : ℕ → BitVec 8) (i : ℕ) {b : ℕ} (hb : b < 32) :
  (axiWord bytes i).extractLsb' (b * 8) 8 = bytes (32 * i + b)
  := by
  apply BitVec.eq_of_getLsbD_eq
  intro j hj
  have hbit : b * 8 + j < 256 := by omega
  have hdiv : (b * 8 + j) / 8 = b := by omega
  have hmod : (b * 8 + j) % 8 = j := by omega
  rw [getLsbD_extractLsb'_of_lt _ _ hj, axiWord, getLsbD_ofBits_of_lt _ hbit, hdiv, hmod]

end Kv260
