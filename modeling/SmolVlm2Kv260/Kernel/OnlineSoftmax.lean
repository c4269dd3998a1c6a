import SmolVlm2Kv260.Kernel.Scores
import Mathlib.Order.Bounds.Defs

/-!
# The state of the online softmax

Between KV tiles `flash_attention_head` keeps the largest score of a query and the denominator of
its softmax.  A tile lets the denominator decay, by a factor of 1 when the maximum stays, which is
32767 / 32768 in Q1.15, and adds the weights of its positions.

The maximum starts at -32767, in each tile again.  A query with a score from there on ends with
the largest of its scores and a positive denominator as long as the denominator fits its register:
with `maxKeys` positions it always does, and beyond it overflows when all of them have the largest
weight.
-/

set_option autoImplicit false

namespace Kv260

open Blocks

/-! ### Weights -/

theorem approxExpQ15_mem (x : ℤ) :
  0 ≤ approxExpQ15 x ∧ approxExpQ15 x ≤ q15OneI16
  := by
  have hlut : ∀ y ∈ kExpNegLutQ15, 0 ≤ y ∧ y ≤ q15OneI16 := by decide +kernel
  simp only [approxExpQ15]
  split
  · decide
  · split
    · decide
    · apply forall_getD hlut (by decide)

theorem approxExpQ15_zero :
  approxExpQ15 0 = q15OneI16
  := rfl

/-- What is left of a denominator when the maximum stays. -/
def decay (l : ℤ) : ℤ := l * q15OneI16 / 2 ^ 15

theorem decay_mono {l l' : ℤ} (h : l ≤ l') :
  decay l ≤ decay l'
  := by
  rw [decay, decay, q15OneI16]
  omega

/-- A denominator decays by no more than one, up to `2 ^ 15`. -/
theorem le_decay {a l : ℤ} (h : a ≤ l) (ha : a ≤ 2 ^ 15) :
  a - 1 ≤ decay l
  := by
  rw [decay, q15OneI16]
  omega

/-- Rescaled to a larger maximum, a denominator does not decay less. -/
theorem rescaled_mem {l : ℤ} (hl : 0 ≤ l) (x : ℤ) :
  0 ≤ l * approxExpQ15 x / 2 ^ 15 ∧ l * approxExpQ15 x / 2 ^ 15 ≤ decay l
  := by
  obtain ⟨hnonneg, hle⟩ := approxExpQ15_mem x
  constructor
  · apply Int.ediv_nonneg (mul_nonneg hl hnonneg) (by decide)
  · apply Int.ediv_le_ediv (by decide)
    apply mul_le_mul_of_nonneg_left hle hl

/-! ### One tile -/

section Tile

variable (bank : KVCacheHead) (kvLen : ℕ) (qRow : List ℤ)

/-- The weight of a position when the maximum is `m`. -/
def keyWeight (m : ℤ) (pos : ℕ) : ℤ := approxExpQ15 (apInt 32 (score bank.kPack qRow pos - m))

/-- The sum of the weights of a tile. -/
def tileWeight (m : ℤ) (kvt : ℕ) : ℤ :=
  ∑ kv ∈ Finset.range (tileLen kvTile kvLen kvt), keyWeight bank qRow m (kvt * kvTile + kv)

theorem keyWeight_mem (m : ℤ) (pos : ℕ) :
  0 ≤ keyWeight bank qRow m pos ∧ keyWeight bank qRow m pos ≤ q15OneI16
  := approxExpQ15_mem _

/-- The largest score has the weight 1. -/
theorem keyWeight_score (pos : ℕ) :
  keyWeight bank qRow (score bank.kPack qRow pos) pos = q15OneI16
  := by
  rw [keyWeight, sub_self, apInt_succ_zero 31, approxExpQ15_zero]

theorem tileWeight_nonneg (m : ℤ) (kvt : ℕ) :
  0 ≤ tileWeight bank kvLen qRow m kvt
  := Finset.sum_nonneg fun _ _ => (keyWeight_mem bank qRow m _).1

theorem tileWeight_le (m : ℤ) (kvt : ℕ) :
  tileWeight bank kvLen qRow m kvt ≤ tileLen kvTile kvLen kvt * q15OneI16
  := by
  calc
    tileWeight bank kvLen qRow m kvt
      ≤ ∑ _kv ∈ Finset.range (tileLen kvTile kvLen kvt), q15OneI16 :=
      Finset.sum_le_sum fun _ _ => (keyWeight_mem bank qRow m _).2
    _ = tileLen kvTile kvLen kvt * q15OneI16 := by
      rw [Finset.sum_const, Finset.card_range, nsmul_eq_mul]

/-- A tile with the largest score has at least its weight. -/
theorem le_tileWeight {m : ℤ} {kvt pos : ℕ} (hpos : pos ∈ tilePositions kvLen kvt)
    (hscore : score bank.kPack qRow pos = m) :
  q15OneI16 ≤ tileWeight bank kvLen qRow m kvt
  := by
  obtain ⟨kv, hkv, rfl⟩ := List.mem_map.mp hpos
  have hself := keyWeight_score bank qRow (kvt * kvTile + kv)
  rw [hscore] at hself
  have hnonneg : ∀ i ∈ Finset.range (tileLen kvTile kvLen kvt),
      0 ≤ keyWeight bank qRow m (kvt * kvTile + i) := by
    intro i _
    apply (keyWeight_mem bank qRow m _).1
  calc
    q15OneI16 = keyWeight bank qRow m (kvt * kvTile + kv) := hself.symm
    _ ≤ tileWeight bank kvLen qRow m kvt :=
      Finset.single_le_sum hnonneg (Finset.mem_range.mpr (List.mem_range.mp hkv))

/-- A tile rescales the denominator and adds its weights. -/
theorem kvTileStep_l (st : QueryState) (kvt : ℕ) :
  (kvTileStep bank kvLen qRow st kvt).l
    = apInt 32
      (st.l * approxExpQ15 (apInt 32 (st.m - (kvTileStep bank kvLen qRow st kvt).m)) / 2 ^ 15
        + tileWeight bank kvLen qRow (kvTileStep bank kvLen qRow st kvt).m kvt)
  := by
  simp only [kvTileStep, softmax_l]
  rw [tilePositions, List.foldl_map, foldl_apInt_add_from, Int.shiftRight_eq_div_pow]
  rfl

theorem kvTileStep_m_le_iff (st : QueryState) (kvt : ℕ) {b : ℤ} (hb : -32767 ≤ b) :
  (kvTileStep bank kvLen qRow st kvt).m ≤ b
    ↔ st.m ≤ b ∧ ∀ pos ∈ tilePositions kvLen kvt, score bank.kPack qRow pos ≤ b
  := by
  have hmax : maxScore bank.kPack qRow (tilePositions kvLen kvt) ≤ b
      ↔ ∀ pos ∈ tilePositions kvLen kvt, score bank.kPack qRow pos ≤ b := by
    rw [maxScore, foldl_max_le_iff (score bank.kPack qRow)]
    apply and_iff_right hb
  rw [← hmax]
  simp only [kvTileStep]
  omega

theorem kvTileStep_m_mem (st : QueryState) (kvt : ℕ) (hst : -32767 ≤ st.m) :
  (kvTileStep bank kvLen qRow st kvt).m = st.m
    ∨ ∃ pos ∈ tilePositions kvLen kvt,
      score bank.kPack qRow pos = (kvTileStep bank kvLen qRow st kvt).m
  := by
  simp only [kvTileStep]
  split
  · left
    rfl
  · rename_i hle
    rcases foldl_max_mem (score bank.kPack qRow) (tilePositions kvLen kvt) (-32767) with h | h
    · left
      rw [maxScore, h] at hle ⊢
      omega
    · right
      apply h

end Tile

/-! ### Many tiles -/

/-- A query after `t` tiles. -/
def queryAfter (bank : KVCacheHead) (kvLen : ℕ) (qRow : List ℤ) (t : ℕ) : QueryState :=
  (List.range t).foldl (kvTileStep bank kvLen qRow) QueryState.init

/-- The largest denominator after `t` tiles. -/
def fullDenominator : ℕ → ℤ
  | 0 => 0
  | t + 1 => decay (fullDenominator t) + kvTile * q15OneI16

theorem fullDenominator_le_succ (t : ℕ) :
  fullDenominator t ≤ fullDenominator (t + 1)
  := by
  induction t with
  | zero => decide
  | succ t ih =>
      rw [fullDenominator, fullDenominator]
      apply add_le_add_left (decay_mono ih)

theorem fullDenominator_mono {s t : ℕ} (h : s ≤ t) :
  fullDenominator s ≤ fullDenominator t
  := by
  induction h with
  | refl => apply Int.le_refl
  | step _ ih => apply Int.le_trans ih (fullDenominator_le_succ _)

/-- The positions that fill the register of the denominator with the largest weights. -/
def maxKeys : ℕ := 66584

theorem fullDenominator_maxKeys :
  fullDenominator 1040 = 2146756396
  := by
  decide +kernel

/-- Up to `maxKeys` positions, the denominator fits its register. -/
theorem fullDenominator_fits {kvLen t : ℕ} (hlen : kvLen ≤ maxKeys)
    (ht : t < tileCount kvTile kvLen) :
  decay (fullDenominator t) + tileLen kvTile kvLen t * q15OneI16 < 2 ^ 31
  := by
  have hlt := lt_of_lt_tileCount kvTile_pos ht
  have hfull : tileLen kvTile kvLen t ≤ kvTile := tileLen_le kvTile kvLen t
  rw [maxKeys] at hlen
  rcases Nat.lt_or_ge t 1040 with h | h
  · have hle := fullDenominator_mono (Nat.succ_le_of_lt h)
    rw [fullDenominator_maxKeys, fullDenominator] at hle
    rw [q15OneI16] at hle ⊢
    change tileLen kvTile kvLen t ≤ 64 at hfull
    change decay (fullDenominator t) + 64 * 32767 ≤ _ at hle
    omega
  · obtain rfl : t = 1040 := by
      change t * 64 < kvLen at hlt
      omega
    have hlast : tileLen kvTile kvLen 1040 ≤ 24 := by
      rw [tileLen]
      simp only [kvTile] at *
      split <;> omega
    rw [fullDenominator_maxKeys, decay, q15OneI16]
    omega

section Query

variable {bank : KVCacheHead} {kvLen : ℕ} {qRow : List ℤ}

theorem queryAfter_succ (t : ℕ) :
  queryAfter bank kvLen qRow (t + 1) = kvTileStep bank kvLen qRow (queryAfter bank kvLen qRow t) t
  := by
  rw [queryAfter, List.range_succ, List.foldl_append]
  rfl

/-- A position of the first `t` tiles has the score `m`. -/
def Attained (bank : KVCacheHead) (kvLen : ℕ) (qRow : List ℤ) (t : ℕ) (m : ℤ) : Prop :=
  ∃ kvt < t, ∃ pos ∈ tilePositions kvLen kvt, score bank.kPack qRow pos = m

theorem queryAfter_m_le_iff (t : ℕ) {b : ℤ} (hb : -32767 ≤ b) :
  (queryAfter bank kvLen qRow t).m ≤ b
    ↔ ∀ kvt < t, ∀ pos ∈ tilePositions kvLen kvt, score bank.kPack qRow pos ≤ b
  := by
  induction t with
  | zero =>
      constructor
      · intro _ kvt hkvt
        cases hkvt
      · intro _
        apply hb
  | succ t ih =>
      rw [queryAfter_succ, kvTileStep_m_le_iff bank kvLen qRow _ t hb, ih, Nat.forall_lt_succ_right]

theorem neg_le_queryAfter_m (t : ℕ) :
  -32767 ≤ (queryAfter bank kvLen qRow t).m
  := by
  induction t with
  | zero => apply le_refl
  | succ t ih =>
      rw [queryAfter_succ]
      apply le_trans ih
      simp only [kvTileStep]
      split <;> omega

/-- The maximum is that before the first tile, or a score. -/
theorem queryAfter_m_mem (t : ℕ) :
  (queryAfter bank kvLen qRow t).m = -32767
    ∨ Attained bank kvLen qRow t (queryAfter bank kvLen qRow t).m
  := by
  induction t with
  | zero =>
      left
      rfl
  | succ t ih =>
      rw [queryAfter_succ]
      rcases kvTileStep_m_mem bank kvLen qRow (queryAfter bank kvLen qRow t) t
        (neg_le_queryAfter_m t) with h | ⟨pos, hpos, h⟩
      · rw [h]
        apply ih.imp_right
        rintro ⟨kvt, hkvt, hattained⟩
        use kvt, Nat.lt_succ_of_lt hkvt
      · right
        use t, Nat.lt_succ_self t, pos, hpos

theorem Attained.le {t : ℕ} {m : ℤ} (h : Attained bank kvLen qRow t m) :
  m ≤ (queryAfter bank kvLen qRow t).m
  := by
  obtain ⟨kvt, hkvt, pos, hpos, rfl⟩ := h
  apply (queryAfter_m_le_iff t (neg_le_queryAfter_m t)).mp (le_refl _) kvt hkvt pos hpos

/-- Without overflow, the denominator is at most the largest one, and one that has seen its
maximum loses at most one in each tile. -/
theorem queryAfter_l_mem (hlen : kvLen ≤ maxKeys) {t : ℕ} (ht : t ≤ tileCount kvTile kvLen) :
  0 ≤ (queryAfter bank kvLen qRow t).l
    ∧ (queryAfter bank kvLen qRow t).l ≤ fullDenominator t
    ∧ (Attained bank kvLen qRow t (queryAfter bank kvLen qRow t).m →
      2 ^ 15 - t ≤ (queryAfter bank kvLen qRow t).l)
  := by
  induction t with
  | zero =>
      refine ⟨le_refl _, le_refl _, ?_⟩
      rintro ⟨kvt, hkvt, -⟩
      cases hkvt
  | succ t ih =>
      obtain ⟨hnonneg, hle, hattained⟩ := ih (Nat.le_of_succ_le ht)
      have hm := (kvTileStep_m_le_iff bank kvLen qRow (queryAfter bank kvLen qRow t) t
        (neg_le_queryAfter_m (t + 1))).mp (le_of_eq (congrArg _ (queryAfter_succ t).symm))
      have hl := kvTileStep_l bank kvLen qRow (queryAfter bank kvLen qRow t) t
      rw [← queryAfter_succ] at hl
      obtain ⟨hkept, hkept'⟩ := rescaled_mem hnonneg
        (apInt 32 ((queryAfter bank kvLen qRow t).m - (queryAfter bank kvLen qRow (t + 1)).m))
      have hdecay := decay_mono hle
      have hweight := tileWeight_nonneg bank kvLen qRow (queryAfter bank kvLen qRow (t + 1)).m t
      have hweight' := tileWeight_le bank kvLen qRow (queryAfter bank kvLen qRow (t + 1)).m t
      have hfits := fullDenominator_fits hlen (Nat.lt_of_succ_le ht)
      rw [apInt_of_mem (by decide) (by omega) (by omega)] at hl
      rw [hl]
      refine ⟨by omega, ?_, ?_⟩
      · have htile : (tileLen kvTile kvLen t : ℤ) * q15OneI16 ≤ kvTile * q15OneI16 := by
          apply mul_le_mul_of_nonneg_right _ (by decide)
          apply Int.ofNat_le.mpr (tileLen_le kvTile kvLen t)
        rw [fullDenominator]
        omega
      · rintro ⟨kvt, hkvt, pos, hpos, hscore⟩
        rcases Nat.lt_succ_iff_lt_or_eq.mp hkvt with hlt | rfl
        · -- the maximum is from an earlier tile, so it has stayed
          have hold : Attained bank kvLen qRow t (queryAfter bank kvLen qRow (t + 1)).m := by
            use kvt, hlt, pos, hpos
          have hsame := le_antisymm hm.1 hold.le
          rw [← hsame] at hold
          have hlow := le_decay (hattained hold) (by omega)
          rw [← hsame, sub_self, apInt_succ_zero 31, approxExpQ15_zero, ← decay]
          push_cast
          rw [hsame]
          omega
        · have hlargest := le_tileWeight bank kvLen qRow hpos hscore
          rw [q15OneI16] at hlargest
          push_cast
          omega

theorem flashQuery_eq (bank : KVCacheHead) (kvLen : ℕ) (qRow : List ℤ) :
  flashQuery bank kvLen qRow = queryAfter bank kvLen qRow (tileCount kvTile kvLen)
  := rfl

theorem attained_tileCount_iff {m : ℤ} :
  Attained bank kvLen qRow (tileCount kvTile kvLen) m
    ↔ ∃ pos < kvLen, score bank.kPack qRow pos = m
  := by
  simp only [Attained, tilePositions, List.mem_map, List.mem_range]
  constructor
  · rintro ⟨kvt, hkvt, _, ⟨kv, hkv, rfl⟩, hscore⟩
    use kvt * kvTile + kv, tile_lt hkv
  · rintro ⟨pos, hpos, hscore⟩
    obtain ⟨kvt, hkvt, kv, hkv, rfl⟩ := (lt_iff_exists_tile kvTile_pos).mp hpos
    use kvt, hkvt, kvt * kvTile + kv
    constructor
    · use kv
    · apply hscore

/-- A query ends with the largest of its scores, and with a positive denominator. -/
def Nondegenerate (bank : KVCacheHead) (kvLen : ℕ) (qRow : List ℤ) : Prop :=
  IsGreatest {s | ∃ pos < kvLen, score bank.kPack qRow pos = s} (flashQuery bank kvLen qRow).m
    ∧ 0 < (flashQuery bank kvLen qRow).l

theorem nondegenerate_iff (hlen : kvLen ≤ maxKeys) :
  Nondegenerate bank kvLen qRow ↔ ∃ pos < kvLen, -32767 ≤ score bank.kPack qRow pos
  := by
  have hlow : -32767 ≤ (flashQuery bank kvLen qRow).m := neg_le_queryAfter_m _
  have hupper : ∀ pos < kvLen, score bank.kPack qRow pos ≤ (flashQuery bank kvLen qRow).m := by
    intro pos hpos
    apply Attained.le
    apply attained_tileCount_iff.mpr
    use pos
  constructor
  · rintro ⟨⟨⟨pos, hpos, hscore⟩, -⟩, -⟩
    use pos, hpos
    rw [hscore]
    apply hlow
  · rintro ⟨pos, hpos, hscore⟩
    have hattained : Attained bank kvLen qRow (tileCount kvTile kvLen)
        (flashQuery bank kvLen qRow).m := by
      rcases @queryAfter_m_mem bank kvLen qRow (tileCount kvTile kvLen) with h | h
      · apply attained_tileCount_iff.mpr
        use pos, hpos
        apply le_antisymm (hupper pos hpos)
        rw [flashQuery_eq, h]
        apply hscore
      · apply h
    refine ⟨⟨attained_tileCount_iff.mp hattained, ?_⟩, ?_⟩
    · rintro _ ⟨pos', hpos', rfl⟩
      apply hupper pos' hpos'
    · have hcount : tileCount kvTile kvLen ≤ 1041 := by
        rw [maxKeys] at hlen
        simp only [tileCount, kvTile]
        omega
      have hl := (queryAfter_l_mem hlen (le_refl _)).2.2 hattained
      rw [flashQuery_eq]
      omega

end Query

/-! ### Too many positions -/

/-- A bank whose nibbles are 15 at some positions, and zero at the others. -/
def bankWhere (p : ℕ → Bool) : KVCacheHead where
  kPack c := if p (c / (dHead / grp)) then BitVec.allOnes 128 else 0
  vPack c := if p (c / (dHead / grp)) then BitVec.allOnes 128 else 0

def bankUntil (n : ℕ) : KVCacheHead := bankWhere (· < n)

theorem storedNibble_bankWhere (p : ℕ → Bool) (pos : ℕ) :
  storedNibble (bankWhere p).kPack pos 0 = if p pos then 15 else 0
  := by
  have hpos : bufIdx pos (0 / grp) / (dHead / grp) = pos := Nat.mul_div_cancel pos (by decide)
  rw [storedNibble, bankWhere]
  simp only [hpos]
  split <;> rfl

/-- For a query of 1024 in its first dimension, such positions have the score 896, and the others
-1024. -/
theorem score_bankWhere (p : ℕ → Bool) {qRow : List ℤ}
    (hq : ∀ d, qRow.getD d 0 = if d = 0 then 1024 else 0) (pos : ℕ) :
  score (bankWhere p).kPack qRow pos = if p pos then 896 else -1024
  := by
  have hdot : narrowedDot (bankWhere p).kPack qRow pos
      = apInt 16 1024 * (storedNibble (bankWhere p).kPack pos 0 - 8) := by
    rw [narrowedDot, Finset.sum_eq_single_of_mem 0 (Finset.mem_range.mpr (by decide))]
    · rw [dequantNibble_eq, hq, if_pos rfl]
    · intro d _ hne
      rw [hq, if_neg hne, apInt_succ_zero 15, zero_mul]
  rw [score_eq, hdot, storedNibble_bankWhere]
  split <;> decide

/-- The query of a single value 1024. -/
theorem getD_single (d : ℕ) :
  ([1024] : List ℤ).getD d 0 = if d = 0 then 1024 else 0
  := by
  cases d with
  | zero => rfl
  | succ d => rfl

theorem score_bankUntil (n pos : ℕ) :
  score (bankUntil n).kPack [1024] pos = if pos < n then 896 else -1024
  := by
  rw [bankUntil, score_bankWhere _ getD_single]
  simp only [decide_eq_true_eq]

theorem keyWeight_bankUntil (n pos : ℕ) :
  keyWeight (bankUntil n) [1024] 896 pos = if pos < n then q15OneI16 else 0
  := by
  rw [keyWeight, score_bankUntil]
  split <;> decide

theorem tileWeight_bankUntil (kvLen n kvt : ℕ) :
  tileWeight (bankUntil n) kvLen [1024] 896 kvt
    = min (tileLen kvTile kvLen kvt) (n - kvt * kvTile) * q15OneI16
  := by
  have hsum : ∀ len : ℕ, ∑ kv ∈ Finset.range len, keyWeight (bankUntil n) [1024] 896
      (kvt * kvTile + kv) = (min len (n - kvt * kvTile) : ℕ) * q15OneI16 := by
    intro len
    induction len with
    | zero => rw [Finset.sum_range_zero, Nat.zero_min, Nat.cast_zero, zero_mul]
    | succ len ih =>
        rw [Finset.sum_range_succ, ih, keyWeight_bankUntil, q15OneI16]
        split <;> omega
  apply hsum

section Overflow

variable {kvLen n : ℕ} (hlen : 0 < kvLen) (hn : 0 < n)

include hlen hn

theorem queryAfter_m_bankUntil {t : ℕ} (ht : 0 < t) :
  (queryAfter (bankUntil n) kvLen [1024] t).m = 896
  := by
  apply le_antisymm
  · apply (queryAfter_m_le_iff t (by decide)).mpr
    intro kvt _ pos _
    rw [score_bankUntil]
    split <;> decide
  · apply Attained.le
    use 0, ht, 0
    constructor
    · apply List.mem_map.mpr
      use 0
      constructor
      · apply List.mem_range.mpr
        simp only [tileLen, kvTile]
        split <;> omega
      · rfl
    · rw [score_bankUntil, if_pos hn]

theorem queryAfter_l_succ_bankUntil (t : ℕ) :
  (queryAfter (bankUntil n) kvLen [1024] (t + 1)).l
    = apInt 32 (decay (queryAfter (bankUntil n) kvLen [1024] t).l
      + min (tileLen kvTile kvLen t) (n - t * kvTile) * q15OneI16)
  := by
  have hl := kvTileStep_l (bankUntil n) kvLen [1024] (queryAfter (bankUntil n) kvLen [1024] t) t
  rw [← queryAfter_succ, queryAfter_m_bankUntil hlen hn (Nat.succ_pos t),
    tileWeight_bankUntil] at hl
  rw [hl]
  rcases Nat.eq_zero_or_pos t with rfl | ht
  · rfl
  · rw [queryAfter_m_bankUntil hlen hn ht, sub_self, apInt_succ_zero 31, approxExpQ15_zero, decay]

end Overflow

section Beyond

variable {kvLen : ℕ} (hlen : maxKeys < kvLen)

include hlen

/-- Full tiles of the largest weight add up to the largest denominator. -/
theorem queryAfter_l_full {t : ℕ} (ht : t ≤ 1040) :
  (queryAfter (bankUntil (maxKeys + 1)) kvLen [1024] t).l = fullDenominator t
  := by
  induction t with
  | zero => rfl
  | succ t ih =>
      have hfull : min (tileLen kvTile kvLen t) (maxKeys + 1 - t * kvTile) = kvTile := by
        simp only [maxKeys, tileLen, kvTile] at hlen ⊢
        rw [if_pos (by omega)]
        omega
      have hnonneg := fullDenominator_mono (Nat.zero_le (t + 1))
      have hmax := fullDenominator_mono ht
      rw [fullDenominator_maxKeys] at hmax
      rw [queryAfter_l_succ_bankUntil (Nat.zero_lt_of_lt hlen) (Nat.add_one_pos _),
        ih (Nat.le_of_succ_le ht), hfull]
      change apInt 32 (fullDenominator (t + 1)) = _
      apply apInt_of_mem (by decide) _ (by omega)
      apply le_trans _ hnonneg
      decide

/-- The next position makes the denominator negative, and so it stays. -/
theorem queryAfter_l_neg {t : ℕ} (ht : 1041 ≤ t) :
  (queryAfter (bankUntil (maxKeys + 1)) kvLen [1024] t).l < 0
  := by
  have hstep := queryAfter_l_succ_bankUntil (Nat.zero_lt_of_lt hlen) (Nat.add_one_pos maxKeys)
  induction t, ht using Nat.le_induction with
  | base =>
      have hlast : min (tileLen kvTile kvLen 1040) (maxKeys + 1 - 1040 * kvTile) = 25 := by
        simp only [maxKeys, tileLen, kvTile] at hlen ⊢
        split <;> omega
      rw [hstep, queryAfter_l_full hlen (le_refl _), hlast, fullDenominator_maxKeys]
      decide +kernel
  | succ t ht ih =>
      have hnone : min (tileLen kvTile kvLen t) (maxKeys + 1 - t * kvTile) = 0 := by
        simp only [maxKeys, kvTile]
        omega
      have hlow : -2 ^ 31 ≤ (queryAfter (bankUntil (maxKeys + 1)) kvLen [1024] t).l := by
        obtain ⟨t, rfl⟩ := Nat.exists_eq_succ_of_ne_zero (Nat.ne_of_gt (Nat.zero_lt_of_lt ht))
        rw [hstep]
        apply (apInt_mem (by decide) _).1
      rw [hstep, hnone, Nat.cast_zero, zero_mul, add_zero, decay, q15OneI16,
        apInt_of_mem (by decide) (by omega) (by omega)]
      omega

end Beyond

/-- Up to `maxKeys` positions, a query ends with the largest of its scores and a positive
denominator exactly when it has a score from -32767 on; and with more positions, there is a query
with such a score that does not. -/
theorem flashQuery_nondegenerate_iff (kvLen : ℕ) :
  (kvLen ≤ maxKeys → ∀ bank qRow,
      (Nondegenerate bank kvLen qRow ↔ ∃ pos < kvLen, -32767 ≤ score bank.kPack qRow pos))
    ∧ (maxKeys < kvLen → ∃ bank qRow,
      (∃ pos < kvLen, -32767 ≤ score bank.kPack qRow pos) ∧ ¬ Nondegenerate bank kvLen qRow)
  := by
  constructor
  · intro hlen bank qRow
    apply nondegenerate_iff hlen
  · intro hlen
    use bankUntil (maxKeys + 1), [1024]
    constructor
    · use 0, Nat.zero_lt_of_lt hlen
      rw [score_bankUntil, if_pos (Nat.add_one_pos maxKeys)]
      decide
    · rintro ⟨-, hpos⟩
      have hneg : (flashQuery (bankUntil (maxKeys + 1)) kvLen [1024]).l < 0 := by
        apply queryAfter_l_neg hlen
        simp only [maxKeys, tileCount, kvTile] at hlen ⊢
        omega
      omega

/-- The scores of a single position, all of whose nibbles are 15, for a query of the least
`INT16`s lie far below -32767. -/
theorem not_nondegenerate :
  score (bankUntil 1).kPack (List.replicate dHead (-32768)) 0 = -1835008
    ∧ (flashQuery (bankUntil 1) 1 (List.replicate dHead (-32768))).m = -32767
    ∧ (flashQuery (bankUntil 1) 1 (List.replicate dHead (-32768))).l = 0
    ∧ ¬ Nondegenerate (bankUntil 1) 1 (List.replicate dHead (-32768))
  := by
  have hl : (flashQuery (bankUntil 1) 1 (List.replicate dHead (-32768))).l = 0 := by
    decide +kernel
  refine ⟨by decide +kernel, by decide +kernel, hl, ?_⟩
  rintro ⟨-, hpos⟩
  omega

end Kv260
