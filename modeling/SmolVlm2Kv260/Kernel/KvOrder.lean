import SmolVlm2Kv260.Kernel.KvRoundTrip
import SmolVlm2Kv260.Kernel.QuantSound

/-!
# The order of the stored nibbles

`kv_cache_write` keeps the order of a group as long as the quotients by the scale fit: the scale
is what an `INT8` holds of an eighth of the largest absolute value, and a quotient loses its
multiples of 256 before it is clamped.

* For a single group, the order is kept exactly when the residues of the quotients stay on their
  side of zero and grow with the values (`ResiduesInOrder`).
* All groups of one largest absolute value keep their order exactly when its scale is positive
  and it is less than 120 scales (`MagnitudeKeepsOrder`).
-/

set_option autoImplicit false

namespace Kv260

open Proc Blocks

/-! ### Nibbles as residues -/

/-- The nibble for a value, as a number. -/
def nibbleOf (sc x : ℤ) : ℤ := (quantNibble sc x).toNat

/-- Above zero a quotient is kept up to 119 and capped at 7, below zero up to 136 and at 8. -/
theorem nibbleOf_eq (sc x : ℤ) :
  nibbleOf sc x = if x.tdiv sc % 256 ≤ 119 then 8 + min 7 (x.tdiv sc % 256)
    else 8 - min 8 (-x.tdiv sc % 256)
  := by
  rw [nibbleOf, quantNibble_toNat, apInt]
  omega

/-- The nibbles of a group are in the order of its values, and zero is stored as eight. -/
def NibblesInOrder (vals : List ℤ) : Prop :=
  ∀ a ∈ vals, ∀ b ∈ vals,
    (a ≤ b → nibbleOf (groupScale vals) a ≤ nibbleOf (groupScale vals) b)
      ∧ (0 ≤ a → 8 ≤ nibbleOf (groupScale vals) a)
      ∧ (a ≤ 0 → nibbleOf (groupScale vals) a ≤ 8)

/-- The residues of the quotients by the scale stay on their side of zero, and grow with the
values as far as they are not capped. -/
structure ResiduesInOrder (vals : List ℤ) : Prop where
  nonneg : ∀ a ∈ vals, 0 ≤ a → a.tdiv (groupScale vals) % 256 ≤ 119
  nonpos : ∀ a ∈ vals, a ≤ 0 → -a.tdiv (groupScale vals) % 256 ≤ 136
  above : ∀ a ∈ vals, ∀ b ∈ vals, 0 ≤ a → a ≤ b →
    min 7 (a.tdiv (groupScale vals) % 256) ≤ min 7 (b.tdiv (groupScale vals) % 256)
  below : ∀ a ∈ vals, ∀ b ∈ vals, a ≤ b → b ≤ 0 →
    min 8 (-b.tdiv (groupScale vals) % 256) ≤ min 8 (-a.tdiv (groupScale vals) % 256)

variable {vals : List ℤ}

theorem residuesInOrder_of_nibblesInOrder (h : NibblesInOrder vals) :
  ResiduesInOrder vals
  := by
  simp only [NibblesInOrder, nibbleOf_eq] at h
  constructor
  · intro a ha hpos
    have hside := (h a ha a ha).2.1 hpos
    omega
  · intro a ha hneg
    have hside := (h a ha a ha).2.2 hneg
    omega
  · intro a ha b hb hpos hle
    have hsideA := (h a ha a ha).2.1 hpos
    have hsideB := (h b hb b hb).2.1 (le_trans hpos hle)
    have horder := (h a ha b hb).1 hle
    omega
  · intro a ha b hb hle hneg
    have hsideA := (h a ha a ha).2.2 (le_trans hle hneg)
    have hsideB := (h b hb b hb).2.2 hneg
    have horder := (h a ha b hb).1 hle
    omega

theorem nibblesInOrder_of_residuesInOrder (h : ResiduesInOrder vals) :
  NibblesInOrder vals
  := by
  have hpos : ∀ a ∈ vals, 0 ≤ a → 8 ≤ nibbleOf (groupScale vals) a := by
    intro a ha hnonneg
    have hside := h.nonneg a ha hnonneg
    rw [nibbleOf_eq]
    omega
  have hneg : ∀ a ∈ vals, a ≤ 0 → nibbleOf (groupScale vals) a ≤ 8 := by
    intro a ha hnonpos
    have hside := h.nonpos a ha hnonpos
    rw [nibbleOf_eq]
    omega
  intro a ha b hb
  refine ⟨?_, hpos a ha, hneg a ha⟩
  intro hle
  rcases le_total 0 a with hza | hza
  · have hcapped := h.above a ha b hb hza hle
    have hsideA := h.nonneg a ha hza
    have hsideB := h.nonneg b hb (le_trans hza hle)
    rw [nibbleOf_eq, nibbleOf_eq]
    omega
  · rcases le_total b 0 with hzb | hzb
    · have hcapped := h.below a ha b hb hle hzb
      have hsideA := h.nonpos a ha hza
      have hsideB := h.nonpos b hb hzb
      rw [nibbleOf_eq, nibbleOf_eq]
      omega
    · apply le_trans (hneg a ha hza) (hpos b hb hzb)

theorem nibblesInOrder_iff :
  NibblesInOrder vals ↔ ResiduesInOrder vals
  := ⟨residuesInOrder_of_nibblesInOrder, nibblesInOrder_of_residuesInOrder⟩

/-! ### Magnitudes -/

/-- An `INT32` group whose largest absolute value is `M`. -/
structure GroupOfMagnitude (M : ℤ) (vals : List ℤ) : Prop where
  length_vals : vals.length = grp
  int32_vals : ∀ x ∈ vals, IsApInt 32 x
  abs_le : ∀ x ∈ vals, |x| ≤ M
  attained : ∃ x ∈ vals, |x| = M

/-- The scale of a group whose largest absolute value is `M`. -/
def magnitudeScale (M : ℤ) : ℤ :=
  let sc := apInt 8 (M >>> (3 : ℕ))
  if sc = 0 then 1 else sc

/-- The scale is positive, and there are less than 120 of it in `M`. -/
def MagnitudeKeepsOrder (M : ℤ) : Prop :=
  M < 2 ^ 31 ∧ 0 < magnitudeScale M ∧ M < 120 * magnitudeScale M

theorem groupScale_of_magnitude {M : ℤ} (h : GroupOfMagnitude M vals) (hM : M < 2 ^ 31) :
  groupScale vals = magnitudeScale M
  := by
  have habs : ∀ x ∈ vals, absI32 x = |x| := by
    intro x hx
    apply absI32_eq (lt_of_le_of_lt (h.abs_le x hx) hM)
  obtain ⟨y, hy, hyM⟩ := h.attained
  have hmax : absmax vals = M := by
    apply le_antisymm
    · apply (absmax_le_iff (hyM ▸ abs_nonneg y)).mpr
      intro x hx
      rw [habs x hx]
      apply h.abs_le x hx
    · rw [← hyM, ← habs y hy]
      apply absI32_le_absmax hy
  rw [groupScale, hmax, magnitudeScale]

/-- The quotients of a magnitude that keeps the order are small. -/
theorem tdiv_magnitudeScale_mem {M : ℤ} (h : GroupOfMagnitude M vals)
    (hM : MagnitudeKeepsOrder M) :
  ∀ x ∈ vals, -119 ≤ x.tdiv (magnitudeScale M) ∧ x.tdiv (magnitudeScale M) ≤ 119
  := by
  obtain ⟨-, hpos, hfew⟩ := hM
  have hnonneg : 0 ≤ M := by
    obtain ⟨x, -, hx⟩ := h.attained
    rw [← hx]
    apply abs_nonneg
  have hlargest : M.tdiv (magnitudeScale M) < 120 := by
    rw [Int.tdiv_eq_ediv_of_nonneg hnonneg]
    apply Int.ediv_lt_of_lt_mul hpos hfew
  intro x hx
  obtain ⟨hlow, hhigh⟩ := abs_le.mp (h.abs_le x hx)
  have hlow' := Int.tdiv_le_tdiv hpos hlow
  have hhigh' := Int.tdiv_le_tdiv hpos hhigh
  rw [Int.neg_tdiv] at hlow'
  omega

/-- Quotients that fit are in the order of the values. -/
theorem residuesInOrder_of_magnitude {M : ℤ} (h : GroupOfMagnitude M vals)
    (hM : MagnitudeKeepsOrder M) :
  ResiduesInOrder vals
  := by
  have hquot := tdiv_magnitudeScale_mem h hM
  obtain ⟨hlt, hpos, -⟩ := hM
  have hscale := groupScale_of_magnitude h hlt
  have hzero := Int.zero_tdiv (magnitudeScale M)
  constructor <;> rw [hscale]
  · intro a ha hpos'
    have hrange := hquot a ha
    have hsign := Int.tdiv_le_tdiv hpos hpos'
    omega
  · intro a ha hneg
    have hrange := hquot a ha
    have hsign := Int.tdiv_le_tdiv hpos hneg
    omega
  · intro a ha b hb hpos' hle
    have hrangeA := hquot a ha
    have hrangeB := hquot b hb
    have hsign := Int.tdiv_le_tdiv hpos hpos'
    have hmono := Int.tdiv_le_tdiv hpos hle
    omega
  · intro a ha b hb hle hneg
    have hrangeA := hquot a ha
    have hrangeB := hquot b hb
    have hsign := Int.tdiv_le_tdiv hpos hneg
    have hmono := Int.tdiv_le_tdiv hpos hle
    omega

/-- A group of zeros but for two values. -/
def groupOfTwo (x y : ℤ) : List ℤ := x :: y :: List.replicate (grp - 2) 0

theorem mem_groupOfTwo {x y z : ℤ} :
  z ∈ groupOfTwo x y ↔ z = x ∨ z = y ∨ z = 0
  := by
  rw [groupOfTwo, List.mem_cons, List.mem_cons, List.mem_replicate]
  simp

theorem groupOfTwo_magnitude {M x : ℤ} (hx : 0 ≤ x) (hle : x ≤ M) (hM : M < 2 ^ 31) :
  GroupOfMagnitude M (groupOfTwo M x)
  := by
  constructor
  · rfl
  · intro z hz
    apply apInt_of_mem (by decide) <;> rcases mem_groupOfTwo.mp hz with rfl | rfl | rfl <;> omega
  · intro z hz
    apply abs_le.mpr
    rcases mem_groupOfTwo.mp hz with rfl | rfl | rfl <;> omega
  · use M, mem_groupOfTwo.mpr (.inl rfl)
    apply abs_of_nonneg (le_trans hx hle)

/-- `INT32` has no absolute value for its smallest value, whose nibble is that of zero. -/
theorem not_nibblesInOrder_min :
  GroupOfMagnitude (2 ^ 31) (groupOfTwo (-2 ^ 31) (-7))
    ∧ ¬ NibblesInOrder (groupOfTwo (-2 ^ 31) (-7))
  := by
  constructor
  · constructor
    · rfl
    · decide
    · decide
    · use -2 ^ 31, mem_groupOfTwo.mpr (.inl rfl)
      rfl
  · intro h
    have horder := (h (-2 ^ 31) (mem_groupOfTwo.mpr (.inl rfl)) (-7)
      (mem_groupOfTwo.mpr (.inr (.inl rfl)))).1 (by decide)
    revert horder
    decide +kernel

theorem magnitudeKeepsOrder_of_forall {M : ℤ} (hM : 0 ≤ M ∧ M ≤ 2 ^ 31)
    (h : ∀ vals, GroupOfMagnitude M vals → NibblesInOrder vals) :
  MagnitudeKeepsOrder M
  := by
  have hlt : M < 2 ^ 31 := by
    apply lt_of_le_of_ne hM.2
    rintro rfl
    apply not_nibblesInOrder_min.2 (h _ not_nibblesInOrder_min.1)
  -- a value whose quotient is `q` keeps its side
  have hside : ∀ x, 0 ≤ x → x ≤ M → x.tdiv (magnitudeScale M) % 256 ≤ 119 := by
    intro x hx hle
    have hgroup := groupOfTwo_magnitude hx hle hlt
    have hresidues := residuesInOrder_of_nibblesInOrder (h _ hgroup)
    rw [← groupScale_of_magnitude hgroup hlt]
    apply hresidues.nonneg x (mem_groupOfTwo.mpr (.inr (.inl rfl))) hx
  have hpos : 0 < magnitudeScale M := by
    by_contra hneg
    have hlarge : magnitudeScale M < 0 ∧ -magnitudeScale M ≤ M := by
      rw [magnitudeScale, apInt, Int.shiftRight_eq_div_pow] at hneg ⊢
      split at hneg
      · omega
      · rw [if_neg (by assumption)]
        omega
    have hminus := hside (-magnitudeScale M) (by omega) hlarge.2
    rw [Int.neg_tdiv, Int.tdiv_self (by omega)] at hminus
    omega
  refine ⟨hlt, hpos, ?_⟩
  by_contra hmany
  have hlast := hside (120 * magnitudeScale M) (by omega) (by omega)
  rw [Int.mul_tdiv_cancel _ hpos.ne'] at hlast
  omega

/-- All groups of a magnitude keep their order exactly when its scale is positive and the
magnitude less than 120 scales. -/
theorem forall_nibblesInOrder_iff {M : ℤ} (hM : 0 ≤ M ∧ M ≤ 2 ^ 31) :
  (∀ vals, GroupOfMagnitude M vals → NibblesInOrder vals) ↔ MagnitudeKeepsOrder M
  := by
  constructor
  · apply magnitudeKeepsOrder_of_forall hM
  · intro hkeeps vals hvals
    apply nibblesInOrder_of_residuesInOrder (residuesInOrder_of_magnitude hvals hkeeps)

/-! ### What `kv_cache_write` stores -/

/-- The values of group `g` of a head. -/
def headGroup (vec : List ℤ) (g : ℕ) : List ℤ := (vec.drop (g * grp)).take grp

/-- The nibbles stored for group `g` of a head are in the order of its values, and zero is
stored as eight. -/
def StoredInOrder (pack : ℕ → BitVec 128) (pos : ℕ) (vec : List ℤ) (g : ℕ) : Prop :=
  ∀ i < grp, ∀ j < grp,
    (vec.getD (g * grp + i) 0 ≤ vec.getD (g * grp + j) 0 →
      storedNibble pack pos (g * grp + i) ≤ storedNibble pack pos (g * grp + j))
    ∧ (0 ≤ vec.getD (g * grp + i) 0 → 8 ≤ storedNibble pack pos (g * grp + i))
    ∧ (vec.getD (g * grp + i) 0 ≤ 0 → storedNibble pack pos (g * grp + i) ≤ 8)

section Stored

variable {vec : List ℤ} (hlen : vec.length = dHead) {g : ℕ} (hg : g < dHead / grp)

theorem getD_headGroup {i : ℕ} (hi : i < grp) :
  (headGroup vec g).getD i 0 = vec.getD (g * grp + i) 0
  := by
  rw [headGroup, List.getD_eq_getElem?_getD, List.getD_eq_getElem?_getD,
    List.getElem?_take_of_lt hi, List.getElem?_drop]

theorem storedNibble_eq {pack : ℕ → BitVec 128} {pos : ℕ}
    (hpack : pack (bufIdx pos g) = quantPack vec g) {i : ℕ} (hi : i < grp) :
  storedNibble pack pos (g * grp + i)
    = nibbleOf (groupScale (headGroup vec g)) (vec.getD (g * grp + i) 0)
  := by
  have hdiv : (g * grp + i) / grp = g := mul_add_div_of_lt hi
  have hmod : (g * grp + i) % grp = i := Nat.mul_add_mod_of_lt hi
  rw [storedNibble, hdiv, hmod, hpack, quantPack, extractLsb'_packLanes _ (by decide) hi,
    ← getD_headGroup hi]
  rfl

include hlen hg

theorem length_headGroup :
  (headGroup vec g).length = grp
  := by
  rw [headGroup, List.length_take, List.length_drop, hlen]
  change min 32 (64 - g * 32) = 32
  change g < 2 at hg
  omega

/-- The values of a group are those of its dimensions. -/
theorem mem_headGroup {x : ℤ} :
  x ∈ headGroup vec g ↔ ∃ i < grp, vec.getD (g * grp + i) 0 = x
  := by
  have hlength := length_headGroup hlen hg
  constructor
  · intro hx
    obtain ⟨i, hi, rfl⟩ := List.getElem_of_mem hx
    rw [hlength] at hi
    use i, hi
    rw [← getD_headGroup hi, List.getD_eq_getElem]
  · rintro ⟨i, hi, rfl⟩
    rw [← getD_headGroup hi, List.getD_eq_getElem _ _ (by rwa [hlength])]
    apply List.getElem_mem

theorem storedInOrder_iff {pack : ℕ → BitVec 128} {pos : ℕ}
    (hpack : pack (bufIdx pos g) = quantPack vec g) :
  StoredInOrder pack pos vec g ↔ ResiduesInOrder (headGroup vec g)
  := by
  rw [← nibblesInOrder_iff]
  constructor
  · intro h a ha b hb
    obtain ⟨i, hi, rfl⟩ := (mem_headGroup hlen hg).mp ha
    obtain ⟨j, hj, rfl⟩ := (mem_headGroup hlen hg).mp hb
    rw [← storedNibble_eq hpack hi, ← storedNibble_eq hpack hj]
    apply h i hi j hj
  · intro h i hi j hj
    rw [storedNibble_eq hpack hi, storedNibble_eq hpack hj]
    apply h
    · apply (mem_headGroup hlen hg).mpr ⟨i, hi, rfl⟩
    · apply (mem_headGroup hlen hg).mpr ⟨j, hj, rfl⟩

end Stored

/-- After `kv_cache_write`, a group is stored in order exactly when the residues of its quotients
are; and the groups of a largest absolute value `M` are all stored in order exactly when its
scale is positive and `M` is less than 120 scales. -/
theorem kvCacheWrite_storedInOrder_iff {ι : Type} [DecidableEq ι] {kS vS : ι} (hne : kS ≠ vS)
    (curPos nTokens layerId headId : ℕ) (bank : Fin 2) (st : KvState) {kVec vVec : ℕ → List ℤ}
    (hk : ∀ t, (kVec t).length = dHead) (hv : ∀ t, (vVec t).length = dHead)
    {σ : Store ι ℤ} {restK restV : List ℤ}
    (hkS : σ kS = (List.range nTokens).flatMap kVec ++ restK)
    (hvS : σ vS = (List.range nTokens).flatMap vVec ++ restV) :
  (∃ st' σ', (kvCacheWrite kS vS curPos nTokens layerId headId bank st).run σ = some (st', σ')
    ∧ ∀ t < nTokens, ∀ g < dHead / grp,
      (StoredInOrder (st'.kvBuf bank).kPack (curPos + t) (kVec t) g
        ↔ ResiduesInOrder (headGroup (kVec t) g))
      ∧ (StoredInOrder (st'.kvBuf bank).vPack (curPos + t) (vVec t) g
        ↔ ResiduesInOrder (headGroup (vVec t) g)))
  ∧ ∀ M : ℤ, 0 ≤ M → M ≤ 2 ^ 31 →
    ((∀ vals, GroupOfMagnitude M vals → NibblesInOrder vals) ↔ MagnitudeKeepsOrder M)
  := by
  constructor
  · refine ⟨_, _, run_kvCacheWrite hne curPos nTokens layerId headId bank st hk hv hkS hvS, ?_⟩
    intro t ht g hg
    constructor
    · apply storedInOrder_iff (hk t) hg
      apply st.k.writeTokens_pack_written layerId headId bank curPos kVec ht hg
    · apply storedInOrder_iff (hv t) hg
      apply st.v.writeTokens_pack_written layerId headId bank curPos vVec ht hg
  · intro M hM hM'
    apply forall_nibblesInOrder_iff ⟨hM, hM'⟩

/-- A key of nines is stored in order. -/
theorem kvCacheWrite_storedInOrder_nines :
  ∃ st' σ', (kvCacheWrite .kRot .vPass 5 1 2 3 1 KvState.init).run (constantToken 9).store
      = some (st', σ')
    ∧ (StoredInOrder (st'.kvBuf 1).kPack 5 (List.replicate dHead 9) 0
      ↔ ResiduesInOrder (headGroup (List.replicate dHead 9) 0))
  := by
  obtain ⟨hkLen, hvLen, hk, hv⟩ := constantToken_streams 9
  obtain ⟨⟨st', σ', hrun, hiff⟩, -⟩ := kvCacheWrite_storedInOrder_iff
    (show AttnChan.kRot ≠ .vPass by decide) 5 1 2 3 1 KvState.init hkLen hvLen hk hv
  exact ⟨st', σ', hrun, (hiff 0 (by decide) 0 (by decide)).1⟩

/-- A key of 1024s is not: its scale is -128, and its nibbles are zero. -/
theorem kvCacheWrite_storedInOrder_fails :
  ∃ st' σ', (kvCacheWrite .kRot .vPass 0 1 0 0 0 KvState.init).run (constantToken 1024).store
      = some (st', σ')
    ∧ ¬ StoredInOrder (st'.kvBuf 0).kPack 0 (List.replicate dHead 1024) 0
  := by
  obtain ⟨hkLen, hvLen, hk, hv⟩ := constantToken_streams 1024
  refine ⟨_, _, run_kvCacheWrite (show AttnChan.kRot ≠ .vPass by decide) 0 1 0 0 0 KvState.init
    hkLen hvLen hk hv, ?_⟩
  intro h
  have hresidues := (storedInOrder_iff List.length_replicate (g := 0) (by decide)
    (KvState.init.k.writeTokens_pack_written 0 0 0 0 (fun _ => List.replicate dHead 1024)
      (n := 1) (t := 0) (by decide) (by decide))).mp h
  have hmem : (1024 : ℤ) ∈ headGroup (List.replicate dHead 1024) 0 := by
    apply (mem_headGroup List.length_replicate (by decide)).mpr ⟨0, by decide, rfl⟩
  have hside := hresidues.nonneg 1024 hmem (by decide)
  revert hside
  decide +kernel

end Kv260
