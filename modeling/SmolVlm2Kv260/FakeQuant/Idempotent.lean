import SmolVlm2Kv260.FakeQuant.Formats

/-!
# Quantising twice

A weight that `w4_fake_quant` has quantised is quantised again without a change.  The scale of a
group comes from its largest absolute value, which is seven steps, and so it is a level itself
and is not moved; below the floor of the scale no level is more than seven steps.
-/

set_option autoImplicit false

namespace Kv260

open Levels Blocks

/-! ### A row -/

section Row

variable {groupSize inFeatures : ℕ} {w w' : ℕ → ℚ}

/-- The row, padded with zeros. -/
def padRow (inFeatures : ℕ) (w : ℕ → ℚ) (c : ℕ) : ℚ := if c < inFeatures then w c else 0

theorem padRow_congr (h : ∀ c < inFeatures, w c = w' c) :
  padRow inFeatures w = padRow inFeatures w'
  := by
  funext c
  rw [padRow, padRow]
  split
  · rename_i hc
    apply h c hc
  · rfl

theorem w4FakeQuant_eq_rtnCode (groupSize inFeatures : ℕ) (w : ℕ → ℚ) (c : ℕ) :
  w4FakeQuant groupSize inFeatures w c
    = rtnCode groupSize (padRow inFeatures w) c
      * rtnScale groupSize (padRow inFeatures w) (c / groupSize)
  := rfl

/-- The scale is the step of which seven are the largest absolute value. -/
theorem rtnScale_eq_dynStep (groupSize : ℕ) (w : ℕ → ℚ) (g : ℕ) :
  rtnScale groupSize w g
    = dynStep 7 (1 / 10 ^ 8) groupSize fun i => w (g * groupSize + i)
  := rfl

theorem w4FakeQuant_eq_zero {c : ℕ} (h : padRow inFeatures w c = 0) :
  w4FakeQuant groupSize inFeatures w c = 0
  := by
  rw [w4FakeQuant_eq_rtnCode, rtnCode, h]
  apply npRounding.quantise_zero (by decide) (by decide)

/-- A padded row stays padded. -/
theorem padRow_w4FakeQuant (groupSize inFeatures : ℕ) (w : ℕ → ℚ) :
  padRow inFeatures (w4FakeQuant groupSize inFeatures w)
    = w4FakeQuant groupSize inFeatures w
  := by
  funext c
  rw [padRow]
  split
  · rfl
  · rename_i hc
    rw [w4FakeQuant_eq_zero (if_neg hc)]

/-- The scales of a quantised row are those it was quantised with. -/
theorem rtnScale_w4FakeQuant (groupSize inFeatures : ℕ) (w : ℕ → ℚ) (g : ℕ) :
  rtnScale groupSize (padRow inFeatures (w4FakeQuant groupSize inFeatures w)) g
    = rtnScale groupSize (padRow inFeatures w) g
  := by
  have habs : absMax groupSize (fun i => w4FakeQuant groupSize inFeatures w (g * groupSize + i))
      = absMax groupSize fun i => npRounding.quantise (-8) 7
        (rtnScale groupSize (padRow inFeatures w) g)
        (padRow inFeatures w (g * groupSize + i)) := by
    apply absMax_congr
    intro i hi
    rw [w4FakeQuant_eq_rtnCode, rtnCode, mul_add_div_of_lt hi]
    rfl
  have hstep := dynStep_quantise (n := groupSize) (N := 7) npRounding (by decide)
    (by decide : (-8 : ℤ) ≤ -(7 : ℕ)) (by decide : ((7 : ℕ) : ℤ) ≤ 7)
    (by norm_num : (0 : ℚ) < 1 / 10 ^ 8) fun i => padRow inFeatures w (g * groupSize + i)
  rw [padRow_w4FakeQuant, rtnScale_eq_dynStep, dynStep, habs, ← dynStep, rtnScale_eq_dynStep]
  exact hstep

/-- The codes of a quantised row are those it was quantised to. -/
theorem rtnCode_w4FakeQuant (groupSize inFeatures : ℕ) (w : ℕ → ℚ) (c : ℕ) :
  rtnCode groupSize (padRow inFeatures (w4FakeQuant groupSize inFeatures w)) c
    = rtnCode groupSize (padRow inFeatures w) c
  := by
  have hscale := (rtnScale_pos (w := padRow inFeatures w) (g := c / groupSize) groupSize).ne'
  have hlevel := npRounding.level_quantise (by decide : (-8 : ℤ) ≤ 7) hscale (padRow inFeatures w c)
  rw [rtnCode, rtnScale_w4FakeQuant, padRow_w4FakeQuant, w4FakeQuant_eq_rtnCode]
  exact hlevel

end Row

/-! ### A weight -/

namespace Tensor

variable {weight out : Tensor} {groupSize outFeatures inFeatures : ℕ}

/-- The code of column `c` of row `r`. -/
def w4Code (weight : Tensor) (groupSize inFeatures r c : ℕ) : ℤ :=
  rtnCode groupSize (padRow inFeatures (weight.row inFeatures r)) c

/-- The scale of group `g` of row `r`. -/
def w4Scale (weight : Tensor) (groupSize inFeatures r g : ℕ) : ℚ :=
  rtnScale groupSize (padRow inFeatures (weight.row inFeatures r)) g

/-- The weight whose rows are quantised. -/
def w4Quantised (weight : Tensor) (groupSize inFeatures : ℕ) : Tensor :=
  weight.reshapeAs fun i =>
    Kv260.w4FakeQuant groupSize inFeatures (weight.row inFeatures (i / inFeatures))
      (i % inFeatures)

/-- `w4_fake_quant` returns for every matrix that has a row. -/
theorem w4FakeQuant_of_shape (hshape : weight.shape = [outFeatures, inFeatures])
    (hout : 0 < outFeatures) (hgroup : 0 < groupSize) :
  weight.w4FakeQuant groupSize = .ok (weight.w4Quantised groupSize inFeatures)
  := by
  rw [w4FakeQuant]
  split
  · rename_i hshape'
    obtain ⟨rfl, rfl⟩ : _ = _ ∧ _ = _ := by simpa using hshape.symm.trans hshape'
    rw [if_neg hgroup.ne', if_neg hout.ne', w4Quantised]
  · rename_i hne
    exact absurd hshape (hne _ _)

/-- It returns for no other. -/
theorem w4FakeQuant_eq_ok (h : weight.w4FakeQuant groupSize = .ok out) :
  ∃ outFeatures inFeatures, weight.shape = [outFeatures, inFeatures] ∧ 0 < outFeatures
    ∧ 0 < groupSize ∧ out = weight.w4Quantised groupSize inFeatures
  := by
  unfold w4FakeQuant at h
  split at h
  · rename_i outFeatures inFeatures hshape
    split at h
    · cases h
    · rename_i hgroup
      split at h
      · cases h
      · rename_i hout
        exact ⟨outFeatures, inFeatures, hshape, Nat.pos_of_ne_zero hout,
          Nat.pos_of_ne_zero hgroup, (Except.ok.inj h).symm⟩
  · cases h

/-- The rows of the quantised weight. -/
theorem row_w4Quantised (hshape : weight.shape = [outFeatures, inFeatures]) {r c : ℕ}
    (hr : r < outFeatures) (hc : c < inFeatures) :
  (weight.w4Quantised groupSize inFeatures).row inFeatures r c
    = Kv260.w4FakeQuant groupSize inFeatures (weight.row inFeatures r) c
  := by
  have hlt : r * inFeatures + c < weight.shape.prod := by
    rw [hshape]
    simpa using mul_add_lt_mul hr hc
  rw [row, w4Quantised, flat_reshapeAs _ _ hlt, mul_add_div_of_lt hc, Nat.mul_add_mod_of_lt hc]

/-- The padded rows of the quantised weight. -/
theorem padRow_w4Quantised (hshape : weight.shape = [outFeatures, inFeatures]) {r : ℕ}
    (hr : r < outFeatures) :
  padRow inFeatures ((weight.w4Quantised groupSize inFeatures).row inFeatures r)
    = padRow inFeatures (Kv260.w4FakeQuant groupSize inFeatures (weight.row inFeatures r))
  := padRow_congr fun _ hc => row_w4Quantised hshape hr hc

theorem w4Code_w4Quantised (hshape : weight.shape = [outFeatures, inFeatures])
    {r : ℕ} (hr : r < outFeatures) (c : ℕ) :
  (weight.w4Quantised groupSize inFeatures).w4Code groupSize inFeatures r c
    = weight.w4Code groupSize inFeatures r c
  := by rw [w4Code, padRow_w4Quantised hshape hr, rtnCode_w4FakeQuant, w4Code]

theorem w4Scale_w4Quantised (hshape : weight.shape = [outFeatures, inFeatures])
    {r : ℕ} (hr : r < outFeatures) (g : ℕ) :
  (weight.w4Quantised groupSize inFeatures).w4Scale groupSize inFeatures r g
    = weight.w4Scale groupSize inFeatures r g
  := by rw [w4Scale, padRow_w4Quantised hshape hr, rtnScale_w4FakeQuant, w4Scale]

/-- Quantised rows are not changed. -/
theorem w4Quantised_w4Quantised (hshape : weight.shape = [outFeatures, inFeatures]) :
  (weight.w4Quantised groupSize inFeatures).w4Quantised groupSize inFeatures
    = weight.w4Quantised groupSize inFeatures
  := by
  have hsame : ∀ i < weight.shape.prod,
      (weight.w4Quantised groupSize inFeatures).w4Code groupSize inFeatures (i / inFeatures)
          (i % inFeatures)
        * (weight.w4Quantised groupSize inFeatures).w4Scale groupSize inFeatures (i / inFeatures)
          (i % inFeatures / groupSize)
      = weight.w4Code groupSize inFeatures (i / inFeatures) (i % inFeatures)
        * weight.w4Scale groupSize inFeatures (i / inFeatures) (i % inFeatures / groupSize) := by
    intro i hi
    have hprod : i < outFeatures * inFeatures := by
      rw [hshape] at hi
      simpa using hi
    have hr : i / inFeatures < outFeatures := by
      apply Nat.div_lt_of_lt_mul
      rwa [Nat.mul_comm]
    rw [w4Code_w4Quantised hshape hr, w4Scale_w4Quantised hshape hr]
  exact reshapeAs_congr weight hsame

/-- `w4_fake_quant` returns for every matrix that has a row.  What it has returned, it returns
again; and the codes and scales are the same, also those of the padding. -/
theorem w4FakeQuant_idempotent (weight : Tensor) (groupSize : ℕ) :
  (∀ outFeatures inFeatures, weight.shape = [outFeatures, inFeatures] → 0 < outFeatures →
    0 < groupSize → ∃ out, weight.w4FakeQuant groupSize = .ok out)
  ∧ (weight.w4FakeQuant groupSize >>= fun out => out.w4FakeQuant groupSize)
    = weight.w4FakeQuant groupSize
  ∧ ∀ out, weight.w4FakeQuant groupSize = .ok out →
    ∃ outFeatures inFeatures, weight.shape = [outFeatures, inFeatures]
      ∧ out.shape = [outFeatures, inFeatures]
      ∧ (∀ r < outFeatures, ∀ c < inFeatures, out.row inFeatures r c
        = weight.w4Code groupSize inFeatures r c
          * weight.w4Scale groupSize inFeatures r (c / groupSize))
      ∧ ∀ r < outFeatures, ∀ i,
        out.w4Code groupSize inFeatures r i = weight.w4Code groupSize inFeatures r i
        ∧ out.w4Scale groupSize inFeatures r i = weight.w4Scale groupSize inFeatures r i
  := by
  refine ⟨?_, ?_, ?_⟩
  · intro outFeatures inFeatures hshape hout hgroup
    exact ⟨_, w4FakeQuant_of_shape hshape hout hgroup⟩
  · rcases hquant : weight.w4FakeQuant groupSize with _ | out
    · rfl
    obtain ⟨outFeatures, inFeatures, hshape, hout, hgroup, rfl⟩ := w4FakeQuant_eq_ok hquant
    change (weight.w4Quantised groupSize inFeatures).w4FakeQuant groupSize = _
    have hshape' : (weight.w4Quantised groupSize inFeatures).shape = [outFeatures, inFeatures] :=
      hshape
    rw [w4FakeQuant_of_shape hshape' hout hgroup, w4Quantised_w4Quantised hshape]
  · intro out hquant
    obtain ⟨outFeatures, inFeatures, hshape, -, -, rfl⟩ := w4FakeQuant_eq_ok hquant
    refine ⟨outFeatures, inFeatures, hshape, hshape, ?_, ?_⟩
    · intro r hr c hc
      apply row_w4Quantised hshape hr hc
    · intro r hr i
      use w4Code_w4Quantised hshape hr i
      apply w4Scale_w4Quantised hshape hr i

end Tensor

end Kv260
