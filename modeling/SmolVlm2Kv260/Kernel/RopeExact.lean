import SmolVlm2Kv260.Kernel.HeadOrder
import SmolVlm2Kv260.Kernel.Scores

/-!
# When the rotation is exact

`rope_rotate_pair` takes the two coordinates of a rotated pair from sums of two products.
The sums are kept in an `INT43` and shifted down to an `INT32`.  A coordinate is that of the
unbounded integers exactly when its sum fits the `INT43`: a sum that does not is off by a
multiple of `2 ^ 43`, which the shift turns into a multiple of `2 ^ 28` that no later
assignment undoes.
-/

set_option autoImplicit false

namespace Kv260

open Proc Blocks

/-! ### One pair -/

/-- The sums from which the two coordinates of a rotated pair are taken. -/
def ropeSums (pos : ℕ) (vec : List ℤ) (d : ℕ) : ℤ × ℤ :=
  let cs := approxRopeSincosQ15 d pos
  let x₀ := vec.getD d 0
  let x₁ := vec.getD (d + dHead / 2) 0
  (x₀ * cs.1 - x₁ * cs.2, x₀ * cs.2 + x₁ * cs.1)

/-- A rotated pair, in the unbounded integers. -/
def exactPair (pos : ℕ) (vec : List ℤ) (d : ℕ) : ℤ × ℤ :=
  ((ropeSums pos vec d).1 / 2 ^ 15, (ropeSums pos vec d).2 / 2 ^ 15)

/-- Both sums of a pair fit the `INT43` they are assigned to. -/
def PairFits (pos : ℕ) (vec : List ℤ) (d : ℕ) : Prop :=
  IsApInt 43 (ropeSums pos vec d).1 ∧ IsApInt 43 (ropeSums pos vec d).2

instance (pos : ℕ) (vec : List ℤ) (d : ℕ) : Decidable (PairFits pos vec d) :=
  inferInstanceAs (Decidable (_ ∧ _))

/-- A sum kept in an `INT43` and shifted down is the floor of the sum when it fits, and only
then. -/
theorem shifted_eq_iff (r : ℤ) :
  apInt 32 (apInt 43 r >>> (15 : ℕ)) = r / 2 ^ 15 ↔ IsApInt 43 r
  := by
  rw [isApInt_iff (by decide), Int.shiftRight_eq_div_pow]
  simp only [apInt]
  omega

theorem ropePair_eq_iff (pos : ℕ) (vec : List ℤ) (d : ℕ) :
  ropePair pos vec d = exactPair pos vec d ↔ PairFits pos vec d
  := by
  rw [Prod.ext_iff]
  apply and_congr
  · apply shifted_eq_iff
  · apply shifted_eq_iff

/-! ### One head -/

/-- A head rotated for position `pos`, in the unbounded integers. -/
def exactVec (pos : ℕ) (vec : List ℤ) : List ℤ :=
  ((List.range (dHead / 2)).map fun d => (exactPair pos vec d).1)
    ++ (List.range (dHead / 2)).map fun d => (exactPair pos vec d).2

theorem length_exactVec (pos : ℕ) (vec : List ℤ) :
  (exactVec pos vec).length = dHead
  := by
  rw [exactVec, List.length_append, List.length_map, List.length_map, List.length_range]
  rfl

/-- A head is rotated exactly when all its pairs are. -/
theorem ropeVec_eq_iff (pos : ℕ) (vec : List ℤ) :
  ropeVec pos vec = exactVec pos vec ↔ ∀ d < dHead / 2, PairFits pos vec d
  := by
  constructor
  · intro h d hd
    have hlen : ((List.range (dHead / 2)).map fun d => (ropePair pos vec d).1).length
        = ((List.range (dHead / 2)).map fun d => (exactPair pos vec d).1).length := by
      rw [List.length_map, List.length_map]
    obtain ⟨hfst, hsnd⟩ := List.append_inj h hlen
    rw [← ropePair_eq_iff, Prod.ext_iff]
    constructor
    · apply List.map_inj_left.mp hfst d (List.mem_range.mpr hd)
    · apply List.map_inj_left.mp hsnd d (List.mem_range.mpr hd)
  · intro h
    have hpair : ∀ d ∈ List.range (dHead / 2), ropePair pos vec d = exactPair pos vec d := by
      intro d hd
      rw [ropePair_eq_iff]
      apply h d (List.mem_range.mp hd)
    rw [ropeVec, exactVec]
    congr 1
    · apply List.map_congr_left
      intro d hd
      rw [hpair d hd]
    · apply List.map_congr_left
      intro d hd
      rw [hpair d hd]

/-! ### Small coordinates -/

theorem abs_mul_turns_lt {x : ℤ} (hx : |x| < 2 ^ 26) (phaseTurns : ℕ) :
  |x * sinTurnsQ15 phaseTurns| < 2 ^ 41
  := by
  rw [abs_mul]
  calc |x| * |sinTurnsQ15 phaseTurns|
      ≤ |x| * 2 ^ 15 := mul_le_mul_of_nonneg_left (abs_sinTurnsQ15_le _) (abs_nonneg x)
    _ < 2 ^ 26 * 2 ^ 15 := mul_lt_mul_of_pos_right hx (by decide)
    _ = 2 ^ 41 := by decide

/-- Coordinates below `2 ^ 26` have sums that fit. -/
theorem pairFits_of_abs_lt (pos : ℕ) {vec : List ℤ} {d : ℕ} (h₀ : |vec.getD d 0| < 2 ^ 26)
    (h₁ : |vec.getD (d + dHead / 2) 0| < 2 ^ 26) :
  PairFits pos vec d
  := by
  rw [PairFits, isApInt_iff (by decide), isApInt_iff (by decide), ropeSums, approxRopeSincosQ15]
  generalize pos * kRopeStepTurnsQ32.getD d 0 % 2 ^ 32 = turns
  simp only [cosTurnsQ15]
  have hx₀c := abs_lt.mp (abs_mul_turns_lt h₀ ((turns + 2 ^ ropeQuarterBits) % 2 ^ 32))
  have hx₁s := abs_lt.mp (abs_mul_turns_lt h₁ turns)
  have hx₀s := abs_lt.mp (abs_mul_turns_lt h₀ turns)
  have hx₁c := abs_lt.mp (abs_mul_turns_lt h₁ ((turns + 2 ^ ropeQuarterBits) % 2 ^ 32))
  omega

/-! ### The streams -/

section Streams

variable (qkv : ℕ → ℕ → ℤ) (curPos n : ℕ)

/-- `rope_split_qk` leaves the values as they are and rotates queries and keys as in the
unbounded integers. -/
def RotatesExactly : Prop :=
  ∃ τ, (ropeSplitQk .qkvIn .qPre .kPre .qRot .kRot .vPass curPos n).run
        { qkvIn := qkvStream qkv n : AttnStreams }.store = some ((), τ)
    ∧ τ .qRot = headVecs (fun t j => exactVec (curPos + t) (qkvVec qkv 0 t j)) hQ n
    ∧ τ .kRot = headVecs (fun t h => exactVec (curPos + t) (qkvVec qkv C t h)) hKv n
    ∧ τ .vPass = headVecs (vHead qkv) hKv n

/-- Vectors of `D_HEAD` values, token by token and head by head, agree one by one. -/
theorem headVecs_inj {vec vec' : ℕ → ℕ → List ℤ} (hvec : ∀ t j, (vec t j).length = dHead)
    (hvec' : ∀ t j, (vec' t j).length = dHead) (nHeads : ℕ) :
  headVecs vec nHeads n = headVecs vec' nHeads n ↔ ∀ t < n, ∀ j < nHeads, vec t j = vec' t j
  := by
  rw [headVecs, headVecs, flatMap_range_inj
    (fun t _ => length_flatMap_range fun j (_ : j < nHeads) => hvec t j)
    (fun t _ => length_flatMap_range fun j (_ : j < nHeads) => hvec' t j)]
  apply forall₂_congr
  intro t _
  apply flatMap_range_inj (fun j _ => hvec t j) (fun j _ => hvec' t j)

/-- The heads from column `base` on are rotated exactly when all pairs of all tokens are. -/
theorem headVecs_rope_eq_iff (base nHeads : ℕ) :
  headVecs (fun t j => ropeVec (curPos + t) (qkvVec qkv base t j)) nHeads n
      = headVecs (fun t j => exactVec (curPos + t) (qkvVec qkv base t j)) nHeads n
    ↔ ∀ t < n, ∀ j < nHeads, ∀ d < dHead / 2, PairFits (curPos + t) (qkvVec qkv base t j) d
  := by
  rw [headVecs_inj n (fun _ _ => length_ropeVec _ _) (fun _ _ => length_exactVec _ _)]
  simp only [ropeVec_eq_iff]

/-- The keys follow the queries in the columns of a token. -/
theorem qkvVec_key (t h : ℕ) :
  qkvVec qkv 0 t (hQ + h) = qkvVec qkv C t h
  := by
  rw [qkvVec, qkvVec]
  apply List.map_congr_left
  intro d _
  congr 1
  change 0 + ((15 + h) * 64 + d) = 960 + (h * 64 + d)
  omega

theorem rotatesExactly_iff_streams :
  RotatesExactly qkv curPos n
    ↔ headVecs (qHead qkv curPos) hQ n
          = headVecs (fun t j => exactVec (curPos + t) (qkvVec qkv 0 t j)) hQ n
        ∧ headVecs (kHead qkv curPos) hKv n
          = headVecs (fun t h => exactVec (curPos + t) (qkvVec qkv C t h)) hKv n
  := by
  have hrun := run_ropeSplitQk qkv curPos n
  have hq : (rotated qkv curPos n).qRot = headVecs (qHead qkv curPos) hQ n :=
    (headVecs_eq _ _ n).symm
  have hk : (rotated qkv curPos n).kRot = headVecs (kHead qkv curPos) hKv n :=
    (headVecs_eq _ _ n).symm
  have hv : (rotated qkv curPos n).vPass = headVecs (vHead qkv) hKv n :=
    (headVecs_eq _ _ n).symm
  rw [← hq, ← hk]
  constructor
  · rintro ⟨τ, hτ, hqRot, hkRot, -⟩
    rw [hrun] at hτ
    obtain ⟨-, rfl⟩ := Prod.mk.inj (Option.some.inj hτ)
    exact ⟨hqRot, hkRot⟩
  · rintro ⟨hqRot, hkRot⟩
    exact ⟨_, hrun, hqRot, hkRot, hv⟩

/-- The streams are those of the unbounded integers exactly when every sum fits. -/
theorem rotatesExactly_iff_pairFits :
  RotatesExactly qkv curPos n
    ↔ ∀ t < n, ∀ j < hQ + hKv, ∀ d < dHead / 2, PairFits (curPos + t) (qkvVec qkv 0 t j) d
  := by
  have hq := headVecs_rope_eq_iff qkv curPos n 0 hQ
  have hk := headVecs_rope_eq_iff qkv curPos n C hKv
  rw [rotatesExactly_iff_streams]
  refine Iff.trans (and_congr hq hk) ?_
  constructor
  · rintro ⟨hquery, hkey⟩ t ht j hj d hd
    rcases Nat.lt_or_ge j hQ with hlt | hge
    · apply hquery t ht j hlt d hd
    · obtain ⟨h, rfl⟩ := Nat.exists_eq_add_of_le hge
      rw [qkvVec_key]
      apply hkey t ht h (Nat.lt_of_add_lt_add_left hj) d hd
  · intro h
    constructor
    · intro t ht j hj
      apply h t ht j (Nat.lt_add_right hKv hj)
    · intro t ht j hj
      rw [← qkvVec_key]
      apply h t ht (hQ + j) (Nat.add_lt_add_left hj hQ)

end Streams

/-- The rotation is exact when every sum fits the `INT43`, and only then; values below
`2 ^ 26` are small enough. -/
theorem rotatesExactly_iff (qkv : ℕ → ℕ → ℤ) (curPos n : ℕ) :
  (RotatesExactly qkv curPos n
      ↔ ∀ t < n, ∀ j < hQ + hKv, ∀ d < dHead / 2, PairFits (curPos + t) (qkvVec qkv 0 t j) d)
    ∧ ((∀ t c, |qkv t c| < 2 ^ 26) → RotatesExactly qkv curPos n)
  := by
  refine ⟨rotatesExactly_iff_pairFits qkv curPos n, ?_⟩
  intro hsmall
  rw [rotatesExactly_iff_pairFits]
  intro t _ j _ d hd
  have hcoord : ∀ e < dHead, |(qkvVec qkv 0 t j).getD e 0| < 2 ^ 26 := by
    intro e he
    rw [qkvVec, List.getD_eq_getElem?_getD, List.getElem?_map, List.getElem?_range he]
    apply hsmall
  change d < 32 at hd
  apply pairFits_of_abs_lt
  · apply hcoord d (by change d < 64; omega)
  · apply hcoord (d + dHead / 2) (by change d + 32 < 64; omega)

/-- The first value of every token is `2 ^ 30`, the others are 0. -/
def firstColumnOnly (_t c : ℕ) : ℤ := if c = 0 then 2 ^ 30 else 0

/-- The first value is within the range of the projection, and its rotation is not exact. -/
theorem not_rotatesExactly_firstColumn :
  (∀ t c, |firstColumnOnly t c| ≤ 2 ^ 30) ∧ ¬ RotatesExactly firstColumnOnly 0 1
  := by
  constructor
  · intro t c
    rw [firstColumnOnly]
    split <;> decide
  · rw [rotatesExactly_iff_pairFits]
    intro h
    have hfits := h 0 (by decide) 0 (by decide) 0 (by decide)
    revert hfits
    decide +kernel

end Kv260
