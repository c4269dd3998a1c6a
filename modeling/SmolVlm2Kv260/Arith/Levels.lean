import Mathlib.Algebra.Order.Field.Basic
import Mathlib.Algebra.Order.Ring.Abs
import Mathlib.Data.Int.Cast.Lemmas
import Mathlib.Data.List.Basic
import Mathlib.Tactic.Linarith

/-!
# Rounding to equidistant levels

A quantiser divides a number by a step, rounds the quotient to an integer, clips it to a range,
and multiplies it by the step again.  It need not be known which of two nearest integers is
taken: `Rounding` is any choice.

The step often comes from the largest absolute value of the numbers that are rounded together,
so that this value is the last of the levels.
-/

set_option autoImplicit false

namespace Levels

variable {K : Type} [Field K] [LinearOrder K]

/-- A choice of an integer that is nearest to each number. -/
structure Rounding (K : Type) [Field K] [LinearOrder K] where
  round : K → ℤ
  abs_round_sub_le : ∀ x, |(round x : K) - x| ≤ 1 / 2

/-! ### Rounding and clipping -/

namespace Rounding

variable (ρ : Rounding K) {x s : K} {n lo hi : ℤ}

/-- The number is rounded, and clipped to the levels `lo, …, hi`. -/
def level (lo hi : ℤ) (x : K) : ℤ := min (max (ρ.round x) lo) hi

theorem level_mem (h : lo ≤ hi) (x : K) :
  lo ≤ ρ.level lo hi x ∧ ρ.level lo hi x ≤ hi
  := by
  rw [level]
  omega

theorem level_eq_round (hlow : lo ≤ ρ.round x) (hhigh : ρ.round x ≤ hi) :
  ρ.level lo hi x = ρ.round x
  := by rw [level, max_eq_left hlow, min_eq_left hhigh]

variable [IsStrictOrderedRing K]

theorem lt_round (h : n + 1 / 2 < x) :
  n < ρ.round x
  := by
  obtain ⟨hlow, -⟩ := abs_le.mp (ρ.abs_round_sub_le x)
  have hcast : (n : K) < ρ.round x := by linarith
  exact_mod_cast hcast

theorem round_lt (h : x < n - 1 / 2) :
  ρ.round x < n
  := by
  obtain ⟨-, hhigh⟩ := abs_le.mp (ρ.abs_round_sub_le x)
  have hcast : (ρ.round x : K) < n := by linarith
  exact_mod_cast hcast

/-- A number that is nearer to an integer than to any other is rounded to it. -/
theorem round_eq (hlow : n - 1 / 2 < x) (hhigh : x < n + 1 / 2) :
  ρ.round x = n
  := by
  have hlt : n - 1 < ρ.round x := by
    apply ρ.lt_round
    push_cast
    linarith
  have hlt' : ρ.round x < n + 1 := by
    apply ρ.round_lt
    push_cast
    linarith
  omega

theorem round_intCast (n : ℤ) :
  ρ.round n = n
  := by
  apply ρ.round_eq
  · linarith
  · linarith

/-- Rounding does not leave an interval with integer ends. -/
theorem le_round (h : n ≤ x) :
  n ≤ ρ.round x
  := by
  have hlt : n - 1 < ρ.round x := by
    apply ρ.lt_round
    push_cast
    linarith
  omega

theorem round_le (h : x ≤ n) :
  ρ.round x ≤ n
  := by
  have hlt : ρ.round x < n + 1 := by
    apply ρ.round_lt
    push_cast
    linarith
  omega

/-- A level is left alone. -/
theorem level_intCast (hlow : lo ≤ n) (hhigh : n ≤ hi) :
  ρ.level lo hi (n : K) = n
  := by rw [level, ρ.round_intCast, max_eq_left hlow, min_eq_left hhigh]

/-- No level is larger than the number, if the number is an integer or less. -/
theorem abs_level_le {N : ℕ} (hlo : lo ≤ -N) (hhi : N ≤ hi) (h : |x| ≤ N) :
  |ρ.level lo hi x| ≤ N
  := by
  obtain ⟨hlow, hhigh⟩ := abs_le.mp h
  have hge : (-N : ℤ) ≤ ρ.round x := by
    apply ρ.le_round
    push_cast
    exact hlow
  have hle : ρ.round x ≤ (N : ℤ) := by
    apply ρ.round_le
    push_cast
    exact hhigh
  rw [ρ.level_eq_round (hlo.trans hge) (hle.trans hhi), abs_le]
  exact ⟨hge, hle⟩

/-- A number is off by at most a half exactly when it is no more than a half beyond the last
level on either side. -/
theorem abs_level_sub_le_iff (h : lo ≤ hi) :
  |(ρ.level lo hi x : K) - x| ≤ 1 / 2 ↔ lo - 1 / 2 ≤ x ∧ x ≤ hi + 1 / 2
  := by
  constructor
  · intro hle
    obtain ⟨hlow, hhigh⟩ := abs_le.mp hle
    obtain ⟨hge, hle⟩ := ρ.level_mem h x
    have hge' : (lo : K) ≤ ρ.level lo hi x := by exact_mod_cast hge
    have hle' : (ρ.level lo hi x : K) ≤ hi := by exact_mod_cast hle
    constructor
    · linarith
    · linarith
  · rintro ⟨hlow, hhigh⟩
    have hround := ρ.abs_round_sub_le x
    rcases lt_trichotomy (ρ.round x) lo with hlt | heq | hlt
    · -- clipped from below, where the number is a half below the first level at most
      have hclip : ρ.level lo hi x = lo := by
        rw [level]
        omega
      have hcast : (ρ.round x : K) ≤ lo - 1 := by exact_mod_cast Int.le_sub_one_of_lt hlt
      obtain ⟨hdown, -⟩ := abs_le.mp hround
      rw [hclip, abs_le]
      constructor
      · linarith
      · linarith
    · rw [ρ.level_eq_round heq.ge (heq.le.trans h)]
      exact hround
    · rcases le_or_gt (ρ.round x) hi with hle | hgt
      · rw [ρ.level_eq_round hlt.le hle]
        exact hround
      · have hclip : ρ.level lo hi x = hi := by
          rw [level]
          omega
        have hcast : (hi : K) + 1 ≤ ρ.round x := by exact_mod_cast Int.add_one_le_of_lt hgt
        obtain ⟨-, hup⟩ := abs_le.mp hround
        rw [hclip, abs_le]
        constructor
        · linarith
        · linarith

/-! ### Quantisers -/

/-- The multiple of the step `s` by the level of the quotient. -/
def quantise (lo hi : ℤ) (s x : K) : K := ρ.level lo hi (x / s) * s

theorem quantise_zero (hlo : lo ≤ 0) (hhi : 0 ≤ hi) (s : K) :
  ρ.quantise lo hi s 0 = 0
  := by
  have hlevel : ρ.level lo hi ((0 : ℤ) : K) = 0 := ρ.level_intCast hlo hhi
  rw [Int.cast_zero] at hlevel
  rw [quantise, zero_div, hlevel, Int.cast_zero, zero_mul]

/-- The level of a quantised number is the level that the number had. -/
theorem level_quantise (h : lo ≤ hi) (hs : s ≠ 0) (x : K) :
  ρ.level lo hi (ρ.quantise lo hi s x / s) = ρ.level lo hi (x / s)
  := by
  obtain ⟨hge, hle⟩ := ρ.level_mem h (x / s)
  rw [quantise, mul_div_cancel_right₀ _ hs, ρ.level_intCast hge hle]

/-- A number is off by at most half a step exactly when it is no more than half a step beyond
the last level on either side. -/
theorem abs_quantise_sub_le_iff (h : lo ≤ hi) (hs : 0 < s) :
  |ρ.quantise lo hi s x - x| ≤ s / 2 ↔ (lo - 1 / 2) * s ≤ x ∧ x ≤ (hi + 1 / 2) * s
  := by
  have hfactor : ρ.quantise lo hi s x - x = (ρ.level lo hi (x / s) - x / s) * s := by
    rw [quantise, sub_mul, div_mul_cancel₀ x hs.ne']
  have hhalf : s / 2 = 1 / 2 * s := (one_div_mul_eq_div 2 s).symm
  rw [hfactor, abs_mul, abs_of_pos hs, hhalf, mul_le_mul_iff_of_pos_right hs,
    ρ.abs_level_sub_le_iff h, le_div_iff₀ hs, div_le_iff₀ hs]

end Rounding

/-! ### The largest absolute value -/

section AbsMax

variable {n : ℕ} {f g : ℕ → K} {b : K}

/-- The largest absolute value of `f 0, …, f (n - 1)`, by a loop that starts with zero. -/
def absMax (n : ℕ) (f : ℕ → K) : K := (List.range n).foldl (fun m i => max m |f i|) 0

theorem absMax_succ (n : ℕ) (f : ℕ → K) :
  absMax (n + 1) f = max (absMax n f) |f n|
  := by rw [absMax, List.range_succ, List.foldl_append, List.foldl_cons, List.foldl_nil, absMax]

theorem absMax_le_iff :
  absMax n f ≤ b ↔ 0 ≤ b ∧ ∀ i < n, |f i| ≤ b
  := by
  induction n with
  | zero => simp [absMax]
  | succ n ih => rw [absMax_succ, max_le_iff, ih, Nat.forall_lt_succ_right, and_assoc]

theorem absMax_nonneg (n : ℕ) (f : ℕ → K) :
  0 ≤ absMax n f
  := (absMax_le_iff.mp (le_refl _)).1

theorem abs_le_absMax {i : ℕ} (hi : i < n) (f : ℕ → K) :
  |f i| ≤ absMax n f
  := (absMax_le_iff.mp (le_refl _)).2 i hi

theorem absMax_congr (h : ∀ i < n, |f i| = |g i|) :
  absMax n f = absMax n g
  := by
  apply List.foldl_ext
  intro m i hi
  rw [h i (List.mem_range.mp hi)]

/-- The largest absolute value is zero, or that of one of the numbers. -/
theorem absMax_eq_zero_or (n : ℕ) (f : ℕ → K) :
  absMax n f = 0 ∨ ∃ i < n, |f i| = absMax n f
  := by
  induction n with
  | zero =>
      left
      rfl
  | succ n ih =>
      rw [absMax_succ]
      rcases le_total |f n| (absMax n f) with hle | hle
      · rw [max_eq_left hle]
        rcases ih with hzero | ⟨i, hi, heq⟩
        · exact .inl hzero
        · right
          use i, Nat.lt_succ_of_lt hi
      · right
        use n, n.lt_succ_self
        rw [max_eq_right hle]

variable [IsStrictOrderedRing K]

/-- Numbers of one absolute value. -/
theorem absMax_of_abs_eq (hn : 0 < n) (h : ∀ i < n, |f i| = b) :
  absMax n f = b
  := by
  apply le_antisymm
  · apply absMax_le_iff.mpr
    use (h 0 hn) ▸ abs_nonneg (f 0)
    intro i hi
    rw [h i hi]
  · rw [← h 0 hn]
    apply abs_le_absMax hn

end AbsMax

/-! ### Steps from the largest absolute value -/

section Dynamic

/-- The step of which the `N`-fold is the largest absolute value, or `floor` if that is
larger. -/
def dynStep (N : ℕ) (floor : K) (n : ℕ) (f : ℕ → K) : K := max (absMax n f) floor / N

variable [IsStrictOrderedRing K] (ρ : Rounding K) {N : ℕ} {floor : K} {n i : ℕ} {lo hi : ℤ}

theorem dynStep_pos (hN : 0 < N) (hfloor : 0 < floor) (n : ℕ) (f : ℕ → K) :
  0 < dynStep N floor n f
  := by
  apply div_pos (lt_max_of_lt_right hfloor)
  exact_mod_cast hN

theorem mul_dynStep (hN : 0 < N) (n : ℕ) (f : ℕ → K) :
  N * dynStep N floor n f = max (absMax n f) floor
  := by
  have hN' : (0 : K) < N := by exact_mod_cast hN
  rw [dynStep, mul_div_cancel₀ _ hN'.ne']

theorem abs_div_dynStep_le (hN : 0 < N) (hfloor : 0 < floor) (hin : i < n) (f : ℕ → K) :
  |f i / dynStep N floor n f| ≤ N
  := by
  have hstep := dynStep_pos hN hfloor n f
  rw [abs_div, abs_of_pos hstep, div_le_iff₀ hstep, mul_dynStep hN]
  apply (abs_le_absMax hin f).trans (le_max_left _ _)

/-- A number that is the `N`-fold of the step, or of its negative, is left alone. -/
theorem Rounding.quantise_eq_self {s x : K} (hlo : lo ≤ -N) (hhi : N ≤ hi) (hs : s ≠ 0)
    (hx : |x| = N * s) :
  ρ.quantise lo hi s x = x
  := by
  rcases abs_choice x with habs | habs
  · have hlevel : ρ.level lo hi ((N : ℤ) : K) = N := ρ.level_intCast (by omega) hhi
    rw [habs] at hx
    rw [Rounding.quantise, hx, mul_div_cancel_right₀ _ hs, ← Int.cast_natCast, hlevel]
  · have hlevel : ρ.level lo hi ((-N : ℤ) : K) = -N := ρ.level_intCast hlo (by omega)
    have hneg : x = (-N : ℤ) * s := by
      rw [habs] at hx
      push_cast
      linarith
    rw [Rounding.quantise, hneg, mul_div_cancel_right₀ _ hs, hlevel]

/-- No quantised number is larger than `N` steps. -/
theorem absMax_quantise_le (hN : 0 < N) (hlo : lo ≤ -N) (hhi : N ≤ hi) (hfloor : 0 < floor)
    (f : ℕ → K) :
  absMax n (fun i => ρ.quantise lo hi (dynStep N floor n f) (f i)) ≤ max (absMax n f) floor
  := by
  have hstep := dynStep_pos hN hfloor n f
  apply absMax_le_iff.mpr
  use hfloor.le.trans (le_max_right _ _)
  intro i hin
  have hlevel := ρ.abs_level_le hlo hhi (abs_div_dynStep_le hN hfloor hin f)
  have hcast : |(ρ.level lo hi (f i / dynStep N floor n f) : K)| ≤ N := by
    exact_mod_cast hlevel
  rw [Rounding.quantise, abs_mul, abs_of_pos hstep, ← mul_dynStep hN]
  apply mul_le_mul_of_nonneg_right hcast hstep.le

/-- The step of the quantised numbers is the step that they were quantised with: a largest
absolute value is `N` steps, and so it is left alone. -/
theorem dynStep_quantise (hN : 0 < N) (hlo : lo ≤ -N) (hhi : N ≤ hi) (hfloor : 0 < floor)
    (f : ℕ → K) :
  dynStep N floor n (fun i => ρ.quantise lo hi (dynStep N floor n f) (f i))
    = dynStep N floor n f
  := by
  have hstep := dynStep_pos hN hfloor n f
  have hmax : max (absMax n fun i => ρ.quantise lo hi (dynStep N floor n f) (f i)) floor
      = max (absMax n f) floor := by
    apply le_antisymm
    · apply max_le (absMax_quantise_le ρ hN hlo hhi hfloor f) (le_max_right _ _)
    rcases le_or_gt (absMax n f) floor with hsmall | hlarge
    · rw [max_eq_right hsmall]
      apply le_max_right
    · rw [max_eq_left hlarge.le]
      apply le_max_of_le_left
      rcases absMax_eq_zero_or n f with hzero | ⟨i, hin, heq⟩
      · rw [hzero] at hlarge
        exact absurd hlarge hfloor.le.not_gt
      · have hsteps : |f i| = N * dynStep N floor n f := by
          rw [heq, mul_dynStep hN, max_eq_left hlarge.le]
        have hself := abs_le_absMax hin fun i => ρ.quantise lo hi (dynStep N floor n f) (f i)
        rwa [ρ.quantise_eq_self hlo hhi hstep.ne' hsteps, heq] at hself
  rw [dynStep, hmax, ← dynStep]

end Dynamic

end Levels
