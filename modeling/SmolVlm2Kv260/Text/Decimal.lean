import Mathlib.Data.Int.Notation
import Mathlib.Data.List.TakeWhile
import Mathlib.Tactic.Common

/-!
# Decimal numbers

The decimal digits of an integer, and the reading of them by `std::stoi`.
-/

set_option autoImplicit false

namespace Text

/-- A digit of a number, or its sign. -/
def isDecimal (c : Char) : Bool := c.isDigit || c == '-'

/-- `std::stoi`, for a text of digits and signs.  A number that is not there and one that is no
`int` are reported by the same message. -/
def stoi (text : List Char) : Except String ℤ :=
  let negative := text.head? == some '-'
  let digits := (if negative then text.tail else text).takeWhile Char.isDigit
  let value : ℤ := Nat.ofDigitChars 10 digits 0
  let value := if negative then -value else value
  if digits ≠ [] ∧ -2147483648 ≤ value ∧ value < 2147483648 then .ok value else .error "stoi"

theorem isDigit_of_mem_repr {n : ℕ} {c : Char} (h : c ∈ n.repr.toList) :
  c.isDigit = true
  := by
  rw [Nat.toList_repr] at h
  apply Nat.isDigit_of_mem_toDigits (by decide) (by decide) h

theorem toList_repr_ne_nil (n : ℕ) :
  n.repr.toList ≠ []
  := by
  rw [Nat.toList_repr]
  apply Nat.toDigits_ne_nil

theorem toList_toString_negSucc (n : ℕ) :
  (toString (Int.negSucc n)).toList = '-' :: (n + 1).repr.toList
  := String.toList_append

theorem isDecimal_of_mem_toString {n : ℤ} {c : Char} (h : c ∈ (toString n).toList) :
  isDecimal c = true
  := by
  cases n with
  | ofNat n => rw [isDecimal, isDigit_of_mem_repr h, Bool.true_or]
  | negSucc n =>
      rw [toList_toString_negSucc] at h
      rcases List.mem_cons.mp h with rfl | h
      · rfl
      · rw [isDecimal, isDigit_of_mem_repr h, Bool.true_or]

theorem toList_toString_ne_nil (n : ℤ) :
  (toString n).toList ≠ []
  := by
  cases n with
  | ofNat n => exact toList_repr_ne_nil n
  | negSucc n =>
      rw [toList_toString_negSucc]
      apply List.cons_ne_nil

theorem takeWhile_isDigit_repr (n : ℕ) :
  n.repr.toList.takeWhile Char.isDigit = n.repr.toList
  := by
  rw [List.takeWhile_eq_self_iff]
  intro c hc
  apply isDigit_of_mem_repr hc

theorem ofDigitChars_repr (n : ℕ) :
  Nat.ofDigitChars 10 n.repr.toList 0 = n
  := by
  rw [Nat.toList_repr]
  apply Nat.ofDigitChars_toDigits (by decide) (by decide)

/-- A number that is an `int` is read back from its digits. -/
theorem stoi_toString {n : ℤ} (hlow : -2147483648 ≤ n) (hhigh : n < 2147483648) :
  stoi (toString n).toList = .ok n
  := by
  cases n with
  | ofNat n =>
      have hhead : (n.repr.toList.head? == some '-') = false := by
        rw [beq_eq_false_iff_ne]
        intro hhead
        have hdigit := isDigit_of_mem_repr (List.mem_of_head? hhead)
        exact absurd hdigit (by decide)
      have hdigits : (toString (Int.ofNat n)).toList = n.repr.toList := rfl
      simp only [stoi, hdigits, hhead, Bool.false_eq_true, if_false, takeWhile_isDigit_repr,
        ofDigitChars_repr]
      apply if_pos ⟨toList_repr_ne_nil n, hlow, hhigh⟩
  | negSucc n =>
      simp only [stoi, toList_toString_negSucc, List.head?_cons, beq_self_eq_true, if_true,
        List.tail_cons, takeWhile_isDigit_repr, ofDigitChars_repr]
      apply if_pos ⟨toList_repr_ne_nil _, hlow, hhigh⟩

end Text
