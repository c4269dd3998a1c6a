import Mathlib.Data.List.Infix
import Mathlib.Tactic.Common

/-!
# Searching a text

The searches of `std::string`, as functions on lists of characters: the result `none` is
`npos`.  A search finds the first place from a position on; what is found is described by the
rest of the text from there.
-/

set_option autoImplicit false

namespace Text

/-! ### Characters -/

/-- `find_first_of(pos)`, for the characters that satisfy `p`. -/
def findChar (p : Char → Bool) (text : List Char) (pos : ℕ) : Option ℕ :=
  ((text.drop pos).findIdx? p).map (pos + ·)

/-- `substr(pos, count)`. -/
def substr (text : List Char) (pos count : ℕ) : List Char := (text.drop pos).take count

theorem drop_add {text pre rest : List Char} {pos : ℕ} (h : text.drop pos = pre ++ rest) :
  text.drop (pos + pre.length) = rest
  := by
  rw [← List.drop_drop, h, List.drop_left]

/-- The first character that satisfies `p` is found behind those that do not. -/
theorem findChar_eq {p : Char → Bool} {text pre rest : List Char} {pos : ℕ} {c : Char}
    (h : text.drop pos = pre ++ c :: rest) (hpre : ∀ x ∈ pre, p x = false) (hc : p c = true) :
  findChar p text pos = some (pos + pre.length)
  := by
  have hidx : (pre ++ c :: rest).findIdx? p = some pre.length := by
    rw [List.findIdx?_append, List.findIdx?_eq_none_iff.mpr hpre, List.findIdx?_cons, if_pos hc,
      Option.none_or, Option.map_some, Nat.zero_add]
  rw [findChar, h, hidx, Option.map_some]

/-- No character is found where none satisfies `p`. -/
theorem findChar_eq_none {p : Char → Bool} {text : List Char} {pos : ℕ}
    (h : ∀ x ∈ text.drop pos, p x = false) :
  findChar p text pos = none
  := by
  rw [findChar, List.findIdx?_eq_none_iff.mpr h, Option.map_none]

theorem substr_eq {text pre rest : List Char} {pos : ℕ} (h : text.drop pos = pre ++ rest) :
  substr text pos pre.length = pre
  := by
  rw [substr, h, List.take_left]

/-! ### Substrings -/

/-- The first place at which the needle stands. -/
def findFrom (needle : List Char) : List Char → Option ℕ
  | [] => if needle = [] then some 0 else none
  | c :: text => if needle <+: c :: text then some 0 else (findFrom needle text).map (· + 1)

/-- `find(needle, pos)`. -/
def find (needle text : List Char) (pos : ℕ) : Option ℕ :=
  if pos ≤ text.length then (findFrom needle (text.drop pos)).map (pos + ·) else none

theorem prefix_drop_of_findFrom {needle text : List Char} {i : ℕ}
    (h : findFrom needle text = some i) :
  needle <+: text.drop i
  := by
  induction text generalizing i with
  | nil =>
      by_cases hneedle : needle = []
      · rw [hneedle]
        apply List.nil_prefix
      · rw [findFrom, if_neg hneedle] at h
        cases h
  | cons c text ih =>
      by_cases hprefix : needle <+: c :: text
      · rw [findFrom, if_pos hprefix] at h
        injection h with h
        rwa [← h]
      · rw [findFrom, if_neg hprefix, Option.map_eq_some_iff] at h
        obtain ⟨j, hj, rfl⟩ := h
        apply ih hj

/-- A needle that is found stands behind the position and before the end. -/
theorem bounds_of_find {needle text : List Char} {pos i : ℕ} (hneedle : needle ≠ [])
    (h : find needle text pos = some i) :
  pos ≤ i ∧ i + needle.length ≤ text.length
  := by
  by_cases hpos : pos ≤ text.length
  · rw [find, if_pos hpos, Option.map_eq_some_iff] at h
    obtain ⟨j, hj, rfl⟩ := h
    have hlen := (prefix_drop_of_findFrom hj).length_le
    have hnonempty := List.length_pos_iff.mpr hneedle
    rw [List.length_drop, List.length_drop] at hlen
    omega
  · rw [find, if_neg hpos] at h
    cases h

/-- A needle does not begin in a text without its first character. -/
theorem findFrom_append {q : Char} {needle pre : List Char} (hq : q ∉ pre)
    (text : List Char) :
  findFrom (q :: needle) (pre ++ text) = (findFrom (q :: needle) text).map (pre.length + ·)
  := by
  induction pre with
  | nil =>
      rw [List.nil_append]
      simp only [List.length_nil, Nat.zero_add, Option.map_id']
  | cons c pre ih =>
      have hc : ¬ q :: needle <+: c :: (pre ++ text) := by
        intro h
        apply hq
        rw [(List.cons_prefix_cons.mp h).1]
        apply List.mem_cons_self
      rw [List.cons_append, findFrom, if_neg hc, ih fun h => hq (List.mem_cons_of_mem c h),
        Option.map_map]
      congr 1
      funext i
      simp only [Function.comp_apply, List.length_cons]
      omega

/-- Where the needle stands at the position itself, it is found there. -/
theorem findFrom_of_prefix {needle text : List Char} (h : needle <+: text) :
  findFrom needle text = some 0
  := by
  cases text with
  | nil => rw [findFrom, if_pos (List.prefix_nil.mp h)]
  | cons c text => rw [findFrom, if_pos h]

end Text
