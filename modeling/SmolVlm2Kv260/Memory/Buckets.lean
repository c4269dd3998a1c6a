import Mathlib.Data.List.Basic

/-!
# Buckets

The elements of a list are sorted into buckets by a key, the buckets in the order in which their
keys first occur.  Each bucket holds the elements of its key in their order in the list.
-/

set_option autoImplicit false

namespace Buckets

variable {α κ : Type*} [DecidableEq κ]

/-- The bucket of a key, empty if there is none. -/
def bucket (key : κ) : List (κ × List α) → List α
  | [] => []
  | (k, xs) :: buckets => if k = key then xs else bucket key buckets

/-- Adds an element to the bucket of its key, which is opened after the others if there is
none. -/
def insert (key : κ) (x : α) : List (κ × List α) → List (κ × List α)
  | [] => [(key, [x])]
  | (k, xs) :: buckets =>
      if k = key then (k, xs ++ [x]) :: buckets else (k, xs) :: insert key x buckets

/-- Adds the elements of a list one after the other. -/
def insertAll (f : α → κ) (buckets : List (κ × List α)) (l : List α) : List (κ × List α) :=
  l.foldl (fun buckets x => insert (f x) x buckets) buckets

/-! ### One element -/

theorem bucket_insert (k key : κ) (x : α) (buckets : List (κ × List α)) :
  bucket k (insert key x buckets) = bucket k buckets ++ if key = k then [x] else []
  := by
  induction buckets with
  | nil => simp [insert, bucket]
  | cons b buckets ih =>
    obtain ⟨k', xs⟩ := b
    rw [insert]
    split
    case isTrue h =>
      subst h
      rw [bucket, bucket]
      by_cases hk : k' = k
      · simp [hk]
      · simp [hk]
    case isFalse h =>
      rw [bucket, bucket, ih]
      by_cases hk : k' = k
      · subst hk
        simp [Ne.symm h]
      · simp [hk]

theorem mem_keys_insert (k key : κ) (x : α) (buckets : List (κ × List α)) :
  k ∈ (insert key x buckets).map Prod.fst ↔ k = key ∨ k ∈ buckets.map Prod.fst
  := by
  induction buckets with
  | nil => simp [insert]
  | cons b buckets ih =>
    obtain ⟨k', xs⟩ := b
    rw [insert]
    split
    case isTrue h =>
      subst h
      simp
    case isFalse =>
      rw [List.map_cons, List.map_cons, List.mem_cons, List.mem_cons, ih]
      apply or_left_comm

/-! ### Sorted elements -/

/-- Each bucket holds elements of its key, and no other bucket has the key. -/
def Sorted (f : α → κ) : List (κ × List α) → Prop
  | [] => True
  | (k, xs) :: buckets => (∀ x ∈ xs, f x = k) ∧ k ∉ buckets.map Prod.fst ∧ Sorted f buckets

theorem Sorted.insert {f : α → κ} {buckets : List (κ × List α)} (h : Sorted f buckets) (x : α) :
  Sorted f (insert (f x) x buckets)
  := by
  induction buckets with
  | nil => simp [Buckets.insert, Sorted]
  | cons b buckets ih =>
    obtain ⟨k, xs⟩ := b
    obtain ⟨keyed, fresh, rest⟩ := h
    rw [Buckets.insert]
    split
    case isTrue hk =>
      refine ⟨?_, fresh, rest⟩
      intro y hy
      rcases List.mem_append.mp hy with old | new
      · exact keyed y old
      · rw [List.mem_singleton.mp new, hk]
    case isFalse hk =>
      refine ⟨keyed, ?_, ih rest⟩
      rw [mem_keys_insert]
      rintro (same | other)
      · exact hk same
      · exact fresh other

theorem bucket_eq_nil {k : κ} {buckets : List (κ × List α)} (h : k ∉ buckets.map Prod.fst) :
  bucket k buckets = []
  := by
  induction buckets with
  | nil => rfl
  | cons b buckets ih =>
    rw [List.map_cons, List.mem_cons, not_or] at h
    rw [bucket, if_neg (Ne.symm h.1), ih h.2]

/-- What is taken out of each bucket, of one key. -/
theorem Sorted.filter_flatMap {f : α → κ} {buckets : List (κ × List α)} (h : Sorted f buckets)
    {g : List α → List α} (hg : ∀ xs, g xs ⊆ xs) (k : κ) :
  (buckets.flatMap fun b => g b.2).filter (fun x => f x = k) = g (bucket k buckets)
  := by
  induction buckets with
  | nil => exact (List.subset_nil.mp (hg [])).symm
  | cons b buckets ih =>
    obtain ⟨k', xs⟩ := b
    obtain ⟨keyed, fresh, rest⟩ := h
    rw [List.flatMap_cons, List.filter_append, ih rest, bucket]
    split
    case isTrue hk =>
      subst hk
      have all_kept : (g xs).filter (fun x => f x = k') = g xs := by
        apply List.filter_eq_self.mpr
        intro x hx
        exact decide_eq_true (keyed x (hg xs hx))
      rw [all_kept, bucket_eq_nil fresh, List.subset_nil.mp (hg []), List.append_nil]
    case isFalse hk =>
      have none_kept : (g xs).filter (fun x => f x = k) = [] := by
        apply List.filter_eq_nil_iff.mpr
        intro x hx same
        exact hk ((keyed x (hg xs hx)).symm.trans (of_decide_eq_true same))
      rw [none_kept, List.nil_append]

/-! ### All elements -/

theorem Sorted.insertAll {f : α → κ} {buckets : List (κ × List α)} (h : Sorted f buckets)
    (l : List α) :
  Sorted f (insertAll f buckets l)
  := by
  induction l generalizing buckets with
  | nil => exact h
  | cons x l ih => apply ih (h.insert x)

theorem bucket_insertAll (f : α → κ) (buckets : List (κ × List α)) (l : List α) (k : κ) :
  bucket k (insertAll f buckets l) = bucket k buckets ++ l.filter (fun x => f x = k)
  := by
  induction l generalizing buckets with
  | nil => exact (List.append_nil _).symm
  | cons x l ih =>
    rw [insertAll, List.foldl_cons, ← insertAll, ih, bucket_insert, List.append_assoc]
    by_cases h : f x = k
    · simp [h]
    · simp [h]

/-- What is taken out of each bucket of a list is taken out of its elements of each key. -/
theorem filter_flatMap_insertAll (f : α → κ) (l : List α) {g : List α → List α}
    (hg : ∀ xs, g xs ⊆ xs) (k : κ) :
  ((insertAll f [] l).flatMap fun b => g b.2).filter (fun x => f x = k)
    = g (l.filter fun x => f x = k)
  := by
  have empty : Sorted f [] := trivial
  have sorted := empty.insertAll l
  rw [sorted.filter_flatMap hg, bucket_insertAll]
  rfl

/-- Two lists whose elements of each key are the same have the same elements. -/
theorem perm_of_filter_eq {f : α → κ} {l l' : List α}
    (h : ∀ k, l.filter (fun x => f x = k) = l'.filter (fun x => f x = k)) :
  l.Perm l'
  := by
  classical
  apply List.perm_iff_count.mpr
  intro x
  have same := congrArg (List.count x) (h (f x))
  have of_key : decide (f x = f x) = true := decide_eq_true rfl
  rwa [List.count_filter (p := fun y => f y = f x) of_key,
    List.count_filter (p := fun y => f y = f x) of_key] at same

end Buckets
