import Mathlib.Data.List.Basic
import Mathlib.Data.Option.Basic
import Mathlib.Data.Set.Function

/-!
# Memories of cells

A memory often has no room of its own for each of its cells: a cell may be a part of a wider
word that it shares with others, and writing it then reads the word, changes the part and
writes the word back.  `Cells M ι V` says that the memories `M` nevertheless hold a value
of `V` in each cell of `ι`: reading after a write gives what was written to the cell, and what
the cell held before otherwise.

A write log is the list of writes of a program, the earliest first.  What a cell holds
after the writes is what was written to it last (`read_writeAll`), and `latest` finds that
value in the log.
-/

set_option autoImplicit false

namespace Memory

variable {M ι κ V : Type} [DecidableEq ι] [DecidableEq κ]

/-- The memories `M` have the cells `ι`, which hold values of `V`. -/
structure Cells (M ι V : Type) [DecidableEq ι] where
  read : M → ι → V
  write : M → ι → V → M
  read_write : ∀ (m : M) (i : ι) (v : V) (j : ι),
    read (write m i v) j = if j = i then v else read m j

/-- The memory after the writes of a log. -/
def Cells.writeAll (S : Cells M ι V) (m : M) (log : List (ι × V)) : M :=
  log.foldl (fun m w => S.write m w.1 w.2) m

/-- What a log writes to a cell last, if it writes to it at all. -/
def latest : List (ι × V) → ι → Option V
  | [], _ => none
  | w :: log, i => (latest log i).or (if w.1 = i then some w.2 else none)

/-! ### The last write -/

/-- The last write is one of the log. -/
theorem mem_of_latest {log : List (ι × V)} {i : ι} {v : V} (h : latest log i = some v) :
  (i, v) ∈ log
  := by
  induction log with
  | nil => cases h
  | cons w log ih =>
      rw [latest, Option.or_eq_some_iff] at h
      rcases h with h | ⟨-, h⟩
      · apply List.mem_cons_of_mem _ (ih h)
      · obtain ⟨rfl, rfl⟩ : w.1 = i ∧ w.2 = v := by
          split at h
          · exact ⟨‹_›, Option.some.inj h⟩
          · cases h
        apply List.mem_cons_self

/-- A cell the log does not write to has no last write. -/
theorem latest_eq_none {log : List (ι × V)} {i : ι} (h : ∀ w ∈ log, w.1 ≠ i) :
  latest log i = none
  := by
  rw [Option.eq_none_iff_forall_ne_some]
  intro v hv
  apply h (i, v) (mem_of_latest hv) rfl

/-- A cell to which only `v` is written holds `v` afterwards. -/
theorem latest_eq_some {log : List (ι × V)} {i : ι} {v : V} (hmem : (i, v) ∈ log)
    (h : ∀ w ∈ log, w.1 = i → w.2 = v) :
  latest log i = some v
  := by
  induction log with
  | nil => cases hmem
  | cons w log ih =>
      rw [latest, Option.or_eq_some_iff]
      rcases hlog : latest log i with _ | v'
      · rcases List.mem_cons.mp hmem with rfl | hmem
        · exact .inr ⟨rfl, if_pos rfl⟩
        · have hlast := ih hmem fun w hw => h w (List.mem_cons_of_mem _ hw)
          rw [hlog] at hlast
          cases hlast
      · obtain rfl : v' = v := h (i, v') (List.mem_cons_of_mem _ (mem_of_latest hlog)) rfl
        exact .inl rfl

/-- The last write is the same when the cells are addressed by numbers, as long as different
cells of the log have different addresses. -/
theorem latest_map {f : ι → κ} {s : Set ι} (hf : Set.InjOn f s) {log : List (ι × V)}
    (hlog : ∀ w ∈ log, w.1 ∈ s) {i : ι} (hi : i ∈ s) :
  latest (log.map (Prod.map f id)) (f i) = latest log i
  := by
  induction log with
  | nil => rfl
  | cons w log ih =>
      have hw := hf.eq_iff (hlog w List.mem_cons_self) hi
      rw [List.map_cons, latest, latest, ih fun w hw => hlog w (List.mem_cons_of_mem _ hw)]
      simp only [Prod.map_fst, Prod.map_snd, id_eq, hw]

/-! ### Memories after a log -/

namespace Cells

variable (S : Cells M ι V)

theorem read_write_of_ne (m : M) {i j : ι} (v : V) (h : j ≠ i) :
  S.read (S.write m i v) j = S.read m j
  := by rw [S.read_write, if_neg h]

theorem writeAll_append (m : M) (log log' : List (ι × V)) :
  S.writeAll m (log ++ log') = S.writeAll (S.writeAll m log) log'
  := List.foldl_append

/-- A loop whose iterations write logs of their own. -/
theorem writeAll_flatMap {α : Type} (m : M) (l : List α) (f : α → List (ι × V)) :
  S.writeAll m (l.flatMap f) = l.foldl (fun m a => S.writeAll m (f a)) m
  := List.foldl_flatMap

/-- After the writes of a log a cell holds what was written to it last, and what it held
before the log when nothing was written to it. -/
theorem read_writeAll (m : M) (log : List (ι × V)) (i : ι) :
  S.read (S.writeAll m log) i = (latest log i).getD (S.read m i)
  := by
  induction log generalizing m with
  | nil => rfl
  | cons w log ih =>
      have hcons : S.writeAll m (w :: log) = S.writeAll (S.write m w.1 w.2) log := rfl
      rw [hcons, ih, latest, S.read_write]
      rcases latest log i with _ | v
      · rcases eq_or_ne i w.1 with rfl | hne
        · rw [if_pos rfl, Option.none_or, if_pos rfl, Option.getD_none, Option.getD_some]
        · rw [if_neg hne, Option.none_or, if_neg hne.symm, Option.getD_none]
      · rw [Option.some_or, Option.getD_some, Option.getD_some]

end Cells

end Memory
