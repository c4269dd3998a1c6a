import SmolVlm2Kv260.Dataflow.DecoderLayer
import SmolVlm2Kv260.Host.Runner

/-!
# The rows of the arrays on the chip

The residual buffers and the buffers of a multiplication have `MAX_L` rows.  A multiplication
numbers its rows from zero, so a tile of a prompt is far from their end; the residual buffers
are addressed by the token itself.  The prefill accepts prompts of up to `max_seq` tokens,
and those beyond `MAX_L` leave the residual buffers.
-/

set_option autoImplicit false

namespace Kv260

open Proc Blocks

/-! ### Rows used -/

/-- The arrays on the chip that are addressed by rows. -/
inductive RowArray where
  | resBuf0
  | resBuf1
  | actBuf
  | tokScales
  deriving DecidableEq

/-- A row of an array that is read or written. -/
structure RowUse where
  array : RowArray
  row : ℕ

/-- The rows of the loop over the work tokens that `load_act`, `res_to_stream`,
`residual_add_range`, the copy loop and `store_act` share. -/
def workRows (tokenOffset tokenCount : ℕ) : List ℕ :=
  (List.range tokenCount).map fun t => tokenOffset + t

/-- The rows of `w4a8_gemm`: the activations and scales are buffered, and then read for each
tile. -/
def gemmRows (M N : ℕ) : List RowUse :=
  (List.range M).map (RowUse.mk .actBuf) ++ (List.range M).map (RowUse.mk .tokScales)
    ++ (List.range (tileCount tileN N)).flatMap fun _ =>
      (List.range (tileCount tileM M)).flatMap fun i =>
        (List.range (tileLen tileM M i)).flatMap fun m =>
          [⟨.actBuf, i * tileM + m⟩, ⟨.tokScales, i * tileM + m⟩]

namespace Launch

variable (l : Launch)

/-- The rows that the work tokens have in a residual buffer. -/
def resRows (array : RowArray) : List RowUse :=
  (workRows l.workTokenOffset l.workTokenCount).map (RowUse.mk array)

/-- The rows of the branch `run_lmhead`. -/
def lmheadRows : List RowUse :=
  if l.runLmhead ≠ 0 then ⟨.resBuf1, l.seqLen - 1⟩ :: gemmRows 1 vocab else []

/-- The rows that a launch uses, stage by stage. -/
def rowUses : List RowUse :=
  -- `load_act`, `res_to_stream`, and the multiplications up to the projection
  l.resRows .resBuf0 ++ l.resRows .resBuf0
    ++ gemmRows l.workTokenCount nQkv ++ gemmRows l.workTokenCount C
  -- `residual_add_range`, the copy loop, and `res_to_stream`
    ++ l.resRows .resBuf0 ++ (l.resRows .resBuf0 ++ l.resRows .resBuf1) ++ l.resRows .resBuf1
  -- the feed-forward part, `residual_add_range` and `store_act`
    ++ gemmRows l.workTokenCount nFfnGateup ++ gemmRows l.workTokenCount C
    ++ l.resRows .resBuf1 ++ l.resRows .resBuf1
    ++ l.lmheadRows

end Launch

theorem mem_workRows {tokenOffset tokenCount r : ℕ} :
  r ∈ workRows tokenOffset tokenCount ↔ ∃ t < tokenCount, tokenOffset + t = r
  := by
  simp only [workRows, List.mem_map, List.mem_range]

/-! ### The rows of a prefill -/

theorem mem_gemmRows {M N : ℕ} {u : RowUse} (h : u ∈ gemmRows M N) :
  (u.array = .actBuf ∨ u.array = .tokScales) ∧ u.row < M
  := by
  simp only [gemmRows, List.mem_append, List.mem_map, List.mem_range, List.mem_flatMap,
    List.mem_cons, List.not_mem_nil, or_false] at h
  rcases h with (⟨t, ht, rfl⟩ | ⟨t, ht, rfl⟩) | ⟨_, _, i, _, m, hm, rfl | rfl⟩
  · exact ⟨.inl rfl, ht⟩
  · exact ⟨.inr rfl, ht⟩
  · exact ⟨.inl rfl, tile_lt hm⟩
  · exact ⟨.inr rfl, tile_lt hm⟩

section Launch

variable {l : Launch} {u : RowUse}

theorem Launch.mem_resRows {array : RowArray} :
  u ∈ l.resRows array
    ↔ u.array = array ∧ u.row ∈ workRows l.workTokenOffset l.workTokenCount
  := by
  simp only [Launch.resRows, List.mem_map]
  constructor
  · rintro ⟨r, hr, rfl⟩
    exact ⟨rfl, hr⟩
  · rintro ⟨rfl, hr⟩
    exact ⟨u.row, hr, rfl⟩

/-- A launch uses the rows of its work tokens in the residual buffers, the rows below their number
in a multiplication, and those of the branch `run_lmhead`. -/
theorem Launch.mem_rowUses (h : u ∈ l.rowUses) :
  u.row ∈ workRows l.workTokenOffset l.workTokenCount
    ∨ ((u.array = .actBuf ∨ u.array = .tokScales) ∧ u.row < l.workTokenCount)
    ∨ u ∈ l.lmheadRows
  := by
  simp only [rowUses, List.mem_append] at h
  rcases h with ((((((((((h | h) | h) | h) | h) | h | h) | h) | h) | h) | h) | h) | h
  all_goals first
    | exact .inl (mem_resRows.mp h).2
    | exact .inr (.inl (mem_gemmRows h))
    | exact .inr (.inr h)

theorem Launch.lmheadRows_eq_nil (hl : l.runLmhead = 0) :
  l.lmheadRows = []
  := if_neg (not_not.mpr hl)

/-- The branch uses the row of the last token, and one row in its multiplication. -/
theorem Launch.mem_lmheadRows (h : u ∈ l.lmheadRows) :
  u.row = l.seqLen - 1 ∨ u.row < 1
  := by
  rw [lmheadRows] at h
  split_ifs at h
  · rcases List.mem_cons.mp h with rfl | hgemm
    · exact .inl rfl
    · exact .inr (mem_gemmRows hgemm).2
  · cases h

/-- A residual buffer is used by its own stages only. -/
theorem Launch.row_lt_of_gemm (hl : l.runLmhead = 0) (h : u ∈ l.rowUses)
    (harray : u.array = .actBuf ∨ u.array = .tokScales) :
  u.row < l.workTokenCount
  := by
  have hlmhead : u ∉ l.lmheadRows := by
    rw [lmheadRows_eq_nil hl]
    apply List.not_mem_nil
  have hres : ∀ {array}, array = .resBuf0 ∨ array = .resBuf1 → u ∉ l.resRows array := by
    rintro array hres hu
    rw [(mem_resRows.mp hu).1] at harray
    rcases hres with rfl | rfl <;> simp at harray
  simp only [rowUses, List.mem_append, hlmhead, or_false, hres (.inl rfl), hres (.inr rfl),
    false_or] at h
  rcases h with ((h | h) | h) | h
  all_goals exact (mem_gemmRows h).2

/-- `load_act` uses the rows of the work tokens. -/
theorem Launch.mem_rowUses_of_mem_workRows {r : ℕ}
    (h : r ∈ workRows l.workTokenOffset l.workTokenCount) :
  ⟨.resBuf0, r⟩ ∈ l.rowUses
  := by
  have hmem : ⟨.resBuf0, r⟩ ∈ l.resRows .resBuf0 := mem_resRows.mpr ⟨rfl, h⟩
  simp only [rowUses, List.mem_append, hmem, true_or]

end Launch

/-- The launches of an accepted prompt. -/
theorem launches_of_runPrefillThroughput {maxSeq seqLen : ℕ} {offsets : List WeightOffsets}
    {ls : List Launch} (h : runPrefillThroughput maxSeq seqLen offsets = .ok ls) :
  ls = (RunnerCall.prefillThroughput seqLen).launches offsets
  := by
  rw [runPrefillThroughput] at h
  split_ifs at h
  exact (Except.ok.inj h).symm

/-- The work tokens of the launches of a prefill are those of its tiles. -/
theorem mem_prefill_launches {seqLen : ℕ} {offsets : List WeightOffsets} {l : Launch}
    (h : l ∈ (RunnerCall.prefillThroughput seqLen).launches offsets) :
  l.runLmhead = 0 ∧ ∃ i, l.workTokenOffset = i * prefillTokenTile
    ∧ l.workTokenCount = tileLen prefillTokenTile seqLen i
  := by
  obtain ⟨layer, -, tile, ht, rfl⟩ := RunnerCall.mem_launches.mp h
  obtain ⟨i, -, rfl⟩ := List.mem_map.mp ht
  exact ⟨rfl, i, rfl, rfl⟩

/-- Every token of a prompt is a work token of some launch. -/
theorem exists_prefill_launch {seqLen r : ℕ} (h : r < seqLen) (offsets : List WeightOffsets) :
  ∃ l ∈ (RunnerCall.prefillThroughput seqLen).launches offsets,
    r ∈ workRows l.workTokenOffset l.workTokenCount
  := by
  obtain ⟨i, hi, j, hj, rfl⟩ := (lt_iff_exists_tile (by decide : 0 < prefillTokenTile)).mp h
  refine ⟨_, RunnerCall.mem_launches.mpr ⟨0, by decide, _,
    List.mem_map_of_mem (List.mem_range.mpr hi), rfl⟩, ?_⟩
  exact mem_workRows.mpr ⟨j, hj, rfl⟩

/-- The launches of an accepted prompt stay within the rows of all arrays when it has at most
`MAX_L` tokens; within those of a multiplication they always do. -/
theorem prefill_rows_lt_maxL_iff {maxSeq seqLen : ℕ} {offsets : List WeightOffsets}
    {ls : List Launch} (haccept : runPrefillThroughput maxSeq seqLen offsets = .ok ls) :
  ((∀ l ∈ ls, ∀ u ∈ l.rowUses, u.row < maxL) ↔ seqLen ≤ maxL)
  ∧ ∀ l ∈ ls, ∀ u ∈ l.rowUses, u.array = .actBuf ∨ u.array = .tokScales → u.row < maxL
  := by
  obtain rfl := launches_of_runPrefillThroughput haccept
  have htile : ∀ i, tileLen prefillTokenTile seqLen i < maxL := fun i =>
    Nat.lt_of_le_of_lt (tileLen_le prefillTokenTile seqLen i) (by decide)
  constructor
  · constructor
    · intro h
      by_contra! hlong
      obtain ⟨l, hl, hr⟩ := exists_prefill_launch hlong offsets
      apply Nat.lt_irrefl maxL (h l hl _ (Launch.mem_rowUses_of_mem_workRows hr))
    · intro hle l hl u hu
      obtain ⟨hlmhead, i, hoffset, hcount⟩ := mem_prefill_launches hl
      rcases Launch.mem_rowUses hu with hr | ⟨-, hlt⟩ | hlm
      · rw [hoffset, hcount] at hr
        obtain ⟨t, ht, hrow⟩ := mem_workRows.mp hr
        rw [← hrow]
        apply Nat.lt_of_lt_of_le (tile_lt ht) hle
      · rw [hcount] at hlt
        apply hlt.trans (htile i)
      · rw [Launch.lmheadRows_eq_nil hlmhead] at hlm
        cases hlm
  · intro l hl u hu harray
    obtain ⟨hlmhead, i, -, hcount⟩ := mem_prefill_launches hl
    have hlt := Launch.row_lt_of_gemm hlmhead hu harray
    rw [hcount] at hlt
    apply hlt.trans (htile i)

/-- A prompt of 500 tokens has sixteen tiles. -/
theorem prefill_rows_lt_maxL_tile :
  runPrefillThroughput hwMaxSeq (500 : ℕ) [] = .ok ((RunnerCall.prefillThroughput 500).launches [])
  ∧ (RunnerCall.prefillThroughput 500).tiles.length = 16
  ∧ ((∀ l ∈ (RunnerCall.prefillThroughput 500).launches [], ∀ u ∈ l.rowUses, u.row < maxL)
      ↔ 500 ≤ maxL)
  := by
  have haccept : runPrefillThroughput hwMaxSeq (500 : ℕ) []
    = .ok ((RunnerCall.prefillThroughput 500).launches []) := rfl
  exact ⟨haccept, rfl, (prefill_rows_lt_maxL_iff haccept).1⟩

/-- The runner accepts a prompt of 513 tokens, and its last tile loads row 512. -/
theorem prefill_rows_not_lt_maxL :
  ∃ ls, runPrefillThroughput hwMaxSeq 513 [] = .ok ls
    ∧ ∃ l ∈ ls, ∃ u ∈ l.rowUses, u.array = .resBuf0 ∧ ¬ u.row < maxL
  := by
  refine ⟨_, rfl, ?_⟩
  obtain ⟨l, hl, hr⟩ := exists_prefill_launch (by decide : 512 < 513) []
  exact ⟨l, hl, _, Launch.mem_rowUses_of_mem_workRows hr, rfl, by decide⟩

end Kv260
