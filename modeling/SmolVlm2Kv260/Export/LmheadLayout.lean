import SmolVlm2Kv260.Export.MatrixFile

/-!
# The matrix of the language model head

The export writes the first half of the rows of the head to one file and the second half to
another, and the runner loads the two files back to back into one buffer; so the buffer holds
all rows in order.  The decoder kernel hands `w4a8_gemm` the buffer as the port of the even
columns, and the same buffer advanced by a constant as the port of the odd ones.
-/

set_option autoImplicit false

namespace Kv260

open Blocks

/-! ### Files and ports -/

/-- `lmhead_wgt_half0.bin` or `lmhead_wgt_half1.bin`. -/
def lmheadWgtHalf (h : Fin 2) (W : ℕ → ℕ → ℚ) : List (BitVec 8) :=
  (halfRows vocab h).flatMap fun row => packedRow C (W row)

/-- `lmhead_meta_half0.bin` or `lmhead_meta_half1.bin`. -/
def lmheadMetaHalf (h : Fin 2) (W : ℕ → ℕ → ℚ) : List (BitVec 8) :=
  (halfRows vocab h).flatMap fun row => metaRow C (W row)

/-- The ports when the two files of weights, and those of metadata, are loaded back to back. -/
def exportedLmheadPorts (W : ℕ → ℕ → ℚ) (wgtBeyond metaBeyond : ℕ → BitVec 8) : WeightPorts :=
  lmheadPorts (axiWord (fileMemory (lmheadWgtHalf 0 W ++ lmheadWgtHalf 1 W) wgtBeyond))
    (axiWord (fileMemory (lmheadMetaHalf 0 W ++ lmheadMetaHalf 1 W) metaBeyond))

/-- For every matrix, the kernel fetches group `kg` of row `n` for token `n`. -/
def LmheadFetchesRow (n kg : ℕ) : Prop :=
  ∀ (W : ℕ → ℕ → ℚ) (wgtBeyond metaBeyond : ℕ → BitVec 8),
    (exportedLmheadPorts W wgtBeyond metaBeyond).fetchPack (C / grp) n kg = exportedPack (W n) kg
      ∧ (exportedLmheadPorts W wgtBeyond metaBeyond).fetchMeta (C / grp) n kg
        = (rtnScaleByte grp (W n) kg, rtnZeroByte)

/-- The two halves are the rows in order. -/
theorem flatMap_halves (rows : ℕ) (f : ℕ → List (BitVec 8)) :
  (halfRows rows 0).flatMap f ++ (halfRows rows 1).flatMap f = (List.range rows).flatMap f
  := by
  have hone : (1 : Fin 2) ≠ 0 := by decide
  rw [flatMap_range_split f (Nat.div_le_self rows 2)]
  simp only [halfRows, if_true, if_neg hone, List.flatMap_map]

/-! ### The fetched group -/

/-- The words by which the port of a column is advanced. -/
def lmheadWgtBase (n : ℕ) : ℕ := if n % 2 = 0 then 0 else vocab / 2 / 32

/-- The same for the metadata. -/
def lmheadMetaBase (n : ℕ) : ℕ := if n % 2 = 0 then 0 else vocab / (grp * 16)

section Fetch

variable (W : ℕ → ℕ → ℚ) (wgtBeyond metaBeyond : ℕ → BitVec 8) (n kg : ℕ)

theorem fetchPack_lmhead :
  (exportedLmheadPorts W wgtBeyond metaBeyond).fetchPack (C / grp) n kg
    = unifiedPack
        (fun i => axiWord (fileMemory (packedBytes vocab C W) wgtBeyond) (lmheadWgtBase n + i))
        (n * (C / grp) + kg)
  := by
  have hfile : lmheadWgtHalf 0 W ++ lmheadWgtHalf 1 W = packedBytes vocab C W :=
    flatMap_halves vocab _
  rw [exportedLmheadPorts, hfile, lmheadWgtBase]
  rcases Nat.mod_two_eq_zero_or_one n with h | h
  · simp only [WeightPorts.fetchPack, lmheadPorts, unifiedPack, h, if_true, Nat.zero_add]
  · simp only [WeightPorts.fetchPack, lmheadPorts, unifiedPack, h, one_ne_zero, if_false]

theorem fetchMeta_lmhead :
  (exportedLmheadPorts W wgtBeyond metaBeyond).fetchMeta (C / grp) n kg
    = unifiedMeta
        (fun i => axiWord (fileMemory (metaBytes vocab C W) metaBeyond) (lmheadMetaBase n + i))
        (n * (C / grp) + kg)
  := by
  have hfile : lmheadMetaHalf 0 W ++ lmheadMetaHalf 1 W = metaBytes vocab C W :=
    flatMap_halves vocab _
  rw [exportedLmheadPorts, hfile, lmheadMetaBase]
  rcases Nat.mod_two_eq_zero_or_one n with h | h
  · simp only [WeightPorts.fetchMeta, lmheadPorts, unifiedMeta, h, if_true, Nat.zero_add]
  · simp only [WeightPorts.fetchMeta, lmheadPorts, unifiedMeta, h, one_ne_zero, if_false]

end Fetch

/-- The rows of the even tokens are found. -/
theorem lmheadFetchesRow_of_even {n kg : ℕ} (hn : n < vocab) (hkg : kg < C / grp)
    (heven : n % 2 = 0) :
  LmheadFetchesRow n kg
  := by
  intro W wgtBeyond metaBeyond
  have hwgt : lmheadWgtBase n = 0 := if_pos heven
  have hmeta : lmheadMetaBase n = 0 := if_pos heven
  constructor
  · rw [fetchPack_lmhead, hwgt]
    apply unifiedPack_eq_exportedPack
    intro b hb
    rw [Nat.mul_zero, Nat.zero_add, fileMemory,
      getElem?_packedBytes W (by decide) hn hkg hb, Option.getD_some]
  · rw [fetchMeta_lmhead, hmeta]
    apply unifiedMeta_eq_bytes
    intro b hb
    have hlt : b < (metaBlock (W n) kg).length := hb
    rw [Nat.mul_zero, Nat.zero_add, fileMemory, getElem?_metaBytes W hn hkg hb,
      List.getElem?_eq_getElem hlt, Option.getD_some]

/-- For an odd token the kernel fetches the group that lies 1540 groups further on. -/
theorem fetchPack_lmhead_odd (W : ℕ → ℕ → ℚ) (wgtBeyond metaBeyond : ℕ → BitVec 8) {n kg : ℕ}
    (hodd : n % 2 = 1) {i : ℕ} (hi : i < 128) :
  ((exportedLmheadPorts W wgtBeyond metaBeyond).fetchPack (C / grp) n kg).getLsbD i
    = (fileMemory (packedBytes vocab C W) wgtBeyond
        ((n * (C / grp) + kg + 1540) * 16 + i / 8)).getLsbD (i % 8)
  := by
  have hbase : lmheadWgtBase n = 770 := if_neg (by omega)
  have hbyte : 32 * 770 + 16 * (n * (C / grp) + kg) + i / 8
      = (n * (C / grp) + kg + 1540) * 16 + i / 8 := by omega
  rw [fetchPack_lmhead, hbase, unifiedPack_getLsbD _ _ _ hi, hbyte]

/-- The row of an odd token is not found: a matrix that is one in a single group tells it from
the group that is fetched. -/
theorem even_of_lmheadFetchesRow {n kg : ℕ} (hn : n < vocab) (hkg : kg < C / grp)
    (hfetches : LmheadFetchesRow n kg) :
  n % 2 = 0
  := by
  rcases Nat.mod_two_eq_zero_or_one n with heven | hodd
  · exact heven
  exfalso
  let W : ℕ → ℕ → ℚ := pointWeights .qkv n kg .qkv
  have hpack := (hfetches W (fun _ => 0) fun _ => 0).1
  have hbit := congrArg (fun v => v.getLsbD 0) hpack
  have hexported : (exportedPack (W n) kg).getLsbD 0 = true := by
    rw [exportedPack_getLsbD _ _ (by decide), weightBlock_pointWeights]
    simp
  rw [hexported, fetchPack_lmhead_odd W _ _ hodd (by decide)] at hbit
  change n < 49280 at hn
  change kg < 30 at hkg
  -- the group that is fetched, by its row and its place in the row
  have hindex : n * (C / grp) + kg + 1540
      = (n * 30 + kg + 1540) / 30 * (C / grp) + (n * 30 + kg + 1540) % 30 := by
    change n * 30 + kg + 1540 = (n * 30 + kg + 1540) / 30 * 30 + (n * 30 + kg + 1540) % 30
    omega
  rw [hindex] at hbit
  rcases Nat.lt_or_ge ((n * 30 + kg + 1540) / 30) vocab with hrow | hrow
  · have hcols : grp ∣ C := by decide
    have hcol : (n * 30 + kg + 1540) % 30 < C / grp := Nat.mod_lt _ (by decide)
    have hfirst : 0 / 8 < 16 := by decide
    have hbyte := getElem?_packedBytes W hcols hrow hcol hfirst
    have hblock := weightBlock_pointWeights .qkv .qkv n kg ((n * 30 + kg + 1540) / 30)
      ((n * 30 + kg + 1540) % 30)
    have hother : ¬ (LayerMatrix.qkv = .qkv ∧ (n * 30 + kg + 1540) / 30 = n
        ∧ (n * 30 + kg + 1540) % 30 = kg) := by omega
    rw [decide_eq_false hother] at hblock
    rw [fileMemory, hbyte, Option.getD_some] at hbit
    cases hbit.symm.trans hblock
  · -- the memory after the files holds zeros
    have hlen : (packedBytes vocab C W).length
        ≤ ((n * 30 + kg + 1540) / 30 * (C / grp) + (n * 30 + kg + 1540) % 30) * 16 + 0 / 8 := by
      rw [length_packedBytes]
      change 49280 ≤ (n * 30 + kg + 1540) / 30 at hrow
      change 49280 * 480
        ≤ ((n * 30 + kg + 1540) / 30 * 30 + (n * 30 + kg + 1540) % 30) * 16 + 0
      omega
    rw [fileMemory, List.getElem?_eq_none hlen, Option.getD_none] at hbit
    simp at hbit

/-- The row of a token is where the kernel fetches it exactly for the even tokens. -/
theorem lmheadFetchesRow_iff {n kg : ℕ} (hn : n < vocab) (hkg : kg < C / grp) :
  LmheadFetchesRow n kg ↔ n % 2 = 0
  := ⟨even_of_lmheadFetchesRow hn hkg, lmheadFetchesRow_of_even hn hkg⟩

theorem lmheadFetchesRow_last :
  LmheadFetchesRow 49278 29
  := (lmheadFetchesRow_iff (by decide) (by decide)).mpr (by decide)

/-- For token 1 the kernel fetches from row 52. -/
theorem not_lmheadFetchesRow_one :
  ¬ LmheadFetchesRow 1 0
  := by
  intro hfetches
  have heven := even_of_lmheadFetchesRow (by decide) (by decide) hfetches
  contradiction

end Kv260
