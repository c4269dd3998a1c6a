import SmolVlm2Kv260.Export.WeightLayout

/-!
# The file of a matrix

A matrix that `np_quantize_w4_rtn` has quantised is written to a file row by row, and its
metadata to another.  This module reads a group of a row back from the bytes: its sixteen
bytes of weights hold the thirty-two codes in the order of the columns.
-/

set_option autoImplicit false

namespace Kv260

open Blocks

/-! ### Bytes -/

/-- `packed.tobytes()`. -/
def packedBytes (rows cols : ℕ) (W : ℕ → ℕ → ℚ) : List (BitVec 8) :=
  (List.range rows).flatMap fun row => packedRow cols (W row)

/-- `np.stack([scales, zeros], axis=-1).reshape(packed.shape[0], -1).tobytes()`. -/
def metaBytes (rows cols : ℕ) (W : ℕ → ℕ → ℚ) : List (BitVec 8) :=
  (List.range rows).flatMap fun row => metaRow cols (W row)

section Rows

variable {rows cols : ℕ} (W : ℕ → ℕ → ℚ)

theorem length_packedBytes :
  (packedBytes rows cols W).length = rows * (cols / 2)
  := by
  apply length_flatMap_range
  intro row _
  rw [packedRow, List.length_map, List.length_range]

theorem length_metaBytes :
  (metaBytes rows cols W).length = rows * (cols / grp * 2)
  := by
  apply length_flatMap_range
  intro row _
  apply length_flatMap_range
  intro g _
  rfl

/-- Entry `b` of block `kg` of row `n`, when each row has `groups` blocks of length `k`. -/
theorem getElem?_rowBlocks {groups k n kg b : ℕ} {block : ℕ → ℕ → List (BitVec 8)}
    (hlen : ∀ r g, (block r g).length = k) (hn : n < rows) (hkg : kg < groups) (hb : b < k) :
  ((List.range rows).flatMap fun r =>
      (List.range groups).flatMap (block r))[(n * groups + kg) * k + b]? = (block n kg)[b]?
  := by
  have hrow : ∀ r < rows, ((List.range groups).flatMap (block r)).length = groups * k :=
    fun r _ => length_flatMap_range fun g _ => hlen r g
  have hlt : kg * k + b < groups * k := mul_add_lt_mul hkg hb
  have hindex : (n * groups + kg) * k + b = n * (groups * k) + (kg * k + b) := by
    rw [Nat.add_mul, Nat.mul_assoc, Nat.add_assoc]
  rw [hindex, getElem?_flatMap_range hrow hn hlt]
  apply getElem?_flatMap_range (fun g _ => hlen n g) hkg hb

/-- Byte `b` of group `kg` of row `n`. -/
theorem getElem?_packedBytes (hcols : grp ∣ cols) {n kg b : ℕ} (hn : n < rows)
    (hkg : kg < cols / grp) (hb : b < 16) :
  (packedBytes rows cols W)[(n * (cols / grp) + kg) * 16 + b]?
    = some (rtnPacked grp (W n) (kg * 16 + b))
  := by
  have hlen : ∀ r g, (weightBlock (W r) g).length = 16 := by
    intro r g
    apply length_weightBlock
  have hblock := getElem?_rowBlocks hlen hn hkg hb
  simp only [packedBytes, packedRow_eq_weightBlocks hcols, hblock, weightBlock,
    List.getElem?_map, List.getElem?_range hb, Option.map_some]

theorem getElem?_metaBytes {n kg b : ℕ} (hn : n < rows) (hkg : kg < cols / grp) (hb : b < 2) :
  (metaBytes rows cols W)[(n * (cols / grp) + kg) * 2 + b]? = (metaBlock (W n) kg)[b]?
  := by
  have hlen : ∀ r g, (metaBlock (W r) g).length = 2 := by
    intro r g
    apply length_metaBlock
  apply getElem?_rowBlocks hlen hn hkg hb

end Rows

/-! ### Codes -/

/-- A code is one of sixteen. -/
theorem rtnStored_lt (w : ℕ → ℚ) (c : ℕ) :
  (rtnStored grp w c).toNat < 16
  := by
  unfold rtnStored npClip
  generalize npRound _ = q
  rw [BitVec.toNat_ofInt]
  omega

/-- Of a byte that two columns share, the low nibble is that of the even column, the high
nibble that of the odd one. -/
theorem packNibbles_getLsbD (f : ℕ → BitVec 8) (j : ℕ) {i : ℕ} (hi : i < 4) :
  ((f (2 * (j / 2)) &&& 0x0F) ||| ((f (2 * (j / 2) + 1) &&& 0x0F) <<< 4)).getLsbD
      (j % 2 * 4 + i)
    = (f j).getLsbD i
  := by
  have hlow : ∀ a b : BitVec 8, ∀ i < 4,
      ((a &&& 0x0F) ||| ((b &&& 0x0F) <<< 4)).getLsbD (0 * 4 + i) = a.getLsbD i := by
    intro a b i hi
    obtain rfl | rfl | rfl | rfl : i = 0 ∨ i = 1 ∨ i = 2 ∨ i = 3 := by omega
    all_goals simp
  have hhigh : ∀ a b : BitVec 8, ∀ i < 4,
      ((a &&& 0x0F) ||| ((b &&& 0x0F) <<< 4)).getLsbD (1 * 4 + i) = b.getLsbD i := by
    intro a b i hi
    obtain rfl | rfl | rfl | rfl : i = 0 ∨ i = 1 ∨ i = 2 ∨ i = 3 := by omega
    all_goals simp
  rcases Nat.mod_two_eq_zero_or_one j with h | h
  · have hj : 2 * (j / 2) = j := by omega
    rw [h, hlow _ _ i hi, hj]
  · have hj : 2 * (j / 2) + 1 = j := by omega
    rw [h, hhigh _ _ i hi, hj]

theorem rtnPacked_getLsbD (w : ℕ → ℚ) (j : ℕ) {i : ℕ} (hi : i < 4) :
  (rtnPacked grp w (j / 2)).getLsbD (j % 2 * 4 + i) = (rtnStored grp w j).getLsbD i
  := packNibbles_getLsbD (rtnStored grp w) j hi

/-- Nibble `j` of an exported pack is the code of column `j` of its group. -/
theorem exportedPack_nibble (w : ℕ → ℚ) (g : ℕ) {j : ℕ} (hj : j < grp) :
  ((exportedPack w g).extractLsb' (j * 4) 4).toNat = (rtnStored grp w (g * grp + j)).toNat
  := by
  have hj' : j < 32 := hj
  have hnibble : (exportedPack w g).extractLsb' (j * 4) 4
      = (rtnStored grp w (g * grp + j)).setWidth 4 := by
    apply BitVec.eq_of_getLsbD_eq
    intro i hi
    have hbit : j * 4 + i < 128 := by omega
    have hbyte : g * 16 + (j * 4 + i) / 8 = (g * grp + j) / 2 := by
      change g * 16 + (j * 4 + i) / 8 = (g * 32 + j) / 2
      omega
    have hlane : (j * 4 + i) % 8 = (g * grp + j) % 2 * 4 + i := by
      change (j * 4 + i) % 8 = (g * 32 + j) % 2 * 4 + i
      omega
    rw [getLsbD_extractLsb'_of_lt _ _ hi, exportedPack, getLsbD_ofBits_of_lt _ hbit, hbyte, hlane,
      rtnPacked_getLsbD w _ hi, BitVec.getLsbD_setWidth, decide_eq_true hi, Bool.true_and]
  rw [hnibble, BitVec.toNat_setWidth]
  apply Nat.mod_eq_of_lt (rtnStored_lt w _)

/-! ### Fetching a group -/

/-- Sixteen bytes of a group make up its exported pack. -/
theorem unifiedPack_eq_exportedPack {mem : ℕ → BitVec 8} {base off : ℕ} {w : ℕ → ℚ} {g : ℕ}
    (hmem : ∀ b < 16, mem (32 * base + (off * 16 + b)) = rtnPacked grp w (g * 16 + b)) :
  unifiedPack (fun i => axiWord mem (base + i)) off = exportedPack w g
  := by
  apply BitVec.eq_of_getLsbD_eq
  intro i hi
  have hbyte : 32 * base + 16 * off + i / 8 = 32 * base + (off * 16 + i / 8) := by omega
  rw [unifiedPack_getLsbD mem base off hi, hbyte, hmem _ (by omega), exportedPack,
    getLsbD_ofBits_of_lt _ hi]

/-- Two bytes of metadata are the scale and the zero point of their group. -/
theorem unifiedMeta_eq_bytes {mem : ℕ → BitVec 8} {base off : ℕ} {w : ℕ → ℚ} {g : ℕ}
    (hmem : ∀ b < 2, some (mem (32 * base + (off * 2 + b))) = (metaBlock w g)[b]?) :
  unifiedMeta (fun i => axiWord mem (base + i)) off = (rtnScaleByte grp w g, rtnZeroByte)
  := by
  have hscale := Option.some.inj (hmem 0 (by decide))
  have hzero := Option.some.inj (hmem 1 (by decide))
  have hlow : 32 * base + 2 * off = 32 * base + (off * 2 + 0) := by omega
  have hhigh : 32 * base + (off * 2 + 0) + 1 = 32 * base + (off * 2 + 1) := by omega
  rw [unifiedMeta_axiWord, hlow, hhigh, hscale, hzero]

end Kv260
