import Mathlib.Logic.Equiv.Basic
import SmolVlm2Kv260.Kernel.Bridge
import SmolVlm2Kv260.Kernel.Vit

/-!
# The pixel shuffle

`pixel_shuffle_4x` puts the channels of four by four neighbouring patches after one another.
An entry is given by its image token, its patch in the block of that token, and its channel.
The lane from which an entry is read and the byte to which it is written both determine it, so
the shuffle permutes the entries, and the bytes of an image token are those of its block.
-/

set_option autoImplicit false

namespace Kv260

open Blocks Memory

/-! ### Entries -/

/-- Image tokens in a row of an image. -/
abbrev imageGrid : ℕ := vitPatchGrid / pixelShuffleFactor

/-- Channel `c` of patch `(py, px)` in the block of the image token `(oy, ox)`. -/
structure PatchEntry where
  oy : Fin imageGrid
  ox : Fin imageGrid
  py : Fin pixelShuffleFactor
  px : Fin pixelShuffleFactor
  c : Fin vitC

namespace PatchEntry

/-- The image token of the entry. -/
def outTok (e : PatchEntry) : ℕ := e.oy * imageGrid + e.ox

/-- The lane of the entry among the tokens. -/
def lane (e : PatchEntry) : ℕ :=
  ((e.oy * pixelShuffleFactor + e.py) * vitPatchGrid + (e.ox * pixelShuffleFactor + e.px)) * vitC
    + e.c

/-- The byte of the entry in the shuffled buffer. -/
def byte (e : PatchEntry) : ℕ :=
  e.outTok * connectorIn + (e.py * pixelShuffleFactor + e.px) * vitC + e.c

/-- The numbers of an entry, with their bounds. -/
theorem bounds (e : PatchEntry) :
  e.oy.val < 8 ∧ e.ox.val < 8 ∧ e.py.val < 4 ∧ e.px.val < 4 ∧ e.c.val < 768
  := ⟨e.oy.isLt, e.ox.isLt, e.py.isLt, e.px.isLt, e.c.isLt⟩

theorem ext_val {e e' : PatchEntry} (h : e.oy.val = e'.oy.val ∧ e.ox.val = e'.ox.val
    ∧ e.py.val = e'.py.val ∧ e.px.val = e'.px.val ∧ e.c.val = e'.c.val) :
  e = e'
  := by
  obtain ⟨hoy, hox, hpy, hpx, hc⟩ := h
  cases e
  cases e'
  simp only [mk.injEq, Fin.ext_iff]
  exact ⟨hoy, hox, hpy, hpx, hc⟩

theorem outTok_eq (e : PatchEntry) :
  e.outTok = e.oy * 8 + e.ox
  := rfl

theorem lane_eq (e : PatchEntry) :
  e.lane = ((e.oy * 4 + e.py) * 32 + (e.ox * 4 + e.px)) * 768 + e.c
  := rfl

theorem byte_eq (e : PatchEntry) :
  e.byte = (e.oy * 8 + e.ox) * 12288 + (e.py * 4 + e.px) * 768 + e.c
  := rfl

/-- The entry read from a lane. -/
def ofLane (n : Fin (vitTokens * vitC)) : PatchEntry where
  oy := ⟨n / vitC / vitPatchGrid / pixelShuffleFactor, by
    have h : n.val < 1024 * 768 := n.isLt
    change n.val / 768 / 32 / 4 < 8
    omega⟩
  ox := ⟨n / vitC % vitPatchGrid / pixelShuffleFactor, by
    change n.val / 768 % 32 / 4 < 8
    omega⟩
  py := ⟨n / vitC / vitPatchGrid % pixelShuffleFactor, Nat.mod_lt _ (by decide)⟩
  px := ⟨n / vitC % vitPatchGrid % pixelShuffleFactor, Nat.mod_lt _ (by decide)⟩
  c := ⟨n % vitC, Nat.mod_lt _ (by decide)⟩

/-- The entry written to a byte. -/
def ofByte (n : Fin (imageTokens * connectorIn)) : PatchEntry where
  oy := ⟨n / connectorIn / imageGrid, by
    have h : n.val < 64 * 12288 := n.isLt
    change n.val / 12288 / 8 < 8
    omega⟩
  ox := ⟨n / connectorIn % imageGrid, Nat.mod_lt _ (by decide)⟩
  py := ⟨n % connectorIn / vitC / pixelShuffleFactor, by
    change n.val % 12288 / 768 / 4 < 4
    omega⟩
  px := ⟨n % connectorIn / vitC % pixelShuffleFactor, Nat.mod_lt _ (by decide)⟩
  c := ⟨n % connectorIn % vitC, Nat.mod_lt _ (by decide)⟩

end PatchEntry

open PatchEntry

/-- An entry and its lane. -/
def laneEquiv : PatchEntry ≃ Fin (vitTokens * vitC) where
  toFun e := ⟨e.lane, by
    have h := e.bounds
    rw [lane_eq]
    change _ < 1024 * 768
    omega⟩
  invFun := ofLane
  left_inv e := by
    have h := e.bounds
    apply ext_val
    change e.lane / 768 / 32 / 4 = e.oy.val ∧ e.lane / 768 % 32 / 4 = e.ox.val
      ∧ e.lane / 768 / 32 % 4 = e.py.val ∧ e.lane / 768 % 32 % 4 = e.px.val
      ∧ e.lane % 768 = e.c.val
    rw [lane_eq]
    omega
  right_inv n := by
    apply Fin.ext
    change ((n.val / 768 / 32 / 4 * 4 + n.val / 768 / 32 % 4) * 32
      + (n.val / 768 % 32 / 4 * 4 + n.val / 768 % 32 % 4)) * 768 + n.val % 768 = n.val
    omega

/-- An entry and its byte. -/
def byteEquiv : PatchEntry ≃ Fin (imageTokens * connectorIn) where
  toFun e := ⟨e.byte, by
    have h := e.bounds
    rw [byte_eq]
    change _ < 64 * 12288
    omega⟩
  invFun := ofByte
  left_inv e := by
    have h := e.bounds
    apply ext_val
    change e.byte / 12288 / 8 = e.oy.val ∧ e.byte / 12288 % 8 = e.ox.val
      ∧ e.byte % 12288 / 768 / 4 = e.py.val ∧ e.byte % 12288 / 768 % 4 = e.px.val
      ∧ e.byte % 12288 % 768 = e.c.val
    rw [byte_eq]
    omega
  right_inv n := by
    apply Fin.ext
    change (n.val / 12288 / 8 * 8 + n.val / 12288 % 8) * 12288
      + (n.val % 12288 / 768 / 4 * 4 + n.val % 12288 / 768 % 4) * 768
      + n.val % 12288 % 768 = n.val
    omega

/-! ### The words written -/

/-- The words of a buffer. -/
def axiWords : Cells (ℕ → AXI256) ℕ AXI256 where
  read base i := base i
  write base i w := Function.update base i w
  read_write base i w j := by rw [Function.update_apply]

section Words

variable (tokens shuffled : ℕ → AXI256)

/-- The words the shuffle writes. -/
def shuffleLog : List (ℕ × AXI256) :=
  (List.range imageGrid).flatMap fun oy =>
    (List.range imageGrid).flatMap fun ox =>
      (List.range pixelShuffleFactor).flatMap fun py =>
        (List.range pixelShuffleFactor).flatMap fun px =>
          (List.range (vitC / 32)).map fun cw =>
            (((oy * imageGrid + ox) * connectorIn + (py * pixelShuffleFactor + px) * vitC + cw * 32)
              / 32, shuffledWord tokens oy ox py px cw)

theorem pixelShuffle4x_eq :
  pixelShuffle4x tokens shuffled = axiWords.writeAll shuffled (shuffleLog tokens)
  := by
  rw [shuffleLog, Cells.writeAll_flatMap]
  apply List.foldl_ext
  intro shuffled oy _
  rw [Cells.writeAll_flatMap]
  apply List.foldl_ext
  intro shuffled ox _
  rw [Cells.writeAll_flatMap]
  apply List.foldl_ext
  intro shuffled py _
  rw [Cells.writeAll_flatMap]
  apply List.foldl_ext
  intro shuffled px _
  rw [Cells.writeAll, List.foldl_map]
  rfl

theorem mem_shuffleLog {w : ℕ × AXI256} :
  w ∈ shuffleLog tokens
    ↔ ∃ oy < 8, ∃ ox < 8, ∃ py < 4, ∃ px < 4, ∃ cw < 24,
        w = (((oy * 8 + ox) * 12288 + (py * 4 + px) * 768 + cw * 32) / 32,
          shuffledWord tokens oy ox py px cw)
  := by
  simp only [shuffleLog, List.mem_flatMap, List.mem_map, List.mem_range, eq_comm (a := w)]
  rfl

/-- The word of an entry is written once. -/
theorem latest_shuffleLog (e : PatchEntry) :
  latest (shuffleLog tokens) (e.byte / 32)
    = some (shuffledWord tokens e.oy e.ox e.py e.px (e.c / 32))
  := by
  obtain ⟨hoy, hox, hpy, hpx, hc⟩ := e.bounds
  apply latest_eq_some
  · rw [mem_shuffleLog]
    refine ⟨e.oy, hoy, e.ox, hox, e.py, hpy, e.px, hpx, e.c / 32, by omega, ?_⟩
    rw [byte_eq]
    congr 1
    omega
  · intro w hw hword
    obtain ⟨oy, hoy', ox, hox', py, hpy', px, hpx', cw, hcw, rfl⟩ := (mem_shuffleLog tokens).mp hw
    rw [byte_eq] at hword
    obtain ⟨rfl, rfl, rfl, rfl, rfl⟩ : oy = e.oy.val ∧ ox = e.ox.val ∧ py = e.py.val
        ∧ px = e.px.val ∧ cw = e.c.val / 32 := by omega
    rfl

/-- The byte of an entry is its lane, requantised. -/
theorem axiReadI8Linear_byte (e : PatchEntry) :
  axiReadI8Linear (pixelShuffle4x tokens shuffled) e.byte
    = (requantInt8 (axiReadI32 tokens e.lane)).toInt
  := by
  obtain ⟨hoy, hox, hpy, hpx, hc⟩ := e.bounds
  have hword : pixelShuffle4x tokens shuffled (e.byte / 32)
      = shuffledWord tokens e.oy e.ox e.py e.px (e.c / 32) := by
    have hread := axiWords.read_writeAll shuffled (shuffleLog tokens) (e.byte / 32)
    rw [latest_shuffleLog, Option.getD_some, ← pixelShuffle4x_eq] at hread
    apply hread
  have hbyte : e.byte % 32 = e.c % 32 := by
    rw [byte_eq]
    omega
  have hlane : e.lane = ((e.oy * 4 + e.py) * 32 + (e.ox * 4 + e.px)) * 768
      + e.c / 32 * 32 + e.c % 32 := by
    rw [lane_eq]
    omega
  rw [axiReadI8Linear, hword, hbyte, shuffledWord,
    extractLsb'_packLanes _ (by decide) (Nat.mod_lt _ (by decide)), hlane]
  rfl

/-- The words behind the image tokens are as before. -/
theorem pixelShuffle4x_frame {i : ℕ} (hi : imageTokens * connectorIn ≤ i * 32) :
  pixelShuffle4x tokens shuffled i = shuffled i
  := by
  have hnone : latest (shuffleLog tokens) i = none := by
    apply latest_eq_none
    rintro w hw rfl
    obtain ⟨oy, hoy, ox, hox, py, hpy, px, hpx, cw, hcw, rfl⟩ := (mem_shuffleLog tokens).mp hw
    change 64 * 12288 ≤ ((oy * 8 + ox) * 12288 + (py * 4 + px) * 768 + cw * 32) / 32 * 32 at hi
    omega
  have hread := axiWords.read_writeAll shuffled (shuffleLog tokens) i
  rw [hnone, Option.getD_none, ← pixelShuffle4x_eq] at hread
  apply hread

end Words

/-! ### The rows of the connector -/

/-- The image token in whose block patch `tok` lies. -/
def blockOf (tok : ℕ) : ℕ :=
  tok / vitPatchGrid / pixelShuffleFactor * imageGrid + tok % vitPatchGrid / pixelShuffleFactor

/-- The shuffle as a permutation of the positions: a lane goes to the byte of its entry. -/
def shuffleEquiv : Fin (vitTokens * vitC) ≃ Fin (imageTokens * connectorIn) :=
  laneEquiv.symm.trans byteEquiv

theorem shuffleEquiv_lane (e : PatchEntry) :
  shuffleEquiv (laneEquiv e) = byteEquiv e
  := by
  rw [shuffleEquiv, Equiv.trans_apply, Equiv.symm_apply_apply]

theorem outTok_eq_blockOf (e : PatchEntry) :
  e.byte / connectorIn = e.outTok ∧ blockOf (e.lane / vitC) = e.outTok
  := by
  have h := e.bounds
  change e.byte / 12288 = _
    ∧ e.lane / 768 / 32 / 4 * 8 + e.lane / 768 % 32 / 4 = _
  rw [byte_eq, lane_eq, outTok_eq]
  omega

/-- The bytes of an image token are those whose lanes belong to a patch of its block. -/
theorem shuffleEquiv_div (n : Fin (vitTokens * vitC)) :
  (shuffleEquiv n).val / connectorIn = blockOf (n.val / vitC)
  := by
  obtain ⟨e, rfl⟩ := laneEquiv.surjective n
  rw [shuffleEquiv_lane]
  apply (outTok_eq_blockOf e).1.trans (outTok_eq_blockOf e).2.symm

/-- Activation `k` of image token `m`: a channel of a patch in its block. -/
def blockActivation (tokens : ℕ → AXI256) (m k : ℕ) : ℤ :=
  let y := m / imageGrid * pixelShuffleFactor + k / vitC / pixelShuffleFactor
  let x := m % imageGrid * pixelShuffleFactor + k / vitC % pixelShuffleFactor
  (requantInt8 (axiReadI32 tokens ((y * vitPatchGrid + x) * vitC + k % vitC))).toInt

/-- The lane of byte `k` of image token `m`. -/
theorem lane_of_byte {e : PatchEntry} {m k : ℕ} (hk : k < 12288) (hbyte : e.byte = m * 12288 + k) :
  e.lane = ((m / 8 * 4 + k / 768 / 4) * 32 + (m % 8 * 4 + k / 768 % 4)) * 768 + k % 768
  := by
  have h := e.bounds
  rw [byte_eq] at hbyte
  have htok : e.oy.val * 8 + e.ox = m := by omega
  have hslot : (e.py.val * 4 + e.px) * 768 + e.c = k := by
    rw [htok, Nat.add_assoc] at hbyte
    apply Nat.add_left_cancel hbyte
  have hoy : m / 8 = e.oy := by omega
  have hox : m % 8 = e.ox := by omega
  have hpatch : k / 768 = e.py * 4 + e.px := by omega
  have hpy : (e.py.val * 4 + e.px) / 4 = e.py := by omega
  have hpx : (e.py.val * 4 + e.px) % 4 = e.px := by omega
  have hchan : k % 768 = e.c := by omega
  rw [lane_eq, hoy, hox, hpatch, hpy, hpx, hchan]

section Rows

variable (tokens shuffled : ℕ → AXI256)

theorem axiReadI8Linear_row {m k : ℕ} (hm : m < imageTokens) (hk : k < connectorIn) :
  axiReadI8Linear (pixelShuffle4x tokens shuffled) (m * connectorIn + k)
    = blockActivation tokens m k
  := by
  have hpos : m * connectorIn + k < imageTokens * connectorIn := by
    change m < 64 at hm
    change k < 12288 at hk
    change m * 12288 + k < 64 * 12288
    omega
  obtain ⟨e, he⟩ := byteEquiv.surjective ⟨m * connectorIn + k, hpos⟩
  have hbyte : e.byte = m * connectorIn + k := congrArg Fin.val he
  rw [← hbyte, axiReadI8Linear_byte, lane_of_byte hk hbyte]
  rfl

/-- The connector multiplies the blocks. -/
theorem connector_row (projectorWgt projectorMeta out : ℕ → AXI256) (wgtOffset metaOffset : ℕ)
    {m n : ℕ} (hm : m < imageTokens) (hn : n < connectorOut) :
  axiReadI32Linear (smolvlm2ConnectorKernel tokens projectorWgt projectorMeta shuffled out true
      wgtOffset metaOffset) (m * connectorOut + n)
    = apInt 32 (∑ k ∈ Finset.range connectorIn,
      pairedProduct (columnWeight (fun i => projectorWgt (wgtOffset + i))
        (fun i => projectorMeta (metaOffset + i)) connectorIn connectorOut k) n
        (blockActivation tokens m k))
  := by
  have hlane := (unifiedGemm_refines (pixelShuffle4x tokens shuffled)
    (fun i => projectorWgt (wgtOffset + i)) (fun i => projectorMeta (metaOffset + i)) imageTokens
    connectorIn connectorOut (by decide) out).1 m hm n hn
  have hsum : ∀ k ∈ Finset.range connectorIn,
      pairedProduct (columnWeight (fun i => projectorWgt (wgtOffset + i))
          (fun i => projectorMeta (metaOffset + i)) connectorIn connectorOut k) n
          (axiReadI8Linear (pixelShuffle4x tokens shuffled) (m * connectorIn + k))
        = pairedProduct (columnWeight (fun i => projectorWgt (wgtOffset + i))
          (fun i => projectorMeta (metaOffset + i)) connectorIn connectorOut k) n
          (blockActivation tokens m k) := by
    intro k hk
    rw [axiReadI8Linear_row tokens shuffled hm (Finset.mem_range.mp hk)]
  rw [unifiedElem, Finset.sum_congr rfl hsum] at hlane
  rw [smolvlm2ConnectorKernel]
  simp only [if_true]
  apply hlane

/-- For any tokens, the shuffle puts each entry at its byte, the entries, the lanes and the bytes
are in bijection, and row `m` of the connector holds exactly the block of image token `m`. -/
theorem pixelShuffle4x_permutes :
  (∀ oy < 8, ∀ ox < 8, ∀ py < 4, ∀ px < 4, ∀ c < 768,
    axiReadI8Linear (pixelShuffle4x tokens shuffled)
        ((oy * 8 + ox) * 12288 + (py * 4 + px) * 768 + c)
      = (BitVec.ofInt 8
          (axiReadI32 tokens (((oy * 4 + py) * 32 + (ox * 4 + px)) * 768 + c) / 256)).toInt)
    ∧ Function.Bijective byteEquiv ∧ Function.Bijective laneEquiv
    ∧ (∀ e, (byteEquiv e).val = e.byte ∧ (laneEquiv e).val = e.lane)
    ∧ (∀ n, (shuffleEquiv n).val / connectorIn = blockOf (n.val / vitC)
      ∧ axiReadI8Linear (pixelShuffle4x tokens shuffled) (shuffleEquiv n).val
        = (requantInt8 (axiReadI32 tokens n.val)).toInt)
    ∧ ∀ (projectorWgt projectorMeta out : ℕ → AXI256) (wgtOffset metaOffset : ℕ),
      ∀ m < imageTokens, ∀ n < connectorOut,
        axiReadI32Linear (smolvlm2ConnectorKernel tokens projectorWgt projectorMeta shuffled out
            true wgtOffset metaOffset) (m * connectorOut + n)
          = apInt 32 (∑ k ∈ Finset.range connectorIn,
            pairedProduct (columnWeight (fun i => projectorWgt (wgtOffset + i))
              (fun i => projectorMeta (metaOffset + i)) connectorIn connectorOut k) n
              (blockActivation tokens m k))
  := by
  refine ⟨?_, byteEquiv.bijective, laneEquiv.bijective, fun e => ⟨rfl, rfl⟩, ?_, ?_⟩
  · intro oy hoy ox hox py hpy px hpx c hc
    have hentry := axiReadI8Linear_byte tokens shuffled
      ⟨⟨oy, hoy⟩, ⟨ox, hox⟩, ⟨py, hpy⟩, ⟨px, hpx⟩, ⟨c, hc⟩⟩
    rw [byte_eq, lane_eq, requantInt8, Int.shiftRight_eq_div_pow] at hentry
    apply hentry
  · intro n
    obtain ⟨e, rfl⟩ := laneEquiv.surjective n
    refine ⟨shuffleEquiv_div _, ?_⟩
    rw [shuffleEquiv_lane]
    apply axiReadI8Linear_byte
  · intro projectorWgt projectorMeta out wgtOffset metaOffset m hm n hn
    apply connector_row tokens shuffled projectorWgt projectorMeta out wgtOffset metaOffset hm hn

end Rows

end Kv260
