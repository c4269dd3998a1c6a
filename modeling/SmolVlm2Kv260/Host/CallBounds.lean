import SmolVlm2Kv260.Host.RowBounds
import SmolVlm2Kv260.Host.SeqLimit

/-!
# The bounds of a call

The arrays on the chip have `MAX_L` rows and the KV cache `MAX_SEQ` positions, and the kernel
compares its arguments with neither.  A call whose tokens and positions are below both keeps all
of its launches inside: every row that a stage uses exists, and every half word and pack belongs
to its own layer and head.
-/

set_option autoImplicit false

namespace Kv260

open Blocks

/-- The tokens of the call are rows of the residual buffers, and its positions are below the
length of the KV cache. -/
def RunnerCall.InBounds : RunnerCall → Prop
  | prefillThroughput seqLen => seqLen ≤ maxL
  | decodeTtftToken pos kvLen => pos < maxSeq ∧ kvLen < maxSeq
  | decodeThroughputWindow pos kvLen windowTokens =>
      (1 ≤ windowTokens ∧ windowTokens ≤ maxL)
        ∧ pos + windowTokens ≤ maxSeq ∧ kvLen + windowTokens ≤ maxSeq

instance (call : RunnerCall) : Decidable call.InBounds :=
  match call with
  | .prefillThroughput seqLen => inferInstanceAs (Decidable (seqLen ≤ maxL))
  | .decodeTtftToken pos kvLen => inferInstanceAs (Decidable (pos < maxSeq ∧ kvLen < maxSeq))
  | .decodeThroughputWindow _ _ _ => inferInstanceAs (Decidable (_ ∧ _))

/-- The launch uses rows and positions that exist. -/
structure Launch.InBounds (l : Launch) : Prop where
  rows : ∀ u ∈ l.rowUses, u.row < maxL
  kv : l.KvInBounds

theorem Launch.inBounds_of_workFits {l : Launch} (hfits : l.WorkFits)
    (hlast : l.runLmhead ≠ 0 → l.seqLen ≤ maxL ∧ 1 ≤ l.seqLen)
    (hcache : l.cachePositions ≤ maxSeq) (hkv : l.kvLen ≤ maxSeq) :
  l.InBounds
  := by
  have hcount : l.workTokenCount ≤ maxL := (Nat.le_add_left _ _).trans hfits
  refine ⟨?_, l.kvInBounds_of_le hcache hkv⟩
  intro u hu
  rcases Launch.mem_rowUses hu with hwork | ⟨-, hlt⟩ | hlm
  · obtain ⟨t, ht, hrow⟩ := mem_workRows.mp hwork
    rw [← hrow]
    apply Nat.lt_of_lt_of_le (Nat.add_lt_add_left ht _) hfits
  · apply hlt.trans_le hcount
  · by_cases hrun : l.runLmhead = 0
    · rw [Launch.lmheadRows_eq_nil hrun] at hlm
      cases hlm
    · obtain ⟨hle, hpos⟩ := hlast hrun
      rcases Launch.mem_lmheadRows hlm with hrow | hrow
      · rw [hrow]
        omega
      · apply hrow.trans (by decide)

namespace RunnerCall

variable {call : RunnerCall} {offsets : List WeightOffsets} {l : Launch}

/-- The tiles of a call hold its tokens. -/
theorem tile_le {tile : ℕ × ℕ} (h : tile ∈ call.tiles) :
  tile.1 + tile.2 ≤ call.tokens
  := by
  cases call with
  | prefillThroughput seqLen =>
      obtain ⟨i, hi, rfl⟩ := List.mem_map.mp h
      have hlt := lt_of_lt_tileCount (by decide) (List.mem_range.mp hi)
      dsimp only [tokens, tileLen]
      split_ifs <;> omega
  | _ =>
      obtain rfl := List.mem_singleton.mp h
      apply Nat.le_of_eq (Nat.zero_add _)

theorem InBounds.tokens_le (h : call.InBounds) :
  call.tokens ≤ maxL
  := by
  cases call with
  | prefillThroughput seqLen => exact h
  | decodeTtftToken pos kvLen => exact (by decide : 1 ≤ maxL)
  | decodeThroughputWindow pos kvLen windowTokens => exact h.1.2

/-- The work tokens of its launches are rows of the residual buffers. -/
theorem InBounds.workFits (h : call.InBounds) (hl : l ∈ call.launches offsets) :
  l.WorkFits
  := by
  obtain ⟨layer, -, tile, ht, rfl⟩ := mem_launches.mp hl
  rw [Launch.WorkFits, call.workTokenOffset_launch offsets layer ht,
    call.workTokenCount_launch offsets layer ht]
  exact (tile_le ht).trans h.tokens_le

/-- The launches of a call in bounds are in bounds. -/
theorem InBounds.launch (h : call.InBounds) (hl : l ∈ call.launches offsets) :
  l.InBounds
  := by
  have hfits := h.workFits hl
  obtain ⟨layer, -, tile, ht, rfl⟩ := mem_launches.mp hl
  have hmax : maxL ≤ maxSeq := by decide
  cases call with
  | prefillThroughput seqLen =>
      have hle : seqLen ≤ maxL := h
      have htile := tile_le ht
      apply Launch.inBounds_of_workFits hfits (fun hrun => absurd rfl hrun)
      · change 0 + tile.1 + tile.2 ≤ maxSeq
        change tile.1 + tile.2 ≤ seqLen at htile
        omega
      · exact hle.trans hmax
  | decodeTtftToken pos kvLen =>
      apply Launch.inBounds_of_workFits hfits fun _ => ⟨(by decide : 1 ≤ maxL), Nat.le_refl 1⟩
      · exact h.1
      · exact h.2
  | decodeThroughputWindow pos kvLen windowTokens =>
      obtain ⟨⟨hpos, hrows⟩, hcache, hkv⟩ := h
      exact Launch.inBounds_of_workFits hfits (fun _ => ⟨hrows, hpos⟩) hcache hkv

/-- The decode steps at the positions of the KV cache are in bounds. -/
theorem inBounds_of_mem_decodeStepCalls {pos kvLen : ℕ} (h : call ∈ decodeStepCalls pos kvLen)
    (hpos : pos < maxSeq) (hkv : kvLen < maxSeq) :
  call.InBounds
  := by
  rcases List.mem_pair.mp h with rfl | rfl
  · exact ⟨hpos, hkv⟩
  · exact ⟨⟨Nat.le_refl 1, by decide⟩, hpos, hkv⟩

end RunnerCall

namespace HostDriver

/-- `decode` stays in the arrays when the prompt and the new tokens fit in the KV cache together. -/
theorem inBounds_decode {offsets : List WeightOffsets} {promptLen : ℕ} {maxNewTokens : ℤ}
    (hfits : promptLen + maxNewTokens.toNat ≤ maxSeq) (sample : ℕ → ℤ) :
  ∀ l ∈ decode offsets promptLen maxNewTokens sample, l.InBounds
  := by
  intro l hl
  obtain ⟨k, hk, call, hcall, hcl⟩ := mem_decodeFrom hl
  have hpos : promptLen + k < maxSeq := by omega
  apply (RunnerCall.inBounds_of_mem_decodeStepCalls hcall hpos hpos).launch hcl

end HostDriver

end Kv260
