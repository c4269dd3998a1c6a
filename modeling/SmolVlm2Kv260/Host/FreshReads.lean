import SmolVlm2Kv260.Host.Runner
import SmolVlm2Kv260.Kernel.MultiHead

/-!
# Positions that the attention reads

`flash_attention_head` reads the positions below `kv_len` from a bank that all heads, layers
and launches share.  A launch loads the positions before `cur_pos` into it and writes those
of its own tokens; any later position is left over from before.  The decode calls ask for no
more, while every tile of a prompt asks for the positions of the whole prompt.
-/

set_option autoImplicit false

namespace Kv260

open Proc Blocks

/-! ### Streams of a launch -/

/-- The queries, keys and values on the streams of a launch, head by head. -/
structure HeadVectors where
  q : ℕ → List ℤ
  k : ℕ → List ℤ
  v : ℕ → List ℤ
  length_q : ∀ i, (q i).length = dHead
  length_k : ∀ i, (k i).length = dHead
  length_v : ∀ i, (v i).length = dHead

/-- The streams that feed the attention with `n` tokens. -/
def HeadVectors.streams (x : HeadVectors) (n : ℕ) : AttnStreams where
  qRot := (List.range (hKv * (n * gqaRatio))).flatMap x.q
  kRot := (List.range (hKv * n)).flatMap x.k
  vPass := (List.range (hKv * n)).flatMap x.v

/-! ### Fresh positions -/

/-- A position of a bank was loaded from the cache as it was `before`, or a head `vec t` of
one of the launch's tokens was written to it. -/
def KvSide.FreshAt (curPos qLen layerId h : ℕ) (bank : Fin 2) (vec : ℕ → List ℤ)
    (before after : KvSide) (p : ℕ) : Prop :=
  ∀ g < dHead / grp,
    p < curPos ∧ after.pack bank (bufIdx p g)
        = axiRead128Half before.cache (cacheIndex layerId h p g)
      ∨ curPos ≤ p ∧ p < curPos + qLen ∧ after.pack bank (bufIdx p g)
        = quantPack (vec (p - curPos)) g

namespace Launch

variable (l : Launch)

/-- `multi_head_attention` of a launch, up to head `h`. -/
def headsBefore (h : ℕ) (st : KvState) : Proc AttnChan ℤ (KvState × Fin 2) :=
  mhaHeadsWith flashRow .qRot .kRot .vPass .attnO l.curPos l.kvLen l.workTokenCount l.layerId h st

/-- `multi_head_attention` of a launch, up to the attention of head `h`. -/
def untilFlash (h : ℕ) (st : KvState) : Proc AttnChan ℤ KvState :=
  mhaUntilFlash .qRot .kRot .vPass .attnO l.curPos l.kvLen l.workTokenCount l.layerId h st

/-- `multi_head_attention` of a launch. -/
def attention (st : KvState) : Proc AttnChan ℤ KvState :=
  multiHeadAttention .qRot .kRot .vPass .attnO l.curPos l.kvLen l.workTokenCount l.layerId st

/-- Every position that the attention of a head reads was loaded or written for this head in
this launch. -/
def ReadsFresh : Prop :=
  ∀ (x : HeadVectors) (st : KvState), ∀ h < hKv, ∃ before bank after σ τ,
    (l.headsBefore h st).run (x.streams l.workTokenCount).store = some ((before, bank), σ)
    ∧ (l.untilFlash h st).run (x.streams l.workTokenCount).store = some (after, τ)
    ∧ ∀ p ∈ flashReads l.kvLen l.workTokenCount,
      KvSide.FreshAt l.curPos l.workTokenCount l.layerId h bank
          (fun t => x.k (h * l.workTokenCount + t)) before.k after.k p
        ∧ KvSide.FreshAt l.curPos l.workTokenCount l.layerId h bank
          (fun t => x.v (h * l.workTokenCount + t)) before.v after.v p

/-- The outputs are the same whatever the banks hold before the launch. -/
def OutputsIndependent : Prop :=
  ∀ (x : HeadVectors) (st st' : KvState), st.k.cache = st'.k.cache → st.v.cache = st'.v.cache →
    ∃ r r', (l.attention st).run (x.streams l.workTokenCount).store = some r
      ∧ (l.attention st').run (x.streams l.workTokenCount).store = some r'
      ∧ r.2 .attnO = r'.2 .attnO

/-- The launch reads nothing that is left over in the banks. -/
def NoStaleReads : Prop := l.ReadsFresh ∧ l.OutputsIndependent

/-! ### A launch -/

section Streams

variable (x : HeadVectors) (st : KvState)

/-- The state after the first heads of the launch. -/
abbrev stateAfter (h : ℕ) : KvState :=
  stateAfterHeads l.curPos l.workTokenCount l.layerId x.k x.v st h

theorem exists_run_headsBefore {h : ℕ} (hh : h ≤ hKv) :
  ∃ σ, (l.headsBefore h st).run (x.streams l.workTokenCount).store
    = some ((l.stateAfter x st h, headBank h), σ)
  := by
  have hkv := Nat.mul_le_mul_right l.workTokenCount hh
  have hq := Nat.mul_le_mul_right (l.workTokenCount * gqaRatio) hh
  exact ⟨_, run_mhaHeadsWith l.curPos l.workTokenCount l.layerId flashRow l.kvLen st x.length_k
    x.length_v x.length_q h _ (flatMap_range_split x.k hkv) (flatMap_range_split x.v hkv)
    (flatMap_range_split x.q hq)⟩

theorem exists_run_untilFlash {h : ℕ} (hh : h < hKv) :
  ∃ τ, (l.untilFlash h st).run (x.streams l.workTokenCount).store
    = some (l.stateAfter x st (h + 1), τ)
  := by
  have hkv := Nat.mul_le_mul_right l.workTokenCount (Nat.succ_le_of_lt hh)
  have hq := Nat.mul_le_mul_right (l.workTokenCount * gqaRatio) (Nat.le_of_lt hh)
  exact ⟨_, run_mhaUntilFlash l.curPos l.workTokenCount l.layerId l.kvLen st x.length_k
    x.length_v x.length_q h _ (flatMap_range_split x.k hkv) (flatMap_range_split x.v hkv)
    (flatMap_range_split x.q hq)⟩

theorem exists_run_attention :
  ∃ r, (l.attention st).run (x.streams l.workTokenCount).store = some r
    ∧ r.2 .attnO
      = headOutputs l.curPos l.workTokenCount l.layerId x.k x.v flashRow l.kvLen st x.q hKv
  := by
  have hrun := run_multiHeadAttentionWith l.curPos l.workTokenCount l.layerId flashRow
    l.kvLen st x.length_k x.length_v x.length_q (x.streams l.workTokenCount) rfl rfl rfl
  have hempty : (x.streams l.workTokenCount).attnO = [] := rfl
  rw [hempty, List.nil_append] at hrun
  exact ⟨_, hrun, rfl⟩

/-- The outputs of the attention do not depend on its state. -/
theorem headOutputs_congr (st' : KvState) (n : ℕ) :
  headOutputs l.curPos l.workTokenCount l.layerId x.k x.v flashRow l.kvLen st x.q n
    = headOutputs l.curPos l.workTokenCount l.layerId x.k x.v flashRow l.kvLen st' x.q n
  := by
  have hzero : ∀ bank row, flashRow bank l.kvLen row = fun _ => 0 := by
    intro bank row
    funext d
    apply flashRow_eq_zero
  simp only [headOutputs, hzero]

end Streams

theorem outputsIndependent :
  l.OutputsIndependent
  := by
  intro x st st' _ _
  obtain ⟨r, hr, hout⟩ := l.exists_run_attention x st
  obtain ⟨r', hr', hout'⟩ := l.exists_run_attention x st'
  refine ⟨r, r', hr, hr', ?_⟩
  rw [hout, hout', headOutputs_congr l x st st' hKv]

/-- Positions up to those of the launch's tokens are fresh. -/
theorem freshAt_prepare {curPos qLen layerId h p : ℕ} (bank : Fin 2) (vec : ℕ → List ℤ)
    (s : KvSide) (hp : p < curPos + qLen) :
  KvSide.FreshAt curPos qLen layerId h bank vec s (s.prepare curPos layerId h bank vec qLen) p
  := by
  intro g hg
  rcases Nat.lt_or_ge p curPos with hlt | hge
  · exact .inl ⟨hlt, KvSide.prepare_pack_loaded _ _ _ _ _ _ _ hlt hg⟩
  · right
    obtain ⟨t, rfl⟩ := Nat.exists_eq_add_of_le hge
    refine ⟨hge, hp, ?_⟩
    rw [Nat.add_sub_cancel_left]
    apply KvSide.prepare_pack_written _ _ _ _ _ _ _ (Nat.lt_of_add_lt_add_left hp) hg

/-- A launch reads fresh positions only when it has no tokens, or when `kv_len` does not
exceed the positions up to its last token. -/
theorem readsFresh_iff :
  l.ReadsFresh ↔ l.workTokenCount = 0 ∨ l.kvLen ≤ l.curPos + l.workTokenCount
  := by
  constructor
  · intro h
    rw [or_iff_not_imp_left]
    intro hcount
    by_contra hlate
    let x : HeadVectors := ⟨fun _ => List.replicate dHead 0, fun _ => List.replicate dHead 0,
      fun _ => List.replicate dHead 0, fun _ => List.length_replicate,
      fun _ => List.length_replicate, fun _ => List.length_replicate⟩
    obtain ⟨_, _, _, _, _, -, -, hfresh⟩ := h x KvState.init 0 (by decide)
    -- the position after the last token is read, but neither loaded nor written
    have hread : l.curPos + l.workTokenCount ∈ flashReads l.kvLen l.workTokenCount :=
      mem_flashReads.mpr ⟨Nat.one_le_iff_ne_zero.mpr hcount, not_le.mp hlate⟩
    rcases (hfresh _ hread).1 0 (by decide) with ⟨hlt, -⟩ | ⟨-, hlt, -⟩
    · omega
    · omega
  · intro h x st hd hhd
    obtain ⟨σ, hbefore⟩ := l.exists_run_headsBefore x st hhd.le
    obtain ⟨τ, hafter⟩ := l.exists_run_untilFlash x st hhd
    refine ⟨_, _, _, σ, τ, hbefore, hafter, ?_⟩
    intro p hp
    obtain ⟨hq, hkv⟩ := mem_flashReads.mp hp
    have hlt : p < l.curPos + l.workTokenCount := by omega
    exact ⟨freshAt_prepare _ _ _ hlt, freshAt_prepare _ _ _ hlt⟩

theorem noStaleReads_iff_kvLen :
  l.NoStaleReads ↔ l.workTokenCount = 0 ∨ l.kvLen ≤ l.curPos + l.workTokenCount
  := by
  rw [NoStaleReads, and_iff_left l.outputsIndependent, readsFresh_iff]

end Launch

/-! ### The calls of the runner -/

namespace RunnerCall

/-- No launch of the call reads what is left over in the banks. -/
def NoStaleReads (call : RunnerCall) : Prop :=
  ∀ offsets, ∀ l ∈ call.launches offsets, l.NoStaleReads

/-- A decode call is given the number of cached positions, its own position, as `kv_len`. -/
def KvLenIsPos : RunnerCall → Prop
  | prefillThroughput _ => True
  | decodeTtftToken pos kvLen => kvLen = pos
  | decodeThroughputWindow pos kvLen _ => kvLen = pos

/-- The rows of the prompt that the call processes. -/
def prefillLen : RunnerCall → ℕ
  | prefillThroughput seqLen => seqLen
  | _ => 0

theorem noStaleReads_iff_tiles (call : RunnerCall) :
  call.NoStaleReads ↔ ∀ offsets, ∀ layer < numLayers, ∀ tile ∈ call.tiles,
    tile.2 = 0 ∨ (call.launch offsets layer tile).kvLen
      ≤ (call.launch offsets layer tile).posStart + tile.1 + tile.2
  := by
  apply forall_congr'
  intro offsets
  have hlaunch : ∀ layer, ∀ tile ∈ call.tiles,
      (call.launch offsets layer tile).NoStaleReads ↔ tile.2 = 0
        ∨ (call.launch offsets layer tile).kvLen
          ≤ (call.launch offsets layer tile).posStart + tile.1 + tile.2 := by
    intro layer tile ht
    rw [Launch.noStaleReads_iff_kvLen, Launch.curPos, call.workTokenOffset_launch offsets layer ht,
      call.workTokenCount_launch offsets layer ht]
  constructor
  · intro h layer hlayer tile ht
    rw [← hlaunch layer tile ht]
    apply h _ (mem_launches.mpr ⟨layer, hlayer, tile, ht, rfl⟩)
  · intro h l hl
    obtain ⟨layer, hlayer, tile, ht, rfl⟩ := mem_launches.mp hl
    rw [hlaunch layer tile ht]
    apply h layer hlayer tile ht

/-- A prompt is read without stale positions when it is a single tile: otherwise its first
tile reads the positions of the later ones before they are written. -/
theorem noStaleReads_prefill_iff (seqLen : ℕ) :
  (prefillThroughput seqLen).NoStaleReads ↔ seqLen ≤ prefillTokenTile
  := by
  rw [noStaleReads_iff_tiles]
  constructor
  · intro h
    by_contra hlong
    have hcount : 0 < tileCount prefillTokenTile seqLen :=
      tileCount_pos (by decide) (Nat.zero_lt_of_lt (not_le.mp hlong))
    have hfirst : (0 * prefillTokenTile, tileLen prefillTokenTile seqLen 0)
        ∈ (prefillThroughput seqLen).tiles := by
      apply List.mem_map_of_mem (f := fun i =>
        (i * prefillTokenTile, tileLen prefillTokenTile seqLen i)) (List.mem_range.mpr hcount)
    have hlen : tileLen prefillTokenTile seqLen 0 = prefillTokenTile := by
      rw [tileLen, if_pos (by omega)]
    have hlate := h [] 0 (by decide) _ hfirst
    simp only [hlen] at hlate
    change 32 = 0 ∨ seqLen ≤ 0 + 0 * 32 + 32 at hlate
    change ¬ seqLen ≤ 32 at hlong
    omega
  · intro h offsets layer _ tile ht
    obtain ⟨i, hi, rfl⟩ := List.mem_map.mp ht
    have hlt := lt_of_lt_tileCount (by decide : 0 < prefillTokenTile) (List.mem_range.mp hi)
    right
    change seqLen ≤ 0 + i * prefillTokenTile + tileLen prefillTokenTile seqLen i
    rw [tileLen]
    split <;> omega

/-- A call with a single tile reads no stale positions when its tile ends the sequence. -/
theorem noStaleReads_of_one_tile {call : RunnerCall} {tile : ℕ × ℕ} (htiles : call.tiles = [tile])
    (hkv : ∀ offsets layer, (call.launch offsets layer tile).kvLen
      = (call.launch offsets layer tile).posStart + tile.1 + tile.2) :
  call.NoStaleReads
  := by
  rw [noStaleReads_iff_tiles]
  intro offsets layer _ t ht
  rw [htiles] at ht
  obtain rfl := List.mem_singleton.mp ht
  exact .inr (hkv offsets layer).le

/-- The attention of a call reads no stale position exactly when the call is a decode call,
or a prompt of a single tile. -/
theorem noStaleReads_iff {call : RunnerCall} (hkv : call.KvLenIsPos) :
  call.NoStaleReads ↔ call.prefillLen ≤ prefillTokenTile
  := by
  cases call with
  | prefillThroughput seqLen => apply noStaleReads_prefill_iff
  | decodeTtftToken pos kvLen =>
      obtain rfl := hkv
      simp only [prefillLen, Nat.zero_le, iff_true]
      apply noStaleReads_of_one_tile rfl
      intro offsets layer
      rfl
  | decodeThroughputWindow pos kvLen windowTokens =>
      obtain rfl := hkv
      simp only [prefillLen, Nat.zero_le, iff_true]
      apply noStaleReads_of_one_tile rfl
      intro offsets layer
      rfl

theorem noStaleReads_decode_window :
  KvLenIsPos (decodeThroughputWindow 64 64 4)
    ∧ ((decodeThroughputWindow 64 64 4).NoStaleReads ↔ 0 ≤ prefillTokenTile)
  := ⟨rfl, noStaleReads_iff rfl⟩

theorem not_noStaleReads_prefill_two_tiles :
  ¬ (prefillThroughput 33).NoStaleReads
  := by
  rw [noStaleReads_prefill_iff]
  decide

end RunnerCall

end Kv260
