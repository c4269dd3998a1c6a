import SmolVlm2Kv260.Kernel.Decoder

/-!
# The runner

`SmolVlm2XrtRunner` holds the buffer objects and launches the decoder kernel layer by layer:
over the tiles of a prompt, for one token, or for a window of tokens.  The launches of a run
are a list; what a launch does to the activation buffers is `Launch.apply`, with the
functions that the layers compute left open.
-/

set_option autoImplicit false

namespace Kv260

open Blocks

/-! ### Buffer objects -/

/-- A buffer object: the mapping the host writes and the memory the kernel reads. -/
structure FpgaBuffer where
  host : ℕ → BitVec 8
  device : ℕ → BitVec 8

namespace FpgaBuffer

/-- `memcpy` to the mapping, at `offset`. -/
def memcpy (b : FpgaBuffer) (offset : ℕ) (src : ℕ → BitVec 8) (size : ℕ) : FpgaBuffer :=
  { b with host := fun i =>
      if offset ≤ i ∧ i < offset + size then src (i - offset) else b.host i }

/-- `sync_to_device` of a range. -/
def syncToDevice (b : FpgaBuffer) (size offset : ℕ) : FpgaBuffer :=
  { b with device := fun i =>
      if offset ≤ i ∧ i < offset + size then b.host i else b.device i }

end FpgaBuffer

/-- `write_decode_token_activation` on `act_ping_`. -/
def writeDecodeTokenActivation (maxSeq : ℕ) (pos : ℤ) (embedding : Option (ℕ → BitVec 8))
    (embeddingStride : ℕ) (actPing : FpgaBuffer) : Except String FpgaBuffer :=
  match embedding with
  | none => .error "decode token embedding is null"
  | some e =>
      if pos < 0 ∨ maxSeq ≤ pos.toNat then
        .error "decode token position exceeds allocated max_seq"
      else if embeddingStride < C then
        .error "decode token embedding stride is smaller than hidden size"
      else
        let offset := pos.toNat * C
        .ok ((actPing.memcpy offset e C).syncToDevice C offset)

/-! ### Runs of the layers -/

abbrev prefillTokenTile : ℕ := 32

/-- The offsets of a layer in the weight and metadata files. -/
structure WeightOffsets where
  wgtAxi : ℕ := 0
  metaAxi : ℕ := 0

/-- The call of the decoder kernel that the loops of the runner share: the buffers and the
flag depend on the parity of the layer. -/
def decoderLaunch (offsets : List WeightOffsets) (layer seqLen kvLen posStart execMode
    tileOffset tileSize runLmhead : ℕ) : Launch :=
  let usePing : Bool := layer % 2 = 0
  let off := offsets.getD layer {}
  { actPing := if usePing then .ping else .pong
    actPong := if usePing then .pong else .ping
    actOut := if usePing then .pong else .ping
    seqLen, kvLen, posStart, execMode
    tokenTileOffset := tileOffset
    tokenTileSize := tileSize
    runLmhead
    layerId := layer
    usePing := if usePing then 1 else 0
    wgtOffset := off.wgtAxi
    metaOffset := off.metaAxi }

/-- `run_lmhead`: the last layer also computes the logits. -/
def runLmheadOf (layer : ℕ) : ℕ := if layer = numLayers - 1 then 1 else 0

/-- A call of the runner. -/
inductive RunnerCall where
  | prefillThroughput (seqLen : ℕ)
  | decodeTtftToken (pos kvLen : ℕ)
  | decodeThroughputWindow (pos kvLen windowTokens : ℕ)

namespace RunnerCall

/-- The tiles of the loop over the tokens: the first token and the number of tokens. -/
def tiles : RunnerCall → List (ℕ × ℕ)
  | prefillThroughput seqLen =>
      (List.range (tileCount prefillTokenTile seqLen)).map fun i =>
        (i * prefillTokenTile, tileLen prefillTokenTile seqLen i)
  | decodeTtftToken _ _ => [(0, 1)]
  | decodeThroughputWindow _ _ windowTokens => [(0, windowTokens)]

/-- The launch of a layer for a tile. -/
def launch (offsets : List WeightOffsets) (layer : ℕ) (tile : ℕ × ℕ) : RunnerCall → Launch
  | prefillThroughput seqLen =>
      decoderLaunch offsets layer seqLen seqLen 0 execModeThroughputPrefill tile.1 tile.2 0
  | decodeTtftToken pos kvLen =>
      decoderLaunch offsets layer 1 (kvLen + 1) pos execModeTtftDecode tile.1 tile.2
        (runLmheadOf layer)
  | decodeThroughputWindow pos kvLen windowTokens =>
      decoderLaunch offsets layer windowTokens (kvLen + windowTokens) pos
        execModeThroughputDecode tile.1 tile.2 (runLmheadOf layer)

/-- The launches of a layer. -/
def layerLaunches (call : RunnerCall) (offsets : List WeightOffsets) (layer : ℕ) :
    List Launch :=
  call.tiles.map fun tile => call.launch offsets layer tile

/-- All launches, in order. -/
def launches (call : RunnerCall) (offsets : List WeightOffsets) : List Launch :=
  (List.range numLayers).flatMap (call.layerLaunches offsets)

theorem mem_launches {call : RunnerCall} {offsets : List WeightOffsets} {l : Launch} :
  l ∈ call.launches offsets
    ↔ ∃ layer < numLayers, ∃ tile ∈ call.tiles, call.launch offsets layer tile = l
  := by
  simp only [launches, layerLaunches, List.mem_flatMap, List.mem_map, List.mem_range]

/-- The number of tokens of a call. -/
def tokens : RunnerCall → ℕ
  | prefillThroughput seqLen => seqLen
  | decodeTtftToken _ _ => 1
  | decodeThroughputWindow _ _ windowTokens => windowTokens

/-! ### Work tokens -/

variable (call : RunnerCall) (offsets : List WeightOffsets) (layer : ℕ)

theorem workTokenOffset_launch {tile : ℕ × ℕ} (h : tile ∈ call.tiles) :
  (call.launch offsets layer tile).workTokenOffset = tile.1
  := by
  cases call with
  | prefillThroughput seqLen => rfl
  | _ =>
      obtain rfl := List.mem_singleton.mp h
      rfl

theorem workTokenCount_launch {tile : ℕ × ℕ} (h : tile ∈ call.tiles) :
  (call.launch offsets layer tile).workTokenCount = tile.2
  := by
  cases call with
  | prefillThroughput seqLen => rfl
  | _ =>
      obtain rfl := List.mem_singleton.mp h
      rfl

/-- The buffers are swapped on the ports and selected again by the flag, so every layer
reads the same buffer. -/
theorem src_launch (tile : ℕ × ℕ) :
  (call.launch offsets layer tile).src = .ping
  := by
  cases call with
  | _ =>
      rcases Nat.mod_two_eq_zero_or_one layer with h | h <;>
        simp [launch, decoderLaunch, Launch.src, h]

/-- The even layers write to `act_pong_`, the odd ones to `act_ping_`. -/
theorem actOut_launch (tile : ℕ × ℕ) :
  (call.launch offsets layer tile).actOut = if layer % 2 = 0 then .pong else .ping
  := by
  cases call with
  | _ => rcases Nat.mod_two_eq_zero_or_one layer with h | h <;> simp [launch, decoderLaunch, h]

theorem layerId_launch (tile : ℕ × ℕ) :
  (call.launch offsets layer tile).layerId = layer
  := by
  cases call with
  | _ => rfl

/-- The tiles lie one after the other. -/
theorem pairwise_tiles :
  call.tiles.Pairwise fun t t' => t.1 + t.2 ≤ t'.1
  := by
  cases call with
  | prefillThroughput seqLen =>
      apply List.Pairwise.map _ _ (List.pairwise_lt_range)
      intro i j hij
      have hlen := tileLen_le prefillTokenTile seqLen i
      have hmul := Nat.mul_le_mul_right prefillTokenTile (Nat.succ_le_of_lt hij)
      rw [Nat.succ_mul] at hmul
      omega
  | _ => apply List.pairwise_singleton

end RunnerCall

/-- `run_prefill_throughput`: the launches, when the length is accepted. -/
def runPrefillThroughput (maxSeq : ℕ) (seqLen : ℤ) (offsets : List WeightOffsets) :
    Except String (List Launch) :=
  if maxSeq < (seqLen % 2 ^ 64).toNat then
    .error "prefill seq_len exceeds allocated max_seq"
  else
    .ok ((RunnerCall.prefillThroughput seqLen.toNat).launches offsets)

/-- `run_decode_ttft_token`. -/
def runDecodeTtftToken (pos kvLen : ℕ) (offsets : List WeightOffsets) : List Launch :=
  (RunnerCall.decodeTtftToken pos kvLen).launches offsets

/-- `run_decode_throughput_window`. -/
def runDecodeThroughputWindow (pos kvLen windowTokens : ℕ) (offsets : List WeightOffsets) :
    List Launch :=
  (RunnerCall.decodeThroughputWindow pos kvLen windowTokens).launches offsets

end Kv260
