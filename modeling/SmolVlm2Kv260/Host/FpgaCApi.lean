import SmolVlm2Kv260.Host.DecodeSession
import SmolVlm2Kv260.Host.EncodeImage
import SmolVlm2Kv260.Host.ServerTask

/-!
# The FPGA session on the device

The functions of `fpga_c_api` call the runner of a session, catch what it throws, and answer
with a return code and a message.  Here the session runs on a model of the device: the buffer
objects with their host mappings, the vision kernels, the bridge, and the decoder kernel with
its dataflow region.

A reply depends on all calls so far, through the state of the device.  Positions and lengths
that are negative are no calls of the model, where the runner does not check them.
-/

set_option autoImplicit false

namespace Kv260

open Proc

/-! ### Bytes and words -/

/-- Byte `i` of some words. -/
def wordBytes (words : ℕ → AXI256) (i : ℕ) : BitVec 8 :=
  (words (i / 32)).extractLsb' (i % 32 * 8) 8

theorem axiWord_wordBytes (words : ℕ → AXI256) :
  axiWord (wordBytes words) = words
  := by
  funext i
  apply BitVec.eq_of_getLsbD_eq
  intro b hb
  have hword : (32 * i + b / 8) / 32 = i := by omega
  have hlane : (32 * i + b / 8) % 32 * 8 + b % 8 = b := by omega
  have hbit : b % 8 < 8 := Nat.mod_lt b (by decide)
  rw [axiWord, getLsbD_ofBits, wordBytes, hword, BitVec.getLsbD_extractLsb', hlane]
  simp [hb, hbit]

/-- The bytes of an array of `int8_t`. -/
def int8Bytes (values : List ℤ) (i : ℕ) : BitVec 8 := BitVec.ofInt 8 (values.getD i 0)

/-- The pointer that the server passes for a vector: `nullptr` when it is empty. -/
def int8Pointer (values : List ℤ) : Option (ℕ → BitVec 8) :=
  if values.isEmpty then none else some (int8Bytes values)

/-! ### The runner -/

/-- `write_vision_patch_activations` on `vit_act_`. -/
def writeVisionPatchActivations (patches : Option (ℕ → BitVec 8)) (patchCount hiddenStride : ℕ)
    (vitAct : FpgaBuffer) : Except String FpgaBuffer :=
  match patches with
  | none => .error "vision patch activation pointer is null"
  | some p =>
      if patchCount ≠ kVitTokens then .error "vision patch count must match 1024 ViT tokens"
      else if hiddenStride < kVitHidden then
        .error "vision patch hidden stride is smaller than 768"
      else
        let filled := (List.range patchCount).foldl (fun b t =>
          b.memcpy (t * kVitHidden) (fun i => p (t * hiddenStride + i)) kVitHidden) vitAct
        .ok (filled.syncToDevice (kVitTokens * kVitHidden) 0)

/-- The loop over the tokens up to the one that it throws at. -/
def prefillProgress (maxSeq : ℕ) (tokenEmbeddings : Option (ℕ → BitVec 8)) (embeddingStride : ℕ) :
    List ℤ → PrefillState → PrefillState
  | [], st => st
  | tokenId :: rest, st =>
      match prefillToken maxSeq tokenEmbeddings embeddingStride st tokenId with
      | .error _ => st
      | .ok st' => prefillProgress maxSeq tokenEmbeddings embeddingStride rest st'

/-- The mapping of `act_ping_` when `build_prefill_activations` throws. -/
def failedPrefillHost (maxSeq : ℕ) (tokenEmbeddings : Option (ℕ → BitVec 8)) (embeddingStride : ℕ)
    (tokenIds : List ℤ) (actPing : FpgaBuffer) : ℕ → BitVec 8 :=
  let start := actPing.memset 0 (allocBytes maxSeq .actPing)
  if tokenEmbeddings.isSome ∧ embeddingStride < kLlmHidden then start.host
  else
    (prefillProgress maxSeq tokenEmbeddings embeddingStride tokenIds { act := start }).act.host

/-- What a session holds on to: the allocated length, the offsets of the manifest, and the
buffer objects that no kernel writes.  `registers n` are those of the launches of run `n`. -/
structure FpgaDevice where
  maxSeq : ℕ
  decoderLayers : List WeightOffsets
  vision : VisionOffsets
  ports : RunnerPorts
  registers : ℕ → Launch → GemmRegisters

/-- The device, the mappings of the host, and the number of runs of the decoder so far. -/
structure DeviceState where
  runner : RunnerState
  vision : VisionBuffers
  vitActHost : ℕ → BitVec 8
  runs : ℕ

namespace DeviceState

/-- `vit_act_`, as the host sees it. -/
def vitAct (s : DeviceState) : FpgaBuffer := ⟨s.vitActHost, wordBytes s.vision.vitAct⟩

/-- `image_tokens_`; its mapping is not used. -/
def imageTokens (s : DeviceState) : FpgaBuffer := ⟨fun _ => 0, wordBytes s.vision.imageTokens⟩

/-- The state with another `vit_act_`. -/
def setVitAct (s : DeviceState) (b : FpgaBuffer) : DeviceState :=
  { s with vision := { s.vision with vitAct := axiWord b.device }, vitActHost := b.host }

/-- The state with another `act_ping_`. -/
def setActPing (s : DeviceState) (b : FpgaBuffer) : DeviceState :=
  { s with runner :=
    { mem := { s.runner.mem with
        act := Function.update s.runner.mem.act .ping (axiWord b.device) }
      pingHost := b.host } }

end DeviceState

/-! ### Bounds of the calls -/

/-- The call reads no more than its arrays hold, and its launches stay in the arrays on the
chip. -/
def FpgaCall.InBounds : FpgaCall → Prop
  | writeVisionPatchesI8 patches patchCount hiddenStride =>
      ∀ t < patchCount, t * hiddenStride + kVitHidden ≤ patches.length
  | buildPrefillActivationsI8 tokenIds embeddings stride =>
      embeddings ≠ [] → ∀ k < tokenIds.countP (· ≠ kImageTokenId),
        k * stride + kLlmHidden ≤ embeddings.length
  | runPrefill seqLen => (RunnerCall.prefillThroughput seqLen.toNat).InBounds
  | runDecodeTtft pos kvLen =>
      (0 ≤ pos ∧ 0 ≤ kvLen) ∧ (RunnerCall.decodeTtftToken pos.toNat kvLen.toNat).InBounds
  | runDecodeWindow pos kvLen windowTokens =>
      (0 ≤ pos ∧ 0 ≤ kvLen ∧ 0 ≤ windowTokens)
        ∧ (RunnerCall.decodeThroughputWindow pos.toNat kvLen.toNat windowTokens.toNat).InBounds
  | writeDecodeTokenActivation _ embedding _ => kLlmHidden ≤ embedding.length
  | encodeImage | readLogits _ => True

/-! ### The functions of the C API -/

/-- `write_error` into a buffer of 512 bytes. -/
def writeError (msg : String) : String := String.ofList (msg.toList.take 511)

namespace FpgaReply

/-- The reply when the runner throws. -/
def failed (msg : String) : FpgaReply := ⟨-1, writeError msg, 0, fun _ => 0⟩

/-- The reply of a call without results. -/
def done : FpgaReply := ⟨0, "", 0, fun _ => 0⟩

end FpgaReply

namespace FpgaDevice

variable (d : FpgaDevice)

/-- The launches of a call of the runner. -/
def runDecoder (call : RunnerCall) (s : DeviceState) : Option (FpgaReply × DeviceState) :=
  ((call.kernelRun d.decoderLayers d.ports (d.registers s.runs) s.runner.mem).run
    fun _ => []).map fun r =>
      (.done, { s with runner := { s.runner with mem := r.1 }, runs := s.runs + 1 })

/-- A call of the C API. -/
def call : FpgaCall → DeviceState → Option (FpgaReply × DeviceState)
  | .writeVisionPatchesI8 patches patchCount hiddenStride, s =>
      match writeVisionPatchActivations (some (int8Bytes patches)) patchCount hiddenStride
          s.vitAct with
      | .error e => some (.failed e, s)
      | .ok b => some (.done, s.setVitAct b)
  | .encodeImage, s => some (.done, { s with vision := s.vision.encodeImage d.vision })
  | .buildPrefillActivationsI8 tokenIds embeddings stride, s =>
      match buildPrefillActivations d.maxSeq (int8Pointer embeddings) stride tokenIds s.imageTokens
          s.runner.actPing with
      | .error e => some (.failed e, { s with runner := { s.runner with
          pingHost := failedPrefillHost d.maxSeq (int8Pointer embeddings) stride tokenIds
            s.runner.actPing } })
      | .ok (n, b) => some ({ FpgaReply.done with seqLen := n }, s.setActPing b)
  | .runPrefill seqLen, s =>
      if seqLen < 0 ∨ d.maxSeq < seqLen then
        some (.failed "prefill seq_len exceeds allocated max_seq", s)
      else d.runDecoder (.prefillThroughput seqLen.toNat) s
  | .runDecodeTtft pos kvLen, s =>
      if pos < 0 ∨ kvLen < 0 then none
      else d.runDecoder (.decodeTtftToken pos.toNat kvLen.toNat) s
  | .runDecodeWindow pos kvLen windowTokens, s =>
      if pos < 0 ∨ kvLen < 0 ∨ windowTokens < 0 then none
      else d.runDecoder (.decodeThroughputWindow pos.toNat kvLen.toNat windowTokens.toNat) s
  | .readLogits count, s =>
      if count < vocab then some (.failed "output logits buffer too small", s)
      else some ({ FpgaReply.done with
        logits := fun i => (readLogits s.runner.mem.lmheadOut).getD i 0 }, s)
  | .writeDecodeTokenActivation pos embedding stride, s =>
      match writeDecodeTokenActivation d.maxSeq pos (some (int8Bytes embedding)) stride
          s.runner.actPing with
      | .error e => some (.failed e, s)
      | .ok b => some (.done, s.setActPing b)

/-- The state after some calls. -/
def replay (calls : List FpgaCall) (s : DeviceState) : Option DeviceState :=
  calls.foldlM (fun s c => (d.call c s).map (·.2)) s

/-- The replies of a session that begins in state `s`. -/
def session (s : DeviceState) : FpgaSession := fun calls =>
  match calls.getLast? with
  | none => .done
  | some c => (((d.replay calls.dropLast s).bind (d.call c)).map (·.1)).getD .done

variable {d} {s s' s'' : DeviceState} {calls : List FpgaCall} {c : FpgaCall} {r : FpgaReply}

theorem replay_append (h : d.replay calls s = some s') (hc : d.call c s' = some (r, s'')) :
  d.replay (calls ++ [c]) s = some s''
  := by
  rw [replay, List.foldlM_append, ← replay, h]
  simp only [Option.bind_eq_bind, Option.bind_some, List.foldlM_cons, hc, Option.map_some,
    List.foldlM_nil]
  rfl

/-- The reply to a call in the state after the calls before. -/
theorem session_append (h : d.replay calls s = some s') (hc : d.call c s' = some (r, s'')) :
  d.session s (calls ++ [c]) = r
  := by
  rw [session, List.getLast?_concat, List.dropLast_concat]
  simp only [h, Option.bind_some, hc, Option.map_some, Option.getD_some]

/-- The kernel always comes to an end. -/
theorem runDecoder_eq (d : FpgaDevice) (call : RunnerCall) (s : DeviceState) :
  d.runDecoder call s = some (.done, { s with
    runner := { s.runner with
      mem := call.memoryAfter d.decoderLayers d.ports (d.registers s.runs) s.runner.mem }
    runs := s.runs + 1 })
  := by
  rw [runDecoder, RunnerCall.run_kernelRun]
  rfl

end FpgaDevice

/-! ### Row 0 of the device -/

theorem actRow_axiWord (bytes : ℕ → BitVec 8) (r : ℕ) :
  actRow (axiWord bytes) r = fun c : Fin C => bytes (r * C + c)
  := by
  funext c
  have hlane : (r * C + (c : ℕ)) % 32 < 32 := Nat.mod_lt _ (by decide)
  rw [actRow, extractLsb'_axiWord _ _ hlane, Nat.div_add_mod]

/-- The rows of `act_ping_` are those of the buffer that it is set to. -/
theorem actRow_setActPing (s : DeviceState) (b : FpgaBuffer) (r : ℕ) :
  actRow ((s.setActPing b).runner.mem.act .ping) r = b.deviceRow r
  := by
  simp only [DeviceState.setActPing, Function.update_self]
  rw [actRow_axiWord]
  rfl

/-- The logits, as they are read after a decode step on a row. -/
def RunnerPorts.rowLogits (B : RunnerPorts) (offsets : List WeightOffsets) (row : ActRow) (i : ℕ) :
    ℤ :=
  ((List.range vocab).map (B.stepLogits offsets row)).getD i 0

/-- The logits of a decode step on `row` are on the device, and row 0 after the step. -/
structure DeviceState.Decoded (B : RunnerPorts) (offsets : List WeightOffsets) (row : ActRow)
    (s : DeviceState) : Prop where
  logits : readLogits s.runner.mem.lmheadOut = (List.range vocab).map (B.stepLogits offsets row)
  rowZero : s.runner.rowZero = B.stepRow offsets row

namespace FpgaDevice

variable (d : FpgaDevice)

/-- Patches that are handed over are in `vit_act_`. -/
theorem call_writeVisionPatchesI8 (patches : List ℤ) (patchCount hiddenStride : ℕ)
    (s : DeviceState) :
  ∃ r s', d.call (.writeVisionPatchesI8 patches patchCount hiddenStride) s = some (r, s')
    ∧ (r.rc = 0 → ∃ b,
      writeVisionPatchActivations (some (int8Bytes patches)) patchCount hiddenStride s.vitAct
          = .ok b
        ∧ s' = s.setVitAct b)
  := by
  rw [FpgaDevice.call]
  cases hwrite : writeVisionPatchActivations (some (int8Bytes patches)) patchCount hiddenStride
      s.vitAct with
  | error e =>
      refine ⟨_, s, rfl, ?_⟩
      intro hrc
      exact absurd hrc (by decide : (-1 : ℤ) ≠ 0)
  | ok b => exact ⟨_, _, rfl, fun _ => ⟨b, rfl, rfl⟩⟩

/-- A decode step. -/
theorem runDecoder_decodeStep {call : RunnerCall} {pos kvLen : ℕ}
    (hcall : call ∈ decodeStepCalls pos kvLen) (s : DeviceState) :
  ∃ s', d.runDecoder call s = some (.done, s')
    ∧ s'.Decoded d.ports d.decoderLayers s.runner.rowZero
  := by
  refine ⟨_, runDecoder_eq d call s, ?_, ?_⟩
  · dsimp only
    rw [lmheadOut_memoryAfter d.decoderLayers d.ports (d.registers s.runs) hcall]
    apply readLogits_writeLogits
    apply lmheadLogits_isApInt
  · apply row_memoryAfter d.decoderLayers d.ports (d.registers s.runs) hcall

/-- The prefill of the rows of a buffer. -/
theorem runDecoder_prefill {n : ℕ} (hn : 1 ≤ n) (s : DeviceState) (b : FpgaBuffer) :
  ∃ s', d.runDecoder (.prefillThroughput n) (s.setActPing b) = some (.done, s')
    ∧ s'.runner.rowZero = d.ports.promptRow d.decoderLayers
      ((List.range (min prefillTokenTile n)).map b.deviceRow)
  := by
  refine ⟨_, runDecoder_eq d _ _, ?_⟩
  have hrow := rowZero_prefill hn d.decoderLayers d.ports
    (d.registers (s.setActPing b).runs) (s.setActPing b).runner.mem
  rw [RunnerState.rowZero]
  dsimp only
  rw [hrow, tileRows]
  apply congrArg (d.ports.promptRow d.decoderLayers)
  apply List.map_congr_left
  intro t _
  rw [← actRow_setActPing s b, Nat.zero_add]
  rfl

/-- A decode step of one token. -/
theorem call_decode {pos kvLen : ℤ} (hpos : 0 ≤ pos) (hkv : 0 ≤ kvLen) {c : FpgaCall}
    (hc : c = .runDecodeTtft pos kvLen ∨ c = .runDecodeWindow pos kvLen 1) (s : DeviceState) :
  ∃ s', d.call c s = some (.done, s') ∧ s'.Decoded d.ports d.decoderLayers s.runner.rowZero
  := by
  obtain ⟨call, hcall, hrun⟩ : ∃ call ∈ decodeStepCalls pos.toNat kvLen.toNat,
      d.call c s = d.runDecoder call s := by
    rcases hc with rfl | rfl
    · refine ⟨_, List.mem_cons_self, ?_⟩
      rw [FpgaDevice.call, if_neg (by omega)]
    · refine ⟨_, List.mem_cons_of_mem _ (List.mem_singleton_self _), ?_⟩
      rw [FpgaDevice.call, if_neg (by omega), Int.toNat_one]
  obtain ⟨s', hs', hdecoded⟩ := d.runDecoder_decodeStep hcall s
  exact ⟨s', hrun.trans hs', hdecoded⟩

theorem call_readLogits {count : ℕ} (hcount : vocab ≤ count) (s : DeviceState) :
  d.call (.readLogits count) s = some ({ FpgaReply.done with
    logits := fun i => (readLogits s.runner.mem.lmheadOut).getD i 0 }, s)
  := by rw [FpgaDevice.call, if_neg (Nat.not_lt.mpr hcount)]

/-- Embeddings are written for the other rows. -/
theorem call_writeDecodeTokenActivation {pos : ℤ} (hpos : pos ≠ 0) (embedding : List ℤ)
    (stride : ℕ) (s : DeviceState) :
  ∃ r s', d.call (.writeDecodeTokenActivation pos embedding stride) s = some (r, s')
    ∧ s'.runner.rowZero = s.runner.rowZero ∧ s'.runner.mem.lmheadOut = s.runner.mem.lmheadOut
  := by
  rw [FpgaDevice.call]
  cases hwrite : writeDecodeTokenActivation d.maxSeq pos (some (int8Bytes embedding)) stride
      s.runner.actPing with
  | error e => exact ⟨_, s, rfl, rfl, rfl⟩
  | ok b =>
      refine ⟨_, _, rfl, ?_, rfl⟩
      rw [RunnerState.rowZero, DeviceState.setActPing]
      simp only [Function.update_self]
      apply rowZero_write hpos hwrite

/-- The prefill of a prompt that was laid out. -/
theorem call_runPrefill {n : ℕ} (hn : 1 ≤ n) (s : DeviceState) (b : FpgaBuffer) :
  ∃ r s', d.call (.runPrefill n) (s.setActPing b) = some (r, s')
    ∧ (r.rc = 0 → s'.runner.rowZero = d.ports.promptRow d.decoderLayers
      ((List.range (min prefillTokenTile n)).map b.deviceRow))
  := by
  rw [FpgaDevice.call]
  split_ifs with hrange
  · exact ⟨_, _, rfl, fun hrc => absurd hrc (by decide)⟩
  · obtain ⟨s', hrun, hrow⟩ := d.runDecoder_prefill hn s b
    exact ⟨_, s', hrun, fun _ => hrow⟩

/-- A device whose weights and vectors are ones. -/
def ones : FpgaDevice where
  maxSeq := 2048
  decoderLayers := HostDriver.layers
  vision := {}
  ports := onePorts
  registers := fun _ => blankRegisters

end FpgaDevice

/-- Its memories. -/
def DeviceState.ones : DeviceState where
  runner := countingState
  vision :=
    { vitAct := fun _ => 0
      vitHidden := fun _ => 0
      vitTmp := fun _ => 0
      visionWgt := fun _ => oneBytes
      visionMeta := fun _ => oneBytes
      connectorWgt := fun _ => oneBytes
      connectorMeta := fun _ => oneBytes
      shuffleBuf := fun _ => 0
      imageTokens := fun _ => 0 }
  vitActHost := fun _ => 0
  runs := 0

end Kv260
