import SmolVlm2Kv260.Host.FpgaCApi
import SmolVlm2Kv260.Host.ImageInfluence

/-!
# What the answer to a request depends on

A client of the C API hands over patches, encodes them, lays out the tokens of a prompt and their
embeddings, and runs the prefill; then it alternates decode steps, reading the logits and writing
embeddings.  As long as it writes none for row 0, all its logits come from this row, and the row
from the first 32 rows of the prompt: the text before the image, and then the image tokens, which
come from a quarter of the patches.  The prompts have at most `MAX_L` rows and the positions are
below `MAX_SEQ`.
-/

set_option autoImplicit false

namespace Kv260

open Proc

/-! ### The rows of the first tile -/

/-- The text before the image; an image comes first when there is no image token. -/
def textBefore (tokenIds : List ℤ) : List ℤ :=
  if kImageTokenId ∈ tokenIds then tokenIds.takeWhile (· ≠ kImageTokenId) else []

theorem textBefore_append {before : List ℤ} (h : kImageTokenId ∉ before) (after : List ℤ) :
  textBefore (before ++ kImageTokenId :: after) = before
  := by
  have hmem : kImageTokenId ∈ before ++ kImageTokenId :: after :=
    List.mem_append_right _ List.mem_cons_self
  rw [textBefore, if_pos hmem, List.takeWhile_append_of_pos, List.takeWhile_cons_of_neg,
    List.append_nil]
  · simp
  · intro t ht
    apply decide_eq_true
    rintro rfl
    exact h ht

section Layout

variable {α : Type} (image : List α) (emb : ℕ → α)

/-- The rows of a prompt with at most one image token begin with the text before the image and
the image. -/
theorem prefillLayout_eq_append {tokenIds : List ℤ} (hcount : tokenIds.count kImageTokenId ≤ 1) :
  ∃ rest, prefillLayout image emb tokenIds
    = (List.range (textBefore tokenIds).length).map emb ++ image ++ rest
  := by
  rw [prefillLayout]
  by_cases hmem : kImageTokenId ∈ tokenIds
  · obtain ⟨before, after, rfl, hbefore⟩ := List.eq_append_cons_of_mem hmem
    rw [if_pos hmem, textBefore_append hbefore, layoutFrom_append, layoutFrom_of_notMem hbefore,
      layoutFrom, if_pos rfl, ← List.append_assoc]
    simp only [Nat.zero_add]
    exact ⟨_, rfl⟩
  · rw [if_neg hmem, textBefore, if_neg hmem]
    exact ⟨_, rfl⟩

/-- Its first tile does not reach behind the image. -/
theorem take_prefillLayout (himage : image.length = kImageTokens) {tokenIds : List ℤ}
    (hcount : tokenIds.count kImageTokenId ≤ 1) :
  (prefillLayout image emb tokenIds).take prefillTokenTile
    = ((List.range (textBefore tokenIds).length).map emb ++ image).take prefillTokenTile
  := by
  obtain ⟨rest, hrest⟩ := prefillLayout_eq_append image emb hcount
  have hle : prefillTokenTile
      ≤ ((List.range (textBefore tokenIds).length).map emb ++ image).length := by
    rw [List.length_append, himage]
    apply Nat.le_add_left_of_le
    decide
  rw [hrest, List.take_append_of_le_length hle]

end Layout

/-- A prompt with at most one image token is laid out. -/
theorem laysOutPrefill_of_count_le_one (maxSeq : ℕ) {tokenIds : List ℤ} (e : ℕ → BitVec 8)
    {stride : ℕ} (hstride : C ≤ stride) (imageTokens actPing : FpgaBuffer)
    (hcount : tokenIds.count kImageTokenId ≤ 1) :
  LaysOutPrefill maxSeq tokenIds e stride imageTokens actPing
  := by
  rcases Nat.lt_or_ge maxSeq (decoderRows tokenIds) with hlt | hle
  · apply laysOutPrefill_of_lt e imageTokens actPing hstride hlt
  · by_cases hmem : kImageTokenId ∈ tokenIds
    · apply (laysOutPrefill_of_mem_iff e imageTokens actPing hstride hmem hle).mpr (.inl hcount)
    · apply laysOutPrefill_of_notMem e imageTokens actPing hstride hmem hle

/-- The rows of the first tile. -/
theorem firstTile_buildPrefillActivations {maxSeq : ℕ} {tokenIds : List ℤ} {e : ℕ → BitVec 8}
    {stride : ℕ} {imageTokens actPing : FpgaBuffer} {n : ℕ} {b : FpgaBuffer}
    (hcount : tokenIds.count kImageTokenId ≤ 1)
    (h : buildPrefillActivations maxSeq (some e) stride tokenIds imageTokens actPing = .ok (n, b)) :
  prefillTokenTile ≤ n
    ∧ (List.range prefillTokenTile).map b.deviceRow
      = ((List.range (textBefore tokenIds).length).map (embeddingRow e stride)
        ++ imageRows imageTokens).take prefillTokenTile
  := by
  have hstride : C ≤ stride := by
    rw [buildPrefillActivations] at h
    split_ifs at h with hguard
    rw [not_and] at hguard
    exact Nat.not_lt.mp (hguard rfl)
  have himage := length_imageRows imageTokens
  obtain ⟨-, hlayout⟩ := laysOutPrefill_of_count_le_one maxSeq e hstride imageTokens
    actPing hcount
  obtain ⟨-, hrows⟩ := hlayout n b h
  have hlen : prefillTokenTile ≤ n := by
    have hlength := congrArg List.length hrows
    obtain ⟨rest, hrest⟩ := prefillLayout_eq_append (imageRows imageTokens) (embeddingRow e stride)
      hcount
    rw [hrest, List.length_map, List.length_range, List.length_append, List.length_append,
      himage] at hlength
    have htile : prefillTokenTile ≤ kImageTokens := by decide
    omega
  refine ⟨hlen, ?_⟩
  rw [← take_prefillLayout _ _ himage hcount, ← hrows, ← List.map_take, List.take_range,
    min_eq_left hlen]

/-! ### The patches on the device -/

/-- The bytes that are read at an element of INT8. -/
theorem axiReadI8Linear_axiWord (bytes : ℕ → BitVec 8) (i : ℕ) :
  axiReadI8Linear (axiWord bytes) i = (bytes i).toInt
  := by
  have hlane : i % 32 < 32 := Nat.mod_lt _ (by decide)
  rw [axiReadI8Linear, extractLsb'_axiWord _ _ hlane, Nat.div_add_mod]

/-- The rows that are handed over, one behind the other. -/
theorem device_writeVisionPatchActivations {p : ℕ → BitVec 8} {patchCount hiddenStride : ℕ}
    {vitAct b : FpgaBuffer}
    (h : writeVisionPatchActivations (some p) patchCount hiddenStride vitAct = .ok b) {t k : ℕ}
    (ht : t < kVitTokens) (hk : k < kVitHidden) :
  b.device (t * kVitHidden + k) = p (t * hiddenStride + k)
  := by
  rw [writeVisionPatchActivations] at h
  dsimp only at h
  split_ifs at h with hcount hstride
  obtain rfl := not_not.mp hcount
  obtain rfl := Except.ok.inj h
  have hin : 0 ≤ t * kVitHidden + k ∧ t * kVitHidden + k < 0 + kVitTokens * kVitHidden := by
    change t < 1024 at ht
    change k < 768 at hk
    change 0 ≤ t * 768 + k ∧ t * 768 + k < 0 + 1024 * 768
    omega
  simp only [FpgaBuffer.syncToDevice, if_pos hin]
  have hrow : ∀ (act : FpgaBuffer) (i : ℕ),
      (act.memcpy (i * kVitHidden) (fun j => p (i * hiddenStride + j)) kVitHidden).host
          (t * kVitHidden + k)
        = if (t : ℤ) = 0 + i then p (i * hiddenStride + k)
          else act.host (t * kVitHidden + k) := by
    intro act i
    simp only [FpgaBuffer.memcpy]
    change k < 768 at hk
    rcases eq_or_ne t i with rfl | hne
    · have hmem : t * kVitHidden ≤ t * kVitHidden + k
          ∧ t * kVitHidden + k < t * kVitHidden + kVitHidden := by
        change t * 768 ≤ t * 768 + k ∧ t * 768 + k < t * 768 + 768
        omega
      rw [if_pos hmem, if_pos (zero_add _).symm, Nat.add_sub_cancel_left]
    · have hmem : ¬ (i * kVitHidden ≤ t * kVitHidden + k
          ∧ t * kVitHidden + k < i * kVitHidden + kVitHidden) := by
        change ¬ (i * 768 ≤ t * 768 + k ∧ t * 768 + k < i * 768 + 768)
        omega
      rw [if_neg hmem, if_neg (by omega)]
  have hrows := Blocks.foldl_range_write (r := fun act => act.host (t * kVitHidden + k)) hrow vitAct
    kVitTokens
  have hplace : ((t : ℤ) - 0).toNat = t := by omega
  rw [hrows, hplace, if_pos]
  omega

namespace DeviceState

/-- The device holds the same weights of the vision tower and of the connector. -/
structure SameVisionWeights (s s' : DeviceState) : Prop where
  visionWgt : s.vision.visionWgt = s'.vision.visionWgt
  visionMeta : s.vision.visionMeta = s'.vision.visionMeta
  connectorWgt : s.vision.connectorWgt = s'.vision.connectorWgt
  connectorMeta : s.vision.connectorMeta = s'.vision.connectorMeta

/-- The image tokens, when patches have been handed over and encoded. -/
theorem imageRows_encodeImage_congr {s s' : DeviceState} (hweights : s.SameVisionWeights s')
    {p p' : ℕ → BitVec 8} {patchCount patchCount' hiddenStride hiddenStride' : ℕ}
    {b b' : FpgaBuffer}
    (h : writeVisionPatchActivations (some p) patchCount hiddenStride s.vitAct = .ok b)
    (h' : writeVisionPatchActivations (some p') patchCount' hiddenStride' s'.vitAct = .ok b')
    (hpatches : ∀ t < readPatches, ∀ k < vitC,
      p (t * hiddenStride + k) = p' (t * hiddenStride' + k))
    (offsets : VisionOffsets) :
  imageRows ⟨fun _ => 0, wordBytes ((s.setVitAct b).vision.encodeImage offsets).imageTokens⟩
    = imageRows ⟨fun _ => 0, wordBytes ((s'.setVitAct b').vision.encodeImage offsets).imageTokens⟩
  := by
  have hread : (s.setVitAct b).vision.SameReadPatches (s'.setVitAct b').vision := by
    refine ⟨hweights.visionWgt, hweights.visionMeta, hweights.connectorWgt, hweights.connectorMeta,
      ?_⟩
    intro t ht k hk
    have ht' : t < kVitTokens := Nat.lt_of_lt_of_le ht (Nat.div_le_self _ _)
    simp only [setVitAct, axiReadI8Linear_axiWord]
    have hb := device_writeVisionPatchActivations h ht' hk
    have hb' := device_writeVisionPatchActivations h' ht' hk
    rw [hb, hb', hpatches t ht k hk]
  apply List.map_congr_left
  intro t ht
  funext c
  rw [requantImage, requantImage, axiWord_wordBytes, axiWord_wordBytes]
  apply congrArg requantInt8
  apply VisionBuffers.imageTokens_encodeImage_congr hread offsets (List.mem_range.mp ht) c.isLt

end DeviceState

/-! ### The calls of a client -/

namespace FpgaCall

/-- A decode step. -/
def IsDecode : FpgaCall → Bool
  | runDecodeTtft _ _ | runDecodeWindow _ _ _ => true
  | _ => false

/-- A decode step of one token, reading the logits, or writing the embedding of another row than
row 0. -/
def IsLoopCall : FpgaCall → Prop
  | runDecodeTtft _ _ => True
  | runDecodeWindow _ _ windowTokens => windowTokens = 1
  | readLogits count => vocab ≤ count
  | writeDecodeTokenActivation pos _ _ => pos ≠ 0
  | _ => False

/-- A call after the prefill. -/
structure OfDecodeLoop (c : FpgaCall) : Prop where
  isLoopCall : c.IsLoopCall
  inBounds : c.InBounds

/-- The number of decode steps among some calls. -/
def decodes (calls : List FpgaCall) : ℕ := calls.countP IsDecode

end FpgaCall

/-- What a client hands over for a prompt with an image. -/
structure ImageRequest where
  patches : List ℤ
  patchCount : ℕ
  hiddenStride : ℕ
  tokenIds : List ℤ
  embeddings : List ℤ
  stride : ℕ

namespace ImageRequest

variable (r r' : ImageRequest)

/-- The calls up to the layout of the prompt. -/
def layoutCalls : List FpgaCall :=
  [.writeVisionPatchesI8 r.patches r.patchCount r.hiddenStride, .encodeImage,
    .buildPrefillActivationsI8 r.tokenIds r.embeddings r.stride]

/-- The calls up to the prefill, which takes the length that the layout has returned. -/
def calls (session : FpgaSession) : List FpgaCall :=
  r.layoutCalls ++ [.runPrefill (session r.layoutCalls).seqLen]

/-- A request with text and at most one image, which passes the checks of the runner: its arrays
are as long as what is read, and its rows are rows of the residual buffers. -/
structure WellFormed (maxSeq : ℕ) : Prop where
  patchCount : r.patchCount = kVitTokens
  hiddenStride : kVitHidden ≤ r.hiddenStride
  patches : ∀ t < r.patchCount, t * r.hiddenStride + kVitHidden ≤ r.patches.length
  embeddings : r.embeddings ≠ []
  stride : C ≤ r.stride
  text : ∀ k < r.tokenIds.countP (· ≠ kImageTokenId),
    k * r.stride + kLlmHidden ≤ r.embeddings.length
  count : r.tokenIds.count kImageTokenId ≤ 1
  fits : decoderRows r.tokenIds ≤ maxSeq
  rows : decoderRows r.tokenIds ≤ maxL

/-- The requests agree in the text before the image, and in the patches that are read. -/
structure SameBeforeImage : Prop where
  length : (textBefore r.tokenIds).length = (textBefore r'.tokenIds).length
  embeddings : ∀ k < (textBefore r.tokenIds).length,
    embeddingRow (int8Bytes r.embeddings) r.stride k
      = embeddingRow (int8Bytes r'.embeddings) r'.stride k
  patches : ∀ t < readPatches, ∀ k < vitC,
    int8Bytes r.patches (t * r.hiddenStride + k) = int8Bytes r'.patches (t * r'.hiddenStride + k)

/-- The first rows of the prompt, for the tokens of an image. -/
def firstRows (imageTokens : FpgaBuffer) : List ActRow :=
  ((List.range (textBefore r.tokenIds).length).map (embeddingRow (int8Bytes r.embeddings) r.stride)
    ++ imageRows imageTokens).take prefillTokenTile

end ImageRequest

namespace FpgaDevice

variable {d : FpgaDevice}

theorem replay_append_replay {s s' : DeviceState} {calls : List FpgaCall}
    (h : d.replay calls s = some s') (calls' : List FpgaCall) :
  d.replay (calls ++ calls') s = d.replay calls' s'
  := by
  rw [replay, List.foldlM_append, ← replay, h]
  rfl

/-- The state after some decode steps. -/
structure AfterLoop (d : FpgaDevice) (row : ActRow) (n : ℕ) (s : DeviceState) : Prop where
  rowZero : s.runner.rowZero = (d.ports.stepRow d.decoderLayers)^[n] row
  logits : ∀ m, n = m + 1 → readLogits s.runner.mem.lmheadOut
    = (List.range vocab).map (d.ports.stepLogits d.decoderLayers
      ((d.ports.stepRow d.decoderLayers)^[m] row))

/-- A call after the prefill. -/
theorem AfterLoop.call {row : ActRow} {n : ℕ} {s : DeviceState} (h : d.AfterLoop row n s)
    {c : FpgaCall} (hc : c.OfDecodeLoop) :
  ∃ r s', d.call c s = some (r, s') ∧ d.AfterLoop row (if c.IsDecode then n + 1 else n) s'
  := by
  have hdecode : ∀ {pos kvLen : ℤ}, 0 ≤ pos → 0 ≤ kvLen →
      c = .runDecodeTtft pos kvLen ∨ c = .runDecodeWindow pos kvLen 1 →
      ∃ r s', d.call c s = some (r, s') ∧ d.AfterLoop row (n + 1) s' := by
    intro pos kvLen hpos hkv hcall
    obtain ⟨s', hrun, hs'⟩ := d.call_decode hpos hkv hcall s
    rw [h.rowZero] at hs'
    refine ⟨_, s', hrun, ?_, ?_⟩
    · rw [hs'.rowZero, Function.iterate_succ_apply']
    · rintro m hm
      obtain rfl := Nat.succ.inj hm
      exact hs'.logits
  obtain ⟨hc, hin⟩ := hc
  cases c with
  | runDecodeTtft pos kvLen => exact hdecode hin.1.1 hin.1.2 (.inl rfl)
  | runDecodeWindow pos kvLen windowTokens =>
      obtain rfl : windowTokens = 1 := hc
      exact hdecode hin.1.1 hin.1.2.1 (.inr rfl)
  | readLogits count => exact ⟨_, s, d.call_readLogits hc s, h⟩
  | writeDecodeTokenActivation pos embedding stride =>
      obtain ⟨r, s', hrun, hrow, hlogits⟩ := d.call_writeDecodeTokenActivation hc embedding stride s
      refine ⟨r, s', hrun, ?_, ?_⟩
      · exact hrow.trans h.rowZero
      · intro m hm
        rw [hlogits]
        apply h.logits m hm
  | _ => exact absurd hc id

/-- Some calls after the prefill. -/
theorem replay_decodeLoop {loop : List FpgaCall} (hloop : ∀ c ∈ loop, c.OfDecodeLoop)
    (s : DeviceState) :
  ∃ s', d.replay loop s = some s' ∧ d.AfterLoop s.runner.rowZero (FpgaCall.decodes loop) s'
  := by
  induction loop using List.reverseRecOn with
  | nil => exact ⟨s, rfl, rfl, nofun⟩
  | append_singleton loop c ih =>
      obtain ⟨s', hreplay, hs'⟩ := ih fun c hc => hloop c (List.mem_append_left _ hc)
      obtain ⟨r, s'', hcall, hs''⟩ :=
        hs'.call (hloop c (List.mem_append_right _ (List.mem_singleton_self c)))
      refine ⟨s'', replay_append hreplay hcall, ?_⟩
      have hcount : FpgaCall.decodes (loop ++ [c])
          = if c.IsDecode then FpgaCall.decodes loop + 1 else FpgaCall.decodes loop := by
        rw [FpgaCall.decodes, List.countP_append, List.countP_singleton]
        split_ifs <;> rfl
      rw [hcount]
      exact hs''

/-! ### The calls up to the prefill -/

variable {s s' : DeviceState} {r r' : ImageRequest}

/-- The patches of a request are handed over. -/
theorem writeVisionPatchActivations_of_wellFormed (hr : r.WellFormed d.maxSeq)
    (vitAct : FpgaBuffer) :
  ∃ b, writeVisionPatchActivations (some (int8Bytes r.patches)) r.patchCount r.hiddenStride vitAct
    = .ok b
  := by
  rw [writeVisionPatchActivations]
  dsimp only
  rw [if_neg (not_not.mpr hr.patchCount), if_neg (Nat.not_lt.mpr hr.hiddenStride)]
  exact ⟨_, rfl⟩

/-- Its prompt is laid out. -/
theorem buildPrefillActivations_of_wellFormed (hr : r.WellFormed d.maxSeq)
    (imageTokens actPing : FpgaBuffer) :
  ∃ b : FpgaBuffer, buildPrefillActivations d.maxSeq (int8Pointer r.embeddings) r.stride
      r.tokenIds imageTokens actPing = .ok (decoderRows r.tokenIds, b)
    ∧ 1 ≤ decoderRows r.tokenIds
    ∧ (List.range (min prefillTokenTile (decoderRows r.tokenIds))).map b.deviceRow
      = r.firstRows imageTokens
  := by
  have hpointer : int8Pointer r.embeddings = some (int8Bytes r.embeddings) := by
    rw [int8Pointer, List.isEmpty_eq_false_iff.mpr hr.embeddings, if_neg Bool.false_ne_true]
  rw [hpointer]
  obtain ⟨herror, hlayout⟩ := laysOutPrefill_of_count_le_one d.maxSeq
    (int8Bytes r.embeddings) hr.stride imageTokens actPing hr.count
  rcases hbuild : buildPrefillActivations d.maxSeq (some (int8Bytes r.embeddings)) r.stride
      r.tokenIds imageTokens actPing with e | ⟨n, b⟩
  · exact absurd (herror.mp ⟨e, hbuild⟩) (Nat.not_lt.mpr hr.fits)
  · obtain ⟨htile, hrows⟩ := firstTile_buildPrefillActivations hr.count hbuild
    obtain ⟨rfl, -⟩ := hlayout n b hbuild
    have hone : 1 ≤ prefillTokenTile := by decide
    refine ⟨b, rfl, hone.trans htile, ?_⟩
    rw [min_eq_left htile, hrows]
    rfl

/-- After the prefill, row 0 is a function of the first rows of the request. -/
theorem replay_request (hr : r.WellFormed d.maxSeq) (s : DeviceState) :
  ∃ b s', writeVisionPatchActivations (some (int8Bytes r.patches)) r.patchCount r.hiddenStride
      s.vitAct = .ok b
    ∧ (d.session s r.layoutCalls).seqLen = decoderRows r.tokenIds
    ∧ d.replay (r.calls (d.session s)) s = some s'
    ∧ s'.runner.rowZero = d.ports.promptRow d.decoderLayers (r.firstRows
      ⟨fun _ => 0, wordBytes ((s.setVitAct b).vision.encodeImage d.vision).imageTokens⟩)
  := by
  obtain ⟨b, hwrite⟩ := writeVisionPatchActivations_of_wellFormed hr s.vitAct
  let s₁ : DeviceState :=
    { s.setVitAct b with vision := (s.setVitAct b).vision.encodeImage d.vision }
  have hfits := hr.fits
  obtain ⟨act, hbuild, hone, hrows⟩ :=
    buildPrefillActivations_of_wellFormed hr s₁.imageTokens s₁.runner.actPing
  have hwritten : d.call (.writeVisionPatchesI8 r.patches r.patchCount r.hiddenStride) s
      = some (.done, s.setVitAct b) := by rw [FpgaDevice.call, hwrite]
  have hencoded : d.call .encodeImage (s.setVitAct b) = some (.done, s₁) := rfl
  have hbuilt : d.call (.buildPrefillActivationsI8 r.tokenIds r.embeddings r.stride) s₁
      = some ({ FpgaReply.done with seqLen := decoderRows r.tokenIds }, s₁.setActPing act) := by
    rw [FpgaDevice.call, hbuild]
  have hstart : d.replay [] s = some s := rfl
  have hfirst := replay_append (replay_append hstart hwritten) hencoded
  have hlen : (d.session s r.layoutCalls).seqLen = decoderRows r.tokenIds :=
    congrArg FpgaReply.seqLen (session_append hfirst hbuilt)
  obtain ⟨reply, s', hprefill, hrow⟩ := d.call_runPrefill hone s₁ act
  have hrc : reply.rc = 0 := by
    rw [FpgaDevice.call, if_neg (by omega), runDecoder_eq] at hprefill
    obtain ⟨rfl, -⟩ := Prod.mk.inj (Option.some.inj hprefill)
    rfl
  refine ⟨b, s', hwrite, hlen, ?_, ?_⟩
  · rw [ImageRequest.calls, hlen]
    exact replay_append (replay_append hfirst hbuilt) hprefill
  · rw [hrow hrc, hrows]
    rfl

/-! ### The logits of a client -/

/-- The reply to a client that reads the logits after some decode steps. -/
def logitsAfter (d : FpgaDevice) (r : ImageRequest) (loop : List FpgaCall) (s : DeviceState) :
    ℕ → ℤ :=
  (d.session s (r.calls (d.session s) ++ loop ++ [.readLogits vocab])).logits

/-- The calls of a request read no more than its arrays hold, and its prefill stays in the arrays
on the chip. -/
theorem inBounds_calls (hr : r.WellFormed d.maxSeq)
    (hlen : (d.session s r.layoutCalls).seqLen = decoderRows r.tokenIds) :
  ∀ c ∈ r.calls (d.session s), c.InBounds
  := by
  intro c hc
  rw [ImageRequest.calls, hlen] at hc
  simp only [ImageRequest.layoutCalls, List.cons_append, List.nil_append, List.mem_cons,
    List.not_mem_nil, or_false] at hc
  rcases hc with rfl | rfl | rfl | rfl
  · exact hr.patches
  · trivial
  · exact fun _ => hr.text
  · exact hr.rows

/-- For any states of a device with the same weights of the vision tower, two requests of at most
`MAX_L` rows that agree in the text before the image and in a quarter of the patches get the same
logits after the same number of decode steps at positions below `MAX_SEQ`, when no embedding is
written for row 0: neither the text behind the image, nor the rest of the image, nor the embeddings
of other rows, nor the positions of the steps matter.  No call reads beyond its arrays or leaves
those on the chip. -/
theorem logitsAfter_eq (hweights : s.SameVisionWeights s') (hr : r.WellFormed d.maxSeq)
    (hr' : r'.WellFormed d.maxSeq) (hsame : r.SameBeforeImage r') {loop loop' : List FpgaCall}
    (hloop : ∀ c ∈ loop, c.OfDecodeLoop) (hloop' : ∀ c ∈ loop', c.OfDecodeLoop)
    (hdecodes : FpgaCall.decodes loop = FpgaCall.decodes loop')
    (hpos : 0 < FpgaCall.decodes loop) :
  (∀ c ∈ r.calls (d.session s) ++ loop ++ (r'.calls (d.session s') ++ loop'), c.InBounds)
    ∧ d.logitsAfter r loop s = d.logitsAfter r' loop' s'
  := by
  obtain ⟨b, s₁, hwrite, hlen, hreplay, hrow⟩ := replay_request hr s
  obtain ⟨b', s₁', hwrite', hlen', hreplay', hrow'⟩ := replay_request hr' s'
  have himage := DeviceState.imageRows_encodeImage_congr hweights hwrite hwrite' hsame.patches
    d.vision
  have hrows : s₁.runner.rowZero = s₁'.runner.rowZero := by
    rw [hrow, hrow', ImageRequest.firstRows, ImageRequest.firstRows, himage, ← hsame.length]
    congr 3
    apply List.map_congr_left
    intro k hk
    apply hsame.embeddings k (List.mem_range.mp hk)
  obtain ⟨s₂, hloopReplay, hs₂⟩ := replay_decodeLoop hloop s₁
  obtain ⟨s₂', hloopReplay', hs₂'⟩ := replay_decodeLoop hloop' s₁'
  rw [← hrows, ← hdecodes] at hs₂'
  obtain ⟨m, hm⟩ := Nat.exists_eq_succ_of_ne_zero hpos.ne'
  constructor
  · simp only [List.forall_mem_append]
    exact ⟨⟨inBounds_calls hr hlen, fun c hc => (hloop c hc).inBounds⟩,
      inBounds_calls hr' hlen', fun c hc => (hloop' c hc).inBounds⟩
  · rw [logitsAfter, logitsAfter,
      session_append ((replay_append_replay hreplay loop).trans hloopReplay)
        (d.call_readLogits (Nat.le_refl vocab) s₂),
      session_append ((replay_append_replay hreplay' loop').trans hloopReplay')
        (d.call_readLogits (Nat.le_refl vocab) s₂')]
    dsimp only
    rw [hs₂.logits m hm, hs₂'.logits m hm]

end FpgaDevice

/-- A question of some tokens behind a token and an image.  The values of the question and of the
rest of the image are `far`. -/
def ImageRequest.ofQuestion (question : List ℤ) (far : ℤ) : ImageRequest where
  patches := List.replicate (256 * 768) 5 ++ List.replicate (768 * 768) far
  patchCount := kVitTokens
  hiddenStride := kVitHidden
  tokenIds := 7 :: kImageTokenId :: question
  embeddings := List.replicate 960 3 ++ List.replicate (960 * question.length) far
  stride := C

theorem ImageRequest.wellFormed_ofQuestion {question : List ℤ} (far : ℤ)
    (hmem : kImageTokenId ∉ question) (hlen : question.length ≤ 400) :
  (ImageRequest.ofQuestion question far).WellFormed FpgaDevice.ones.maxSeq
  := by
  have hrows : decoderRows (7 :: kImageTokenId :: question) = 65 + question.length := by
    rw [decoderRows, if_pos (List.mem_cons_of_mem _ List.mem_cons_self), spanRows_cons,
      spanRows_cons, spanRows_of_notMem hmem, ← Nat.add_assoc]
    rfl
  constructor
  · rfl
  · apply le_refl
  · intro t ht
    simp only [ofQuestion, List.length_append, List.length_replicate]
    change t < 1024 at ht
    change t * 768 + 768 ≤ 256 * 768 + 768 * 768
    omega
  · apply List.append_ne_nil_of_left_ne_nil
    exact List.cons_ne_nil _ _
  · apply le_refl
  · intro k hk
    have htext : (7 :: kImageTokenId :: question).countP (· ≠ kImageTokenId)
        ≤ 1 + question.length := by
      rw [List.countP_cons_of_pos (by decide), List.countP_cons_of_neg (by decide), Nat.add_comm]
      apply Nat.add_le_add_left List.countP_le_length
    have hk' : k < 1 + question.length := Nat.lt_of_lt_of_le hk htext
    simp only [ofQuestion, List.length_append, List.length_replicate]
    change k * 960 + 960 ≤ 960 + 960 * question.length
    omega
  · change (7 :: kImageTokenId :: question).count kImageTokenId ≤ 1
    rw [List.count_cons_of_ne (by decide), List.count_cons_self, List.count_eq_zero.mpr hmem]
  · change decoderRows (7 :: kImageTokenId :: question) ≤ 2048
    omega
  · change decoderRows (7 :: kImageTokenId :: question) ≤ 512
    omega

/-- Requests of this kind agree in the token before the image, and in the first quarter of it. -/
theorem ImageRequest.sameBeforeImage_ofQuestion (question question' : List ℤ) (far far' : ℤ) :
  (ImageRequest.ofQuestion question far).SameBeforeImage (ImageRequest.ofQuestion question' far')
  := by
  constructor
  · rfl
  · intro k hk
    obtain rfl : k = 0 := Nat.lt_one_iff.mp hk
    funext c
    have hc : 0 * 960 + (c : ℕ) < 960 := by
      have hlt : (c : ℕ) < 960 := c.isLt
      omega
    simp only [embeddingRow, int8Bytes, ofQuestion]
    rw [List.getD_append _ _ _ _ (by rwa [List.length_replicate]),
      List.getD_append _ _ _ _ (by rwa [List.length_replicate])]
  · intro t ht k hk
    have hin : t * 768 + k < 256 * 768 := by
      change t < 256 at ht
      change k < 768 at hk
      omega
    simp only [int8Bytes, ofQuestion]
    rw [List.getD_append _ _ _ _ (by rwa [List.length_replicate]),
      List.getD_append _ _ _ _ (by rwa [List.length_replicate])]

/-- The calls for two tokens after the first question. -/
def FpgaCall.loopOfFirst : List FpgaCall :=
  [.runDecodeTtft 66 66, .readLogits vocab, .writeDecodeTokenActivation 66 (List.replicate 960 1) C,
    .runDecodeWindow 67 67 1]

/-- The calls for two tokens after the second question. -/
def FpgaCall.loopOfSecond : List FpgaCall :=
  [.runDecodeTtft 67 67, .runDecodeWindow 68 68 1]

/-- Two questions about images that differ behind their first quarter get the same logits. -/
theorem FpgaDevice.logitsAfter_eq_questions :
  (∀ c ∈ (ImageRequest.ofQuestion [8] 1).calls (FpgaDevice.ones.session .ones)
        ++ FpgaCall.loopOfFirst
        ++ ((ImageRequest.ofQuestion [9, 10] 2).calls (FpgaDevice.ones.session .ones)
          ++ FpgaCall.loopOfSecond), c.InBounds)
    ∧ FpgaDevice.ones.logitsAfter (.ofQuestion [8] 1) FpgaCall.loopOfFirst .ones
      = FpgaDevice.ones.logitsAfter (.ofQuestion [9, 10] 2) FpgaCall.loopOfSecond .ones
  := by
  apply FpgaDevice.logitsAfter_eq ⟨rfl, rfl, rfl, rfl⟩
    (ImageRequest.wellFormed_ofQuestion 1 (by decide) (by decide))
    (ImageRequest.wellFormed_ofQuestion 2 (by decide) (by decide))
    (ImageRequest.sameBeforeImage_ofQuestion _ _ _ _)
  · intro c hc
    simp only [FpgaCall.loopOfFirst, List.mem_cons, List.not_mem_nil, or_false] at hc
    rcases hc with rfl | rfl | rfl | rfl
    · exact ⟨trivial, by decide, by decide⟩
    · exact ⟨le_refl vocab, trivial⟩
    · refine ⟨(by decide : (66 : ℤ) ≠ 0), ?_⟩
      rw [FpgaCall.InBounds, List.length_replicate]
    · exact ⟨rfl, by decide, by decide⟩
  · intro c hc
    simp only [FpgaCall.loopOfSecond, List.mem_cons, List.not_mem_nil, or_false] at hc
    rcases hc with rfl | rfl
    · exact ⟨trivial, by decide, by decide⟩
    · exact ⟨rfl, by decide, by decide⟩
  · rfl
  · decide

end Kv260
