import Mathlib.Data.List.TakeWhile
import SmolVlm2Kv260.Host.Completion
import SmolVlm2Kv260.Host.FpgaCApi

/-!
# The standalone driver

`SmolVLM2Inferencer` of `host_driver.cpp` runs the kernels without the C API.  It looks no
embeddings up: the rows of the text stay zero, and a decode step starts from the row that the
step before has left.  So the ids that it generates depend on the image and on the number of rows
before it, and on no token of the text.  Like the runner, it accepts prompts that the residual
buffers cannot hold.
-/

set_option autoImplicit false

namespace Kv260

open Proc

/-! ### The driver -/

/-- The counters of `build_prefill_activations`. -/
structure PromptCounters where
  outToken : ℕ := 0
  sawImagePlaceholder : Bool := false
  imageDstToken : ℕ := 0

/-- `SmolVLM2Inferencer`, once it is constructed: `load_manifest` has refused a manifest
without 32 layers, so `setup_weight_ptrs` finds each of them. -/
structure SmolVLM2Inferencer extends FpgaDevice where
  layers : decoderLayers.length = numLayers

namespace SmolVLM2Inferencer

/-- `reserve_image_tokens`. -/
def reserveImageTokens (st : PromptCounters) : Except String PromptCounters :=
  if hwMaxSeq < st.outToken + kImageTokens then .error "prefill image tokens exceed MAX_SEQ"
  else .ok { st with imageDstToken := st.outToken, outToken := st.outToken + kImageTokens }

/-- An iteration of the loop over the tokens. -/
def countToken (st : PromptCounters) (tokenId : ℤ) : Except String PromptCounters :=
  if tokenId = kImageTokenId then do
    let st ← reserveImageTokens st
    pure { st with sawImagePlaceholder := true }
  else if hwMaxSeq ≤ st.outToken then .error "prefill text tokens exceed MAX_SEQ"
  else .ok { st with outToken := st.outToken + 1 }

/-- An image is prepended unless there was an image token. -/
def ensureImage (tokenIds : List ℤ) (st : PromptCounters) : Except String PromptCounters :=
  if st.sawImagePlaceholder then .ok st
  else do
    let st ← reserveImageTokens { st with outToken := 0 }
    if hwMaxSeq < st.outToken + tokenIds.length then
      .error "prefill tokens exceed MAX_SEQ after prepending image tokens"
    else .ok { st with outToken := st.outToken + tokenIds.length }

/-- `build_prefill_activations`: the number of rows, and `act_ping_bo_`. -/
def buildPrefillActivations (tokenIds : List ℤ) (imageTokens actPing : FpgaBuffer) :
    Except String (ℕ × FpgaBuffer) := do
  let st ← tokenIds.foldlM countToken {}
  let st ← ensureImage tokenIds st
  HostDriver.enforceHwSeqLimit st.outToken
  let cleared := actPing.memset 0 (allocBytes hwMaxSeq .actPing)
  return (st.outToken, runImageBridge imageTokens
    (cleared.syncToDevice (allocBytes hwMaxSeq .actPing) 0) st.imageDstToken kImageTokens)

/-- `top1_sampling`, the loop of `fpga_top1_i32`. -/
def top1Sampling (logits : ℕ → ℤ) (vocabSize : ℕ) : ℕ := fpgaTop1I32 vocabSize logits

variable (I : SmolVLM2Inferencer)

/-- The loop of `decode`, for the steps that are left. -/
def decodeLoop : ℕ → Bool → ℕ → ℕ → DeviceState → Option (List ℤ)
  | 0, _, _, _, _ => some []
  | n + 1, first, curPos, curKv, s => do
      let (_, s) ← I.runDecoder
        (if first then .decodeTtftToken curPos curKv else .decodeThroughputWindow curPos curKv 1) s
      let next : ℤ := top1Sampling (fun i => (readLogits s.runner.mem.lmheadOut).getD i 0) vocab
      if next = 2 then return [next]
      else return next :: (← decodeLoop n false (curPos + 1) (curKv + 1) s)

/-- `decode`. -/
def decode (promptLen : ℕ) (maxNewTokens : ℤ) (s : DeviceState) : Option (List ℤ) :=
  I.decodeLoop maxNewTokens.toNat true promptLen promptLen s

/-- `encode_image`, which launches the kernels as the runner does. -/
def encodeImage (s : DeviceState) : DeviceState :=
  { s with vision := s.vision.encodeImage I.vision }

/-- `prefill`: the generated ids, or what is thrown. -/
def prefill (tokenIds : List ℤ) (maxNewTokens : ℤ) (s : DeviceState) :
    Option (Except String (List ℤ)) :=
  let s := I.encodeImage s
  match buildPrefillActivations tokenIds s.imageTokens s.runner.actPing with
  | .error msg => some (.error msg)
  | .ok (seqLen, actPing) => do
      let (_, s) ← I.runDecoder (.prefillThroughput seqLen) (s.setActPing actPing)
      let ids ← I.decode seqLen maxNewTokens s
      return .ok ids

/-! ### The ids as a function -/

/-- At most `n` ids from a row on: each is the best of the logits of the row, the next row is
what the decode step makes of it, and 2 ends the text. -/
def greedy : ℕ → ActRow → List ℤ
  | 0, _ => []
  | n + 1, row =>
      let next : ℤ := top1Sampling (I.ports.rowLogits I.decoderLayers row) vocab
      if next = 2 then [next] else next :: greedy n (I.ports.stepRow I.decoderLayers row)

/-- The rows before the last image of a prompt. -/
def imageRow (tokenIds : List ℤ) : ℕ :=
  spanRows (tokenIds.reverse.dropWhile (· ≠ kImageTokenId)).tail

/-- The rows of the first tile, when the image begins at row `dst`. -/
def firstTile (dst : ℕ) (imageTokens : FpgaBuffer) : List ActRow :=
  (List.replicate dst (fun _ => 0) ++ imageRows imageTokens).take prefillTokenTile

/-- Row 0 after the prefill. -/
def rowOfImage (dst : ℕ) (s : DeviceState) : ActRow :=
  I.ports.promptRow I.decoderLayers (firstTile dst (I.encodeImage s).imageTokens)

/-! ### The decode loop -/

theorem decodeLoop_eq_greedy (n : ℕ) (first : Bool) (curPos curKv : ℕ) (s : DeviceState) :
  I.decodeLoop n first curPos curKv s = some (I.greedy n s.runner.rowZero)
  := by
  induction n generalizing first curPos curKv s with
  | zero => rfl
  | succ n ih =>
      have hcall : (if first then RunnerCall.decodeTtftToken curPos curKv
          else .decodeThroughputWindow curPos curKv 1) ∈ decodeStepCalls curPos curKv := by
        cases first
        · apply List.mem_cons_of_mem _ (List.mem_singleton_self _)
        · apply List.mem_cons_self
      obtain ⟨s', hrun, hdecoded⟩ := I.runDecoder_decodeStep hcall s
      have hlogits : (fun i => (readLogits s'.runner.mem.lmheadOut).getD i 0)
          = I.ports.rowLogits I.decoderLayers s.runner.rowZero := by
        funext i
        rw [hdecoded.logits, RunnerPorts.rowLogits]
      rw [decodeLoop, hrun, Option.bind_eq_bind, Option.bind_some]
      dsimp only
      rw [hlogits, greedy]
      split_ifs with hstop
      · rfl
      · rw [ih, hdecoded.rowZero]
        rfl

/-! ### The layout of the prompt -/

/-- The counters after the tokens `p`. -/
structure CountInv (p : List ℤ) (st : PromptCounters) : Prop where
  outToken : st.outToken = spanRows p
  saw : st.sawImagePlaceholder = true ↔ kImageTokenId ∈ p
  imageDst : st.imageDstToken = imageRow p

theorem imageRow_concat_image (p : List ℤ) :
  imageRow (p ++ [kImageTokenId]) = spanRows p
  := by
  have hdrop : (kImageTokenId :: p.reverse).dropWhile (· ≠ kImageTokenId)
      = kImageTokenId :: p.reverse := List.dropWhile_cons_of_neg (by simp)
  rw [imageRow, List.reverse_append, List.reverse_singleton, List.singleton_append, hdrop,
    List.tail_cons, spanRows, spanRows, List.map_reverse, List.sum_reverse]

theorem imageRow_concat_text (p : List ℤ) {tokenId : ℤ} (h : tokenId ≠ kImageTokenId) :
  imageRow (p ++ [tokenId]) = imageRow p
  := by
  rw [imageRow, List.reverse_append, List.reverse_singleton, List.singleton_append,
    List.dropWhile_cons_of_pos (by simpa), imageRow]

theorem imageRow_of_notMem {p : List ℤ} (h : kImageTokenId ∉ p) :
  imageRow p = 0
  := by
  have hdrop : p.reverse.dropWhile (· ≠ kImageTokenId) = [] := by
    apply List.dropWhile_eq_nil_iff.mpr
    intro t ht
    apply decide_eq_true
    rintro rfl
    exact h (List.mem_reverse.mp ht)
  rw [imageRow, hdrop]
  rfl

/-- A token whose rows fit. -/
theorem CountInv.step {p : List ℤ} {st : PromptCounters} (h : CountInv p st) {tokenId : ℤ}
    (hfit : spanRows (p ++ [tokenId]) ≤ hwMaxSeq) :
  ∃ st', countToken st tokenId = .ok st' ∧ CountInv (p ++ [tokenId]) st'
  := by
  have hrows : spanRows (p ++ [tokenId]) = spanRows p + tokenRows tokenId := spanRows_append p _
  rw [hrows, ← h.outToken, tokenRows] at hfit
  rw [tokenRows] at hrows
  rw [countToken]
  split_ifs at hfit hrows ⊢ with htoken hfull
  · obtain rfl := htoken
    rw [reserveImageTokens, if_neg (Nat.not_lt.mpr hfit)]
    refine ⟨_, rfl, ?_, ?_, ?_⟩
    · rw [hrows, ← h.outToken]
    · simp only [List.mem_append, List.mem_singleton, or_true]
    · rw [imageRow_concat_image, ← h.outToken]
  · omega
  · refine ⟨_, rfl, ?_, ?_, ?_⟩
    · rw [hrows, ← h.outToken]
    · rw [List.mem_append, List.mem_singleton, or_iff_left (Ne.symm htoken), ← h.saw]
    · rw [imageRow_concat_text p htoken, ← h.imageDst]

/-- A token whose rows do not. -/
theorem CountInv.error {p : List ℤ} {st : PromptCounters} (h : CountInv p st) {tokenId : ℤ}
    (hfull : hwMaxSeq < spanRows (p ++ [tokenId])) :
  ∃ msg, countToken st tokenId = .error msg
  := by
  have hrows : spanRows (p ++ [tokenId]) = spanRows p + tokenRows tokenId := spanRows_append p _
  rw [hrows, ← h.outToken, tokenRows] at hfull
  rw [countToken]
  split_ifs at hfull ⊢ with htoken hfit
  · rw [reserveImageTokens, if_pos hfull]
    exact ⟨_, rfl⟩
  · exact ⟨_, rfl⟩
  · omega

/-- The loop over the tokens: it throws exactly when their rows do not fit. -/
theorem CountInv.run {p : List ℤ} {st : PromptCounters} (h : CountInv p st)
    (tokenIds : List ℤ) :
  (hwMaxSeq < spanRows (p ++ tokenIds) ∧ ∃ msg, tokenIds.foldlM countToken st = .error msg)
    ∨ ∃ st', tokenIds.foldlM countToken st = .ok st' ∧ CountInv (p ++ tokenIds) st'
  := by
  induction tokenIds generalizing p st with
  | nil =>
      rw [List.append_nil]
      exact .inr ⟨st, rfl, h⟩
  | cons tokenId rest ih =>
      have happend : p ++ tokenId :: rest = p ++ [tokenId] ++ rest := List.append_cons ..
      rw [happend, List.foldlM_cons]
      rcases Nat.lt_or_ge hwMaxSeq (spanRows (p ++ [tokenId])) with hfull | hfit
      · obtain ⟨msg, hmsg⟩ := h.error hfull
        left
        constructor
        · rw [spanRows_append]
          omega
        · rw [hmsg]
          exact ⟨msg, rfl⟩
      · obtain ⟨st', hstep, hst'⟩ := h.step hfit
        rw [hstep]
        apply ih hst'

theorem ensureImage_eq {tokenIds : List ℤ} {st : PromptCounters} (h : CountInv tokenIds st) :
  (hwMaxSeq < decoderRows tokenIds ∧ ∃ msg, ensureImage tokenIds st = .error msg)
    ∨ ∃ st', ensureImage tokenIds st = .ok st' ∧ st'.outToken = decoderRows tokenIds
      ∧ st'.imageDstToken = imageRow tokenIds
  := by
  rw [ensureImage, decoderRows]
  by_cases hmem : kImageTokenId ∈ tokenIds
  · rw [if_pos (h.saw.mpr hmem), if_pos hmem]
    exact .inr ⟨st, rfl, h.outToken, h.imageDst⟩
  · have hsaw : ¬ st.sawImagePlaceholder = true := fun hsaw => hmem (h.saw.mp hsaw)
    have hreserve : reserveImageTokens { st with outToken := 0 }
        = .ok { st with imageDstToken := 0, outToken := kImageTokens } := rfl
    rw [if_neg hsaw, if_neg hmem, hreserve]
    by_cases hfull : hwMaxSeq < kImageTokens + tokenIds.length
    · exact .inl ⟨hfull, _, if_pos hfull⟩
    · exact .inr ⟨_, if_neg hfull, rfl, (imageRow_of_notMem hmem).symm⟩

/-- The rows of a prompt are laid out exactly when they fit, with the image at its row. -/
theorem buildPrefillActivations_eq (tokenIds : List ℤ) (imageTokens actPing : FpgaBuffer) :
  (hwMaxSeq < decoderRows tokenIds
      ∧ ∃ msg, buildPrefillActivations tokenIds imageTokens actPing = .error msg)
    ∨ (decoderRows tokenIds ≤ hwMaxSeq
      ∧ buildPrefillActivations tokenIds imageTokens actPing
        = .ok (decoderRows tokenIds, runImageBridge imageTokens
          ((actPing.memset 0 (allocBytes hwMaxSeq .actPing)).syncToDevice
            (allocBytes hwMaxSeq .actPing) 0) (imageRow tokenIds) kImageTokens))
  := by
  have hstart : CountInv [] {} := ⟨rfl, iff_of_false Bool.false_ne_true List.not_mem_nil, rfl⟩
  have hok : ∀ (st : PromptCounters) (f : PromptCounters → Except String (ℕ × FpgaBuffer)),
      (Except.ok st >>= f) = f st := fun _ _ => rfl
  rw [buildPrefillActivations]
  rcases hstart.run tokenIds with ⟨hfull, msg, hmsg⟩ | ⟨st, hloop, hst⟩
  · left
    rw [List.nil_append] at hfull
    constructor
    · rw [decoderRows]
      split_ifs with hmem
      · exact hfull
      · rw [spanRows_of_notMem hmem] at hfull
        omega
    · rw [hmsg]
      exact ⟨msg, rfl⟩
  · rw [List.nil_append] at hst
    rw [hloop, hok]
    rcases ensureImage_eq hst with ⟨hfull, msg, hmsg⟩ | ⟨st', hensure, hrows, hdst⟩
    · rw [hmsg]
      exact .inl ⟨hfull, msg, rfl⟩
    · rw [hensure, hok, hrows, hdst, HostDriver.enforceHwSeqLimit]
      rcases Nat.lt_or_ge hwMaxSeq (decoderRows tokenIds) with hfull | hfit
      · rw [if_pos hfull]
        exact .inl ⟨hfull, _, rfl⟩
      · rw [if_neg (Nat.not_lt.mpr hfit)]
        exact .inr ⟨hfit, rfl⟩

/-- The rows before the image are zero. -/
theorem firstTile_buildPrefillActivations (imageTokens actPing : FpgaBuffer) (dst : ℕ) :
  (List.range prefillTokenTile).map (runImageBridge imageTokens
      ((actPing.memset 0 (allocBytes hwMaxSeq .actPing)).syncToDevice
        (allocBytes hwMaxSeq .actPing) 0) dst kImageTokens).deviceRow
    = firstTile dst imageTokens
  := by
  have himage := length_imageRows imageTokens
  have htile : prefillTokenTile ≤ kImageTokens := by decide
  have hlength : (firstTile dst imageTokens).length = prefillTokenTile := by
    rw [firstTile, List.length_take, List.length_append, List.length_replicate, himage,
      min_eq_left]
    omega
  rw [← hlength]
  apply map_range_eq 0
  intro t ht
  rw [hlength] at ht
  have hmax : t < hwMaxSeq := ht.trans (by decide)
  have hright : (firstTile dst imageTokens).getD t 0
      = (List.replicate dst 0 ++ imageRows imageTokens).getD t 0 := by
    rw [firstTile, List.getD_eq_getElem?_getD, List.getElem?_take_of_lt ht,
      ← List.getD_eq_getElem?_getD]
    rfl
  rw [deviceRow_runImageBridge, deviceRow_syncToDevice _ _ hmax, hostRow_memset _ _ hmax, hright]
  rcases Nat.lt_or_ge t dst with hlt | hge
  · have hout : ¬ (dst ≤ t ∧ t < dst + kImageTokens) := by omega
    rw [if_neg hout, List.getD_append _ _ _ _ (by rwa [List.length_replicate]),
      List.getD_replicate _ hlt]
  · have hin : dst ≤ t ∧ t < dst + kImageTokens := by omega
    rw [if_pos hin, List.getD_append_right _ _ _ _ (by rwa [List.length_replicate]),
      List.length_replicate]

theorem kImageTokens_le_decoderRows (tokenIds : List ℤ) :
  kImageTokens ≤ decoderRows tokenIds
  := by
  rw [decoderRows]
  split_ifs with hmem
  · obtain ⟨before, after, rfl⟩ := List.append_of_mem hmem
    rw [spanRows_append, spanRows_cons, tokenRows, if_pos rfl]
    omega
  · apply Nat.le_add_right

/-- The prefill, and the ids that follow it. -/
theorem prefill_eq (tokenIds : List ℤ) (maxNewTokens : ℤ) (s : DeviceState) :
  (hwMaxSeq < decoderRows tokenIds
      ∧ ∃ msg, I.prefill tokenIds maxNewTokens s = some (.error msg))
    ∨ (decoderRows tokenIds ≤ hwMaxSeq ∧ I.prefill tokenIds maxNewTokens s
      = some (.ok (I.greedy maxNewTokens.toNat (I.rowOfImage (imageRow tokenIds) s))))
  := by
  simp only [prefill]
  rcases buildPrefillActivations_eq tokenIds (I.encodeImage s).imageTokens
    (I.encodeImage s).runner.actPing with ⟨hfull, msg, hmsg⟩ | ⟨hfit, hbuild⟩
  · left
    use hfull, msg
    rw [hmsg]
  · right
    use hfit
    have himage := kImageTokens_le_decoderRows tokenIds
    have htile : 1 ≤ prefillTokenTile ∧ prefillTokenTile ≤ kImageTokens := by decide
    have hmin : min prefillTokenTile (decoderRows tokenIds) = prefillTokenTile :=
      min_eq_left (htile.2.trans himage)
    obtain ⟨s', hrun, hrow⟩ := I.runDecoder_prefill (htile.1.trans (htile.2.trans himage))
      (I.encodeImage s) (runImageBridge (I.encodeImage s).imageTokens
        (((I.encodeImage s).runner.actPing.memset 0 (allocBytes hwMaxSeq .actPing)).syncToDevice
          (allocBytes hwMaxSeq .actPing) 0) (imageRow tokenIds) kImageTokens)
    rw [hmin, firstTile_buildPrefillActivations] at hrow
    rw [hbuild]
    simp only [hrun, decode, decodeLoop_eq_greedy, Option.bind_eq_bind, Option.bind_some, hrow]
    rfl

/-- The launches of a prompt whose rows are laid out and of the new tokens, when these are sampled
by `sample`. -/
def launches (tokenIds : List ℤ) (maxNewTokens : ℤ) (sample : ℕ → ℤ) : List Launch :=
  (RunnerCall.prefillThroughput (decoderRows tokenIds)).launches I.decoderLayers
    ++ HostDriver.decode I.decoderLayers (decoderRows tokenIds) maxNewTokens sample

theorem inBounds_launches {tokenIds : List ℤ} {maxNewTokens : ℤ}
    (hrows : decoderRows tokenIds ≤ maxL)
    (hfits : decoderRows tokenIds + maxNewTokens.toNat ≤ maxSeq) (sample : ℕ → ℤ) :
  ∀ l ∈ I.launches tokenIds maxNewTokens sample, l.InBounds
  := by
  intro l hl
  rcases List.mem_append.mp hl with hprefill | hdecode
  · have hcall : (RunnerCall.prefillThroughput (decoderRows tokenIds)).InBounds := hrows
    apply hcall.launch hprefill
  · apply HostDriver.inBounds_decode hfits sample l hdecode

/-- For any weights, any state of the device, any prompt and any number of new tokens: the driver
throws exactly when the rows of the prompt exceed the limit.  When they are rows of the residual
buffers, and the new tokens have positions in the KV cache, all launches stay in the arrays on the
chip, whatever is sampled, and the ids are generated from a first tile of zeros up to the row of
the last image token and the rows of the image from there on: nothing of the text matters but the
number of rows before that token. -/
theorem prefill_eq_greedy (tokenIds : List ℤ) (maxNewTokens : ℤ) (s : DeviceState) :
  ((∃ msg, I.prefill tokenIds maxNewTokens s = some (.error msg))
      ↔ hwMaxSeq < decoderRows tokenIds)
    ∧ (decoderRows tokenIds ≤ maxL → decoderRows tokenIds + maxNewTokens.toNat ≤ maxSeq →
      (∀ sample, ∀ l ∈ I.launches tokenIds maxNewTokens sample, l.InBounds)
      ∧ I.prefill tokenIds maxNewTokens s
        = some (.ok (I.greedy maxNewTokens.toNat (I.rowOfImage (imageRow tokenIds) s))))
  := by
  have hprefill := I.prefill_eq tokenIds maxNewTokens s
  constructor
  · rcases hprefill with ⟨hfull, msg, hmsg⟩ | ⟨hfit, hok⟩
    · exact iff_of_true ⟨msg, hmsg⟩ hfull
    · apply iff_of_false _ (Nat.not_lt.mpr hfit)
      rintro ⟨msg, hmsg⟩
      rw [hok] at hmsg
      cases hmsg
  · intro hrows hfits
    refine ⟨fun sample => I.inBounds_launches hrows hfits sample, ?_⟩
    rcases hprefill with ⟨hfull, -⟩ | ⟨-, hok⟩
    · exact absurd (hrows.trans (by decide)) (Nat.not_le.mpr hfull)
    · exact hok

/-- The driver of a device of ones. -/
def ones : SmolVLM2Inferencer := { FpgaDevice.ones with layers := rfl }

/-- Sixteen tokens after an image between two words. -/
theorem prefill_eq_greedy_words :
  (∀ sample, ∀ l ∈ ones.launches [7, kImageTokenId, 8] 16 sample, l.InBounds)
    ∧ ones.prefill [7, kImageTokenId, 8] 16 .ones
      = some (.ok (ones.greedy 16 (ones.rowOfImage 1 .ones)))
  := (ones.prefill_eq_greedy [7, kImageTokenId, 8] 16 .ones).2 (by decide) (by decide)

end SmolVLM2Inferencer

end Kv260
