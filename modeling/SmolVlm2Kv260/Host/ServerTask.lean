import Mathlib.Data.Int.Basic
import SmolVlm2Kv260.Process.Fallible

/-!
# Tasks of the server

The server keeps the tokens of a request with a map from the positions of images and sounds to
their chunks.  A task is handled with calls of the FPGA session, and its results are sent to a
queue; what has been called and sent is the state of the handling, which may throw.

The floats are values of `F`; what the code computes with them is a parameter.  Sizes and
positions fit the integers of the source.
-/

set_option autoImplicit false

namespace Kv260

/-! ### The FPGA session -/

/-- The calls of the FPGA session, with their arguments. -/
inductive FpgaCall where
  | writeVisionPatchesI8 (patches : List ℤ) (patchCount hiddenStride : ℕ)
  | encodeImage
  | buildPrefillActivationsI8 (tokenIds : List ℤ) (embeddings : List ℤ) (stride : ℕ)
  | runPrefill (seqLen : ℤ)
  | runDecodeTtft (pos kvLen : ℤ)
  | runDecodeWindow (pos kvLen windowTokens : ℤ)
  | readLogits (count : ℕ)
  | writeDecodeTokenActivation (pos : ℤ) (embedding : List ℤ) (stride : ℕ)

/-- The return code of a call, and what its output parameters hold after it. -/
structure FpgaReply where
  rc : ℤ
  err : String
  seqLen : ℤ
  logits : ℕ → ℤ

/-- A session replies to a call depending on all calls so far. -/
abbrev FpgaSession : Type := List FpgaCall → FpgaReply

/-- `fpga_last_error`. -/
def fpgaLastError (err : String) : String := if err = "" then "unknown FPGA error" else err

/-! ### Chunks -/

/-- `clip_image_f32`. -/
structure ClipImageF32 (F : Type) where
  nx : ℕ
  ny : ℕ
  buf : List F

/-- `mtmd_image_tokens`. -/
structure ImageTokens (F : Type) where
  nx : ℕ
  ny : ℕ
  useMropePos : Bool
  entries : List (ClipImageF32 F)

/-- `mtmd_input_chunk`. -/
inductive InputChunk (F : Type) where
  | text (tokens : List ℤ)
  | image (tokens : ImageTokens F)
  | audio (nTokens : ℕ)

/-- `mtmd_input_chunk_type`. -/
inductive InputChunkType where
  | text
  | image
  | audio
  deriving DecidableEq

section Chunks

variable {F : Type}

namespace ImageTokens

/-- `n_tokens`. -/
def nTokens (t : ImageTokens F) : ℕ := t.nx * t.ny

/-- `mtmd_image_tokens_get_n_pos`. -/
def nPos (t : ImageTokens F) : ℕ := if t.useMropePos then 1 else t.nTokens

/-- `mtmd_image_tokens_get_image_nx`. -/
def imageNx (t : ImageTokens F) (idx : ℕ) : ℕ := (t.entries[idx]?.map (·.nx)).getD 0

/-- `mtmd_image_tokens_get_image_ny`. -/
def imageNy (t : ImageTokens F) (idx : ℕ) : ℕ := (t.entries[idx]?.map (·.ny)).getD 0

/-- `mtmd_image_tokens_get_image_f32`.  The data of an empty vector are no pointer either. -/
def imageF32 (t : ImageTokens F) (idx : ℕ) : Option (List F) :=
  (t.entries[idx]?.map (·.buf)).filter fun buf => !buf.isEmpty

end ImageTokens

namespace InputChunk

/-- `mtmd_input_chunk_get_type`. -/
def type : InputChunk F → InputChunkType
  | text _ => .text
  | image _ => .image
  | audio _ => .audio

/-- `mtmd_input_chunk_get_tokens_image`. -/
def tokensImage : InputChunk F → Option (ImageTokens F)
  | image t => some t
  | _ => none

/-- `mtmd_input_chunk_get_n_pos`. -/
def nPos : InputChunk F → ℕ
  | text tokens => tokens.length
  | image t => t.nPos
  | audio nTokens => nTokens

end InputChunk

/-! ### The tokens of a request -/

/-- `LLAMA_TOKEN_NULL`. -/
abbrev llamaTokenNull : ℤ := -1

/-- `server_tokens`; the entry of a position that was added last counts. -/
structure ServerTokens (F : Type) where
  hasMtmd : Bool
  mapPosToMedia : List (ℕ × InputChunk F)
  tokens : List ℤ

namespace ServerTokens

/-- `find_chunk`. -/
def findChunk (st : ServerTokens F) (pos : ℕ) : Except String (InputChunk F) :=
  match st.mapPosToMedia.find? fun e => e.1 == pos with
  | some e => .ok e.2
  | none => .error "Chunk not found"

/-- `push_back` of a token. -/
def pushBackToken (st : ServerTokens F) (tok : ℤ) : Except String (ServerTokens F) :=
  if tok = llamaTokenNull then .error "Invalid token"
  else .ok { st with tokens := st.tokens ++ [tok] }

/-- `push_back` of a chunk. -/
def pushBack (st : ServerTokens F) (chunk : InputChunk F) : Except String (ServerTokens F) :=
  match chunk with
  | .text tokens => tokens.foldlM pushBackToken st
  | _ =>
      if st.hasMtmd then
        .ok { st with
          mapPosToMedia := (st.tokens.length, chunk) :: st.mapPosToMedia
          tokens := st.tokens ++ List.replicate chunk.nPos llamaTokenNull }
      else .error "GGML_ASSERT(has_mtmd) failed"

/-- The constructor from the chunks of a prompt. -/
def ofChunks (chunks : List (InputChunk F)) (hasMtmd : Bool) : Except String (ServerTokens F) :=
  chunks.foldlM pushBack { hasMtmd, mapPosToMedia := [], tokens := [] }

theorem pushBackToken_map {st st' : ServerTokens F} {tok : ℤ}
    (h : st.pushBackToken tok = .ok st') :
  st'.mapPosToMedia = st.mapPosToMedia
  := by
  rw [pushBackToken] at h
  split_ifs at h
  obtain rfl := Except.ok.inj h
  rfl

/-- The map grows by the chunks that are pushed. -/
theorem pushBack_map {st st' : ServerTokens F} {chunk : InputChunk F}
    (h : st.pushBack chunk = .ok st') {e : ℕ × InputChunk F} (he : e ∈ st'.mapPosToMedia) :
  e ∈ st.mapPosToMedia ∨ e.2 = chunk
  := by
  cases chunk with
  | text toks =>
      have hmap : st'.mapPosToMedia = st.mapPosToMedia := by
        apply Except.foldlM_invariant (·.mapPosToMedia = st.mapPosToMedia) _ rfl h
        intro st₁ tok _ st₂ heq hpush
        rw [pushBackToken_map hpush, heq]
      exact .inl (hmap ▸ he)
  | image _ | audio _ =>
      simp only [pushBack] at h
      split_ifs at h
      obtain rfl := Except.ok.inj h
      rcases List.mem_cons.mp he with rfl | he
      · exact .inr rfl
      · exact .inl he

/-- A chunk in the map is one of the chunks of the prompt. -/
theorem mem_of_ofChunks {chunks : List (InputChunk F)} {hasMtmd : Bool} {st : ServerTokens F}
    (h : ofChunks chunks hasMtmd = .ok st) {e : ℕ × InputChunk F} (he : e ∈ st.mapPosToMedia) :
  e.2 ∈ chunks
  := by
  have hall : ∀ e ∈ st.mapPosToMedia, e.2 ∈ chunks := by
    apply Except.foldlM_invariant (fun st => ∀ e ∈ st.mapPosToMedia, e.2 ∈ chunks) _ _ h
    · intro st₁ chunk hchunk st₂ hmem hpush e he
      rcases pushBack_map hpush he with he | rfl
      · apply hmem e he
      · apply hchunk
    · intro e he
      cases he
  apply hall e he

/-- A chunk that is found is in the map. -/
theorem mem_of_findChunk {st : ServerTokens F} {pos : ℕ} {chunk : InputChunk F}
    (h : st.findChunk pos = .ok chunk) :
  ∃ e ∈ st.mapPosToMedia, e.2 = chunk
  := by
  rw [findChunk] at h
  split at h
  · rename_i e he
    exact ⟨e, List.mem_of_find?_eq_some he, Except.ok.inj h⟩
  · cases h

end ServerTokens

end Chunks

/-! ### Tasks and results -/

inductive ServerTaskType where
  | completion
  | embedding
  | rerank
  | infill
  | cancel
  | nextResponse
  | metrics
  | slotSave
  | slotRestore
  | slotErase
  | setLora
  deriving DecidableEq

inductive OaicompatType where
  | none
  | chat
  | completion
  | embedding
  deriving DecidableEq

/-- What the FPGA path reads of `slot_params`. -/
structure SlotParams where
  stream : Bool := true
  includeUsage : Bool := false
  nPredict : ℤ := -1
  postSamplingProbs : Bool := false
  verbose : Bool := false
  oaicompat : OaicompatType := .none
  oaicompatModel : String := ""
  oaicompatCmplId : String := ""

/-- What the FPGA path reads of `server_task`. -/
structure ServerTask (F : Type) where
  id : ℤ
  index : ℤ
  params : SlotParams
  tokens : ServerTokens F
  type : ServerTaskType

inductive ErrorType where
  | invalidRequest
  | authentication
  | server
  | notFound
  | permission
  | unavailable
  | notSupported
  | exceedContextSize
  deriving DecidableEq

inductive StopType where
  | none
  | eos
  | word
  | limit
  deriving DecidableEq

/-- What the FPGA path sets of `server_task_result_cmpl_final`; the message is the pair of its
role and content. -/
structure CmplFinal where
  id : ℤ
  idSlot : ℤ
  index : ℤ
  content : String
  tokens : List ℤ
  prompt : String
  truncated : Bool
  nDecoded : ℕ
  nPromptTokens : ℕ
  nTokensCached : ℤ
  hasNewLine : Bool
  stop : StopType
  postSamplingProbs : Bool
  verbose : Bool
  stream : Bool
  includeUsage : Bool
  oaicompat : OaicompatType
  oaicompatModel : String
  oaicompatCmplId : String
  generationParams : SlotParams
  oaicompatMsg : Option (String × String)

/-- A result that is sent. -/
inductive ServerResult where
  | error (id : ℤ) (errType : ErrorType) (errMsg : String) (nPromptTokens nCtx : ℤ)
  | cmplFinal (result : CmplFinal)

/-- The task that a result answers. -/
def ServerResult.id : ServerResult → ℤ
  | error id _ _ _ _ => id
  | cmplFinal result => result.id

/-! ### Handling a task -/

/-- The calls made and the results sent so far. -/
structure ServerLog where
  calls : List FpgaCall := []
  sent : List ServerResult := []

/-- A computation of the server. -/
abbrev ServerM (α : Type) : Type := Fallible ServerLog String α

namespace ServerM

/-- A call of the session. -/
def call (session : FpgaSession) (c : FpgaCall) : ServerM FpgaReply := do
  Fallible.update fun log => { log with calls := log.calls ++ [c] }
  return session (← Fallible.state).calls

/-- `queue_results.send`. -/
def send (result : ServerResult) : ServerM Unit :=
  Fallible.update fun log => { log with sent := log.sent ++ [result] }

/-- `send_error`. -/
def sendError (id : ℤ) (error : String) (type : ErrorType) : ServerM Unit :=
  send (.error id type error 0 0)

@[simp] theorem run_call (session : FpgaSession) (c : FpgaCall) (log : ServerLog) :
  (call session c).run log
    = (.ok (session (log.calls ++ [c])), { log with calls := log.calls ++ [c] })
  := by
  rfl

@[simp] theorem run_send (result : ServerResult) (log : ServerLog) :
  (send result).run log = (.ok (), { log with sent := log.sent ++ [result] })
  := by
  rfl

end ServerM

end Kv260
