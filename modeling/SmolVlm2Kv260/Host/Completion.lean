import SmolVlm2Kv260.Ggml.Sidecar
import SmolVlm2Kv260.Host.ImageChunk
import SmolVlm2Kv260.Host.Server

/-!
# Completion tasks on the FPGA

`run_fpga_completion_task` collects the tokens of a request and their embeddings, hands over the
image, runs the prefill and then samples one token after the other.  It is meant to answer a
task that it takes over with exactly one result.

Every return code is answered, but the embedding of a token is looked up outside the `try` block,
and the lookup throws for a tensor that is neither `F32` nor `F16`.
-/

set_option autoImplicit false

namespace Kv260

/-! ### The code -/

/-- What the FPGA path reads of the server.  `scaledRow` is the row of a token in the embedding
tensor, times its scale and rounded. -/
structure FpgaServer where
  fpgaEnabled : Bool
  hasSession : Bool
  hasMctx : Bool
  nEmbd : ℤ
  tokEmbd : Option GgmlType
  nVocab : ℤ
  eos : ℤ
  nPredictBase : ℤ
  scaledRow : ℤ → List ℤ
  tokenToPiece : ℤ → Except String String
  commonDetokenize : List ℤ → Except String String

section Code

variable {F : Type} (lrint127 : F → ℤ) (server : FpgaServer) (session : FpgaSession)

/-- `fpga_has_media`. -/
def fpgaHasMedia (task : ServerTask F) : Bool := task.tokens.tokens.any (· == llamaTokenNull)

/-- `fpga_token_embedding_i8`. -/
def fpgaTokenEmbeddingI8 (token : ℤ) : Except String (List ℤ) :=
  if server.nEmbd ≠ 960 then .error "FPGA path expects hidden size 960"
  else
    match server.tokEmbd with
    | none => .error "model token embedding tensor is missing"
    | some type =>
        if token < 0 ∨ server.nVocab ≤ token then
          .error "token id is outside vocabulary range"
        else if type = .f32 ∨ type = .f16 then
          .ok ((server.scaledRow token).map fun q => max (-127) (min 127 q))
        else
          .error ("FPGA path supports F32/F16 token embeddings only; " ++
            "quantized GGUF embeddings need a dequant bridge")

/-- `fpga_top1_i32`. -/
def fpgaTop1I32 (size : ℕ) (logits : ℕ → ℤ) : ℕ :=
  (List.range (size - 1)).foldl
    (fun bestId i => if logits bestId < logits (i + 1) then i + 1 else bestId) 0

/-- The token that stands for the image. -/
abbrev imageTokenId : ℤ := 49190

/-- What the loop over the tokens of a request ends with: an error to be sent, or the tokens and
the embeddings. -/
inductive Scan where
  | rejected (msg : String)
  | scanned (tokenIds embeddings : List ℤ)

/-- The loop over the tokens of a request. -/
def scanLoop (st : ServerTokens F) (i : ℕ) (tokenIds embeddings : List ℤ) :
    Except String Scan :=
  if hi : i < st.tokens.length then
    if st.tokens[i] = llamaTokenNull then
      match st.findChunk i with
      | .error e => .error e
      | .ok chunk =>
          if chunk.type ≠ .image then
            .ok (.rejected "FPGA multimodal path currently supports image chunks only")
          else if hmem : imageTokenId ∈ tokenIds then
            .ok (.rejected
              "FPGA multimodal path currently supports exactly one image per request")
          else scanLoop st (i + chunk.nPos) (tokenIds ++ [imageTokenId]) embeddings
    else
      match fpgaTokenEmbeddingI8 server st.tokens[i] with
      | .error e => .error e
      | .ok emb => scanLoop st (i + 1) (tokenIds ++ [st.tokens[i]]) (embeddings ++ emb)
  else .ok (.scanned tokenIds embeddings)
termination_by (if imageTokenId ∈ tokenIds then 0 else 1, st.tokens.length - i)
decreasing_by
  · apply Prod.Lex.left
    rw [if_neg hmem, if_pos (List.mem_append_right _ (List.mem_singleton_self _))]
    decide
  · by_cases hseen : imageTokenId ∈ tokenIds
    · rw [if_pos hseen, if_pos (List.mem_append_left _ hseen)]
      apply Prod.Lex.right
      omega
    · rw [if_neg hseen]
      split_ifs
      · apply Prod.Lex.left
        decide
      · apply Prod.Lex.right
        omega

/-- What the decode loop ends with: a result has been sent, or the text and the tokens. -/
inductive LoopEnd where
  | answered
  | finished (text : String) (tokens : List ℤ) (stoppedByEos : Bool)

/-- The decode loop with the number of steps that remain; `first` says that there was none. -/
def decodeLoop (id : ℤ) : ℕ → Bool → ℤ → ℤ → String → List ℤ → ServerM LoopEnd
  | 0, _, _, _, text, tokens => return .finished text tokens false
  | remaining + 1, first, curPos, curKv, text, tokens => do
      let decoded ← ServerM.call session
        (if first then .runDecodeTtft curPos curKv else .runDecodeWindow curPos curKv 1)
      if decoded.rc ≠ 0 then
        ServerM.sendError id ("FPGA decode failed: " ++ fpgaLastError decoded.err) .server
        return .answered
      else
        let logits ← ServerM.call session (.readLogits 49280)
        if logits.rc ≠ 0 then
          ServerM.sendError id ("FPGA read_logits failed: " ++ fpgaLastError logits.err) .server
          return .answered
        else
          let next : ℤ := fpgaTop1I32 49280 logits.logits
          let piece ← Fallible.ofExcept (server.tokenToPiece next)
          if next = server.eos then return .finished (text ++ piece) (tokens ++ [next]) true
          else
            let nextEmb ← Fallible.ofExcept (fpgaTokenEmbeddingI8 server next)
            let written ← ServerM.call session
              (.writeDecodeTokenActivation curPos nextEmb 960)
            if written.rc ≠ 0 then
              ServerM.sendError id
                ("FPGA write decode embedding failed: " ++ fpgaLastError written.err) .server
              return .answered
            else
              decodeLoop id remaining false (curPos + 1) (curKv + 1) (text ++ piece)
                (tokens ++ [next])

/-- The final result. -/
def finalResult (task : ServerTask F) (prompt : String) (seqLen : ℤ) (text : String)
    (tokens : List ℤ) (stoppedByEos : Bool) : CmplFinal where
  id := task.id
  idSlot := -1
  index := task.index
  content := text
  tokens := tokens
  prompt := prompt
  truncated := false
  nDecoded := tokens.length
  nPromptTokens := task.tokens.tokens.length
  nTokensCached := seqLen
  hasNewLine := text.toList.contains '\n'
  stop := if stoppedByEos then .eos else .limit
  postSamplingProbs := task.params.postSamplingProbs
  verbose := task.params.verbose
  stream := false
  includeUsage := task.params.includeUsage
  oaicompat := task.params.oaicompat
  oaicompatModel := task.params.oaicompatModel
  oaicompatCmplId := task.params.oaicompatCmplId
  generationParams := task.params
  oaicompatMsg := if task.params.oaicompat = .chat then some ("assistant", text) else none

/-- `detokenize` of the tokens of a request. -/
def detokenize (st : ServerTokens F) : Except String String :=
  server.commonDetokenize (st.tokens.filter (· ≠ llamaTokenNull))

/-- The part from the decode loop on. -/
def runDecode (task : ServerTask F) (seqLen : ℤ) : ServerM Bool := do
  let steps := nPredict task.params.nPredict server.nPredictBase
  match ← decodeLoop server session task.id steps true seqLen seqLen "" [] with
  | .answered => return true
  | .finished text tokens stoppedByEos =>
      let prompt ← Fallible.ofExcept (detokenize server task.tokens)
      ServerM.send (.cmplFinal (finalResult task prompt seqLen text tokens stoppedByEos))
      return true

/-- The part from the encoding of the image on. -/
def runEncoded (task : ServerTask F) (tokenIds embeddings : List ℤ) : ServerM Bool := do
  let encoded ← ServerM.call session .encodeImage
  if encoded.rc ≠ 0 then
    ServerM.sendError task.id ("FPGA encode_image failed: " ++ fpgaLastError encoded.err) .server
    return true
  else
    let built ← ServerM.call session (.buildPrefillActivationsI8 tokenIds embeddings 960)
    if built.rc ≠ 0 then
      ServerM.sendError task.id
        ("FPGA build_prefill_activations failed: " ++ fpgaLastError built.err) .server
      return true
    else
      let prefilled ← ServerM.call session (.runPrefill built.seqLen)
      if prefilled.rc ≠ 0 then
        ServerM.sendError task.id ("FPGA prefill failed: " ++ fpgaLastError prefilled.err) .server
        return true
      else runDecode server session task built.seqLen

/-- The text of the error to be sent when the image could not be handed over. -/
def writeImage (st : ServerTokens F) : ServerM (Option String) :=
  tryCatch
    (do
      let written ← fpgaWriteFirstImageChunk lrint127 session st
      if written.1 then return none
      else return some ("FPGA write vision patches failed: " ++ fpgaLastError written.2))
    fun e => return some e

/-- The part from the image on. -/
def runScanned (task : ServerTask F) (tokenIds embeddings : List ℤ) : ServerM Bool := do
  match ← writeImage lrint127 session task.tokens with
  | some msg =>
      ServerM.sendError task.id msg .server
      return true
  | none => runEncoded server session task tokenIds embeddings

/-- `run_fpga_completion_task`. -/
def runFpgaCompletionTask (task : ServerTask F) : ServerM Bool := do
  if ¬ (server.fpgaEnabled ∧ server.hasSession ∧ server.hasMctx ∧ task.type = .completion) then
    return false
  else if ¬ fpgaHasMedia task then return false
  else if task.params.stream then
    ServerM.sendError task.id
      "FPGA multimodal path currently supports non-streaming responses only" .notSupported
    return true
  else
    match ← Fallible.ofExcept (scanLoop server task.tokens 0 [] []) with
    | .rejected msg =>
        ServerM.sendError task.id msg .notSupported
        return true
    | .scanned tokenIds embeddings => runScanned lrint127 server session task tokenIds embeddings

end Code

/-! ### The embedding of a token -/

/-- A token has an embedding that can be looked up. -/
def FpgaServer.Embeddable (server : FpgaServer) (token : ℤ) : Prop :=
  server.nEmbd = 960 ∧ (server.tokEmbd = some .f32 ∨ server.tokEmbd = some .f16)
    ∧ 0 ≤ token ∧ token < server.nVocab

theorem fpgaTokenEmbeddingI8_isOk_iff (server : FpgaServer) (token : ℤ) :
  (∃ emb, fpgaTokenEmbeddingI8 server token = .ok emb) ↔ server.Embeddable token
  := by
  rw [fpgaTokenEmbeddingI8, FpgaServer.Embeddable]
  by_cases hembd : server.nEmbd = 960
  case neg =>
    rw [if_pos hembd]
    constructor
    · rintro ⟨_, h⟩
      cases h
    · rintro ⟨h, -⟩
      exact absurd h hembd
  case pos =>
    rw [if_neg (not_not.mpr hembd)]
    cases htensor : server.tokEmbd with
    | none => simp
    | some type =>
        simp only [Option.some.injEq, hembd, true_and]
        split_ifs with hrange htype
        · constructor
          · rintro ⟨_, h⟩
            cases h
          · rintro ⟨-, h⟩
            omega
        · constructor
          · rintro -
            exact ⟨htype, by omega⟩
          · rintro -
            exact ⟨_, rfl⟩
        · constructor
          · rintro ⟨_, h⟩
            cases h
          · rintro ⟨h, -⟩
            exact absurd h htype

/-- The lookup throws for the other tokens. -/
theorem exists_error_of_not_embeddable {server : FpgaServer} {token : ℤ}
    (h : ¬ server.Embeddable token) :
  ∃ e, fpgaTokenEmbeddingI8 server token = .error e
  := by
  rcases hlookup : fpgaTokenEmbeddingI8 server token with e | emb
  · exact ⟨e, rfl⟩
  · exact absurd ((fpgaTokenEmbeddingI8_isOk_iff server token).mp ⟨emb, hlookup⟩) h

/-! ### The largest logit -/

theorem fpgaTop1I32_lt {size : ℕ} (hsize : 0 < size) (logits : ℕ → ℤ) :
  fpgaTop1I32 size logits < size
  := by
  have hfold : ∀ n, (List.range n).foldl
      (fun bestId i => if logits bestId < logits (i + 1) then i + 1 else bestId) 0 ≤ n := by
    intro n
    induction n with
    | zero => exact Nat.le_refl 0
    | succ n ih =>
        rw [List.range_succ, List.foldl_append, List.foldl_cons, List.foldl_nil]
        split_ifs
        · apply Nat.le_refl _
        · apply Nat.le_succ_of_le ih
  have hle := hfold (size - 1)
  rw [fpgaTop1I32]
  omega

/-- The logits that are one for a token and zero for the others. -/
def indicator (v : ℕ) (i : ℕ) : ℤ := if i = v then 1 else 0

theorem fpgaTop1I32_indicator {size v : ℕ} (hv : v < size) :
  fpgaTop1I32 size (indicator v) = v
  := by
  have hfold : ∀ n, (List.range n).foldl
      (fun bestId i => if indicator v bestId < indicator v (i + 1) then i + 1 else bestId) 0
        = if v ≤ n then v else 0 := by
    intro n
    induction n with
    | zero =>
        rw [List.range_zero, List.foldl_nil]
        split_ifs <;> omega
    | succ n ih =>
        rw [List.range_succ, List.foldl_append, List.foldl_cons, List.foldl_nil, ih]
        simp only [indicator]
        split_ifs <;> omega
  rw [fpgaTop1I32, hfold, if_pos (by omega)]

/-! ### The text runs of a request -/

section Runs

variable {F : Type} (st : ServerTokens F)

/-- The text tokens from a position on, up to the next image or sound. -/
def textRun (i : ℕ) : List ℤ := (st.tokens.drop i).takeWhile (· ≠ llamaTokenNull)

/-- The position of the next image or sound. -/
def nextMedia (i : ℕ) : ℕ := i + (textRun st i).length

theorem textRun_of_text {i : ℕ} (hi : i < st.tokens.length)
    (htext : st.tokens[i] ≠ llamaTokenNull) :
  textRun st i = st.tokens[i] :: textRun st (i + 1)
  := by
  rw [textRun, textRun, List.drop_eq_getElem_cons hi, List.takeWhile_cons_of_pos]
  apply decide_eq_true htext

theorem textRun_of_media {i : ℕ} (hi : i < st.tokens.length)
    (hmedia : st.tokens[i] = llamaTokenNull) :
  textRun st i = []
  := by
  rw [textRun, List.drop_eq_getElem_cons hi, List.takeWhile_cons_of_neg]
  rw [hmedia]
  decide

theorem textRun_of_end {i : ℕ} (hi : st.tokens.length ≤ i) :
  textRun st i = []
  := by
  rw [textRun, List.drop_eq_nil_of_le hi, List.takeWhile_nil]

theorem nextMedia_of_text {i : ℕ} (hi : i < st.tokens.length)
    (htext : st.tokens[i] ≠ llamaTokenNull) :
  nextMedia st i = nextMedia st (i + 1)
  := by
  rw [nextMedia, nextMedia, textRun_of_text st hi htext, List.length_cons]
  omega

theorem nextMedia_of_textRun_nil {i : ℕ} (h : textRun st i = []) :
  nextMedia st i = i
  := by
  rw [nextMedia, h, List.length_nil, Nat.add_zero]

/-- There is no text at the next image or sound. -/
theorem getElem_nextMedia (i : ℕ) (h : nextMedia st i < st.tokens.length) :
  st.tokens[nextMedia st i] = llamaTokenNull
  := by
  induction hn : st.tokens.length - i generalizing i with
  | zero =>
      have hend : st.tokens.length ≤ i := by omega
      have hself := nextMedia_of_textRun_nil st (textRun_of_end st hend)
      omega
  | succ n ih =>
      have hi : i < st.tokens.length := by omega
      by_cases htext : st.tokens[i] = llamaTokenNull
      · have hself := nextMedia_of_textRun_nil st (textRun_of_media st hi htext)
        simp only [hself]
        apply htext
      · have hnext := nextMedia_of_text st hi htext
        simp only [hnext] at h ⊢
        apply ih (i + 1) h
        omega

/-- A request has an image or a sound when a text run ends before the tokens do. -/
theorem nextMedia_lt (h : st.tokens.any (· == llamaTokenNull) = true) :
  nextMedia st 0 < st.tokens.length
  := by
  have hrun : textRun st 0 = st.tokens.takeWhile (· ≠ llamaTokenNull) := by
    rw [textRun, List.drop_zero]
  rw [nextMedia, Nat.zero_add, hrun]
  apply Nat.lt_of_le_of_ne (List.takeWhile_sublist _).length_le
  intro hlen
  have hall := (List.takeWhile_prefix (fun t : ℤ => decide (t ≠ llamaTokenNull))).eq_of_length hlen
  obtain ⟨t, ht, hnull⟩ := List.any_eq_true.mp h
  rw [← hall] at ht
  have htext := List.all_eq_true.mp List.all_takeWhile t ht
  rw [beq_iff_eq] at hnull
  exact absurd hnull (of_decide_eq_true htext)

end Runs

/-! ### The scan -/

section Scan

variable {F : Type} (server : FpgaServer) (st : ServerTokens F)

/-- The scan goes through a text run whose tokens have embeddings. -/
theorem scanLoop_of_embeddable {i : ℕ} (ids embs : List ℤ)
    (h : ∀ t ∈ textRun st i, server.Embeddable t) :
  ∃ embs', scanLoop server st i ids embs
    = scanLoop server st (nextMedia st i) (ids ++ textRun st i) embs'
  := by
  induction hn : st.tokens.length - i generalizing i ids embs with
  | zero =>
      have hrun := textRun_of_end st (by omega : st.tokens.length ≤ i)
      use embs
      rw [nextMedia_of_textRun_nil st hrun, hrun, List.append_nil]
  | succ n ih =>
      have hi : i < st.tokens.length := by omega
      by_cases htext : st.tokens[i] = llamaTokenNull
      · have hrun := textRun_of_media st hi htext
        use embs
        rw [nextMedia_of_textRun_nil st hrun, hrun, List.append_nil]
      · have hrun := textRun_of_text st hi htext
        rw [hrun] at h
        obtain ⟨emb, hemb⟩ := (fpgaTokenEmbeddingI8_isOk_iff server _).mpr
          (h _ List.mem_cons_self)
        obtain ⟨embs', hrest⟩ := ih (ids ++ [st.tokens[i]]) (embs ++ emb)
          (fun t ht => h t (List.mem_cons_of_mem _ ht)) (by omega)
        use embs'
        rw [scanLoop, dif_pos hi, if_neg htext, hemb]
        simp only
        rw [hrest, nextMedia_of_text st hi htext, hrun, List.append_assoc, List.singleton_append]

/-- The scan throws in a text run with a token that has no embedding. -/
theorem scanLoop_of_not_embeddable {i : ℕ} (ids embs : List ℤ)
    (h : ¬ ∀ t ∈ textRun st i, server.Embeddable t) :
  ∃ e, scanLoop server st i ids embs = .error e
  := by
  induction hn : st.tokens.length - i generalizing i ids embs with
  | zero =>
      rw [textRun_of_end st (by omega : st.tokens.length ≤ i)] at h
      exact absurd (fun t ht => absurd ht List.not_mem_nil) h
  | succ n ih =>
      have hi : i < st.tokens.length := by omega
      by_cases htext : st.tokens[i] = llamaTokenNull
      · rw [textRun_of_media st hi htext] at h
        exact absurd (fun t ht => absurd ht List.not_mem_nil) h
      · rw [textRun_of_text st hi htext, List.forall_mem_cons] at h
        rw [scanLoop, dif_pos hi, if_neg htext]
        rcases hlookup : fpgaTokenEmbeddingI8 server st.tokens[i] with e | emb
        · exact ⟨e, rfl⟩
        · apply ih _ _ _ (by omega)
          intro hrest
          apply h ⟨(fpgaTokenEmbeddingI8_isOk_iff server _).mp ⟨emb, hlookup⟩, hrest⟩

/-- The tokens from a position behind the image on: those of the text run have embeddings, and
the image or sound behind it has a chunk. -/
def RestSafe (q : ℕ) : Prop :=
  (∀ t ∈ textRun st q, server.Embeddable t)
    ∧ (nextMedia st q < st.tokens.length → ∃ chunk, st.findChunk (nextMedia st q) = .ok chunk)

/-- The tokens up to the first one that is refused: those of the text runs have embeddings, and
the images and sounds have chunks. -/
structure ScanSafe : Prop where
  firstRun : ∀ t ∈ textRun st 0, server.Embeddable t
  hasChunk : ∃ chunk, st.findChunk (nextMedia st 0) = .ok chunk
  rest : ∀ chunk, st.findChunk (nextMedia st 0) = .ok chunk → chunk.type = .image →
    imageTokenId ∉ textRun st 0 → RestSafe server st (nextMedia st 0 + chunk.nPos)

/-- The request has one image and no sound, and its text does not name the image token before
the image. -/
def OneImage (t : ImageTokens F) : Prop :=
  st.findChunk (nextMedia st 0) = .ok (.image t) ∧ imageTokenId ∉ textRun st 0
    ∧ st.tokens.length ≤ nextMedia st (nextMedia st 0 + t.nPos)

/-- The scan from a position behind the image on. -/
theorem scanLoop_rest {q : ℕ} {ids : List ℤ} (embs : List ℤ) (hids : imageTokenId ∈ ids) :
  RestSafe server st q ∧ st.tokens.length ≤ nextMedia st q
      ∧ (∃ ids' embs', scanLoop server st q ids embs = .ok (.scanned ids' embs'))
    ∨ RestSafe server st q ∧ nextMedia st q < st.tokens.length
      ∧ (∃ msg, scanLoop server st q ids embs = .ok (.rejected msg))
    ∨ ¬ RestSafe server st q ∧ ∃ e, scanLoop server st q ids embs = .error e
  := by
  by_cases hrun : ∀ t ∈ textRun st q, server.Embeddable t
  case neg => exact .inr (.inr ⟨fun h => hrun h.1, scanLoop_of_not_embeddable server st _ _ hrun⟩)
  obtain ⟨embs', hscan⟩ := scanLoop_of_embeddable server st ids embs hrun
  rw [hscan]
  rcases Nat.lt_or_ge (nextMedia st q) st.tokens.length with hlt | hge
  · rw [scanLoop, dif_pos hlt, if_pos (getElem_nextMedia st q hlt)]
    rcases hfind : st.findChunk (nextMedia st q) with e | chunk
    · refine .inr (.inr ⟨?_, e, rfl⟩)
      rintro ⟨-, hchunk⟩
      obtain ⟨chunk, hchunk⟩ := hchunk hlt
      rw [hfind] at hchunk
      cases hchunk
    · refine .inr (.inl ⟨⟨hrun, fun _ => ⟨chunk, hfind⟩⟩, hlt, ?_⟩)
      simp only
      split_ifs with htype hmem
      · exact ⟨_, rfl⟩
      · exact ⟨_, rfl⟩
      · exact absurd (List.mem_append_left _ hids) hmem
  · refine .inl ⟨⟨hrun, fun hlt => absurd hlt (Nat.not_lt.mpr hge)⟩, hge, ?_⟩
    rw [scanLoop, dif_neg (Nat.not_lt.mpr hge)]
    exact ⟨_, _, rfl⟩

/-- The scan of a request with an image or a sound goes through, refuses it, or throws. -/
theorem scanLoop_cases (hmedia : nextMedia st 0 < st.tokens.length) :
  ScanSafe server st ∧ (∃ t, OneImage st t)
      ∧ (∃ ids embs, scanLoop server st 0 [] [] = .ok (.scanned ids embs))
    ∨ ScanSafe server st ∧ (¬ ∃ t, OneImage st t)
      ∧ (∃ msg, scanLoop server st 0 [] [] = .ok (.rejected msg))
    ∨ ¬ ScanSafe server st ∧ ∃ e, scanLoop server st 0 [] [] = .error e
  := by
  by_cases hrun : ∀ t ∈ textRun st 0, server.Embeddable t
  case neg =>
    exact .inr (.inr ⟨fun h => hrun h.firstRun, scanLoop_of_not_embeddable server st _ _ hrun⟩)
  obtain ⟨embs', hscan⟩ := scanLoop_of_embeddable server st [] [] hrun
  rw [hscan, List.nil_append, scanLoop, dif_pos hmedia, if_pos (getElem_nextMedia st 0 hmedia)]
  rcases hfind : st.findChunk (nextMedia st 0) with e | chunk
  · refine .inr (.inr ⟨?_, e, rfl⟩)
    rintro ⟨-, ⟨chunk, hchunk⟩, -⟩
    rw [hfind] at hchunk
    cases hchunk
  have hsafe : (chunk.type = .image → imageTokenId ∉ textRun st 0 →
      RestSafe server st (nextMedia st 0 + chunk.nPos)) ↔ ScanSafe server st := by
    constructor
    · intro hrest
      refine ⟨hrun, ⟨chunk, hfind⟩, ?_⟩
      intro chunk' hfind'
      obtain rfl := Except.ok.inj (hfind.symm.trans hfind')
      apply hrest
    · intro h
      apply h.rest chunk hfind
  have hone : (∃ t, OneImage st t) ↔ chunk.type = .image ∧ imageTokenId ∉ textRun st 0
      ∧ st.tokens.length ≤ nextMedia st (nextMedia st 0 + chunk.nPos) := by
    constructor
    · rintro ⟨t, hfind', hnot, hend⟩
      obtain rfl := Except.ok.inj (hfind.symm.trans hfind')
      exact ⟨rfl, hnot, hend⟩
    · rintro ⟨htype, hnot, hend⟩
      cases chunk with
      | text _ => cases htype
      | audio _ => cases htype
      | image t => exact ⟨t, hfind, hnot, hend⟩
  rw [← hsafe, hone]
  simp only
  by_cases htype : chunk.type = .image
  case neg =>
    rw [if_pos htype]
    exact .inr (.inl ⟨fun h => absurd h htype, fun h => htype h.1, _, rfl⟩)
  by_cases hmem : imageTokenId ∈ textRun st 0
  case pos =>
    rw [if_neg (not_not.mpr htype), dif_pos hmem]
    exact .inr (.inl ⟨fun _ h => absurd hmem h, fun h => h.2.1 hmem, _, rfl⟩)
  rw [if_neg (not_not.mpr htype), dif_neg hmem]
  rcases scanLoop_rest server st (q := nextMedia st 0 + chunk.nPos) embs'
      (List.mem_append_right (textRun st 0) (List.mem_singleton_self imageTokenId)) with
    ⟨hrest, hend, hscanned⟩ | ⟨hrest, hlt, hrejected⟩ | ⟨hrest, herror⟩
  · exact .inl ⟨fun _ _ => hrest, ⟨htype, hmem, hend⟩, hscanned⟩
  · exact .inr (.inl ⟨fun _ _ => hrest, fun h => absurd h.2.2 (Nat.not_le.mpr hlt), hrejected⟩)
  · exact .inr (.inr ⟨fun h => hrest (h htype hmem), herror⟩)

end Scan

/-! ### The image -/

section Image

variable {F : Type} (lrint127 : F → ℤ) (session : FpgaSession) (st : ServerTokens F)

/-- The loop that hands over the image goes through text. -/
theorem writeImageLoop_nextMedia (pos : ℕ) (saw : Bool) :
  writeImageLoop lrint127 session st pos saw
    = writeImageLoop lrint127 session st (nextMedia st pos) saw
  := by
  induction hn : st.tokens.length - pos generalizing pos with
  | zero =>
      rw [nextMedia_of_textRun_nil st (textRun_of_end st (by omega))]
  | succ n ih =>
      have hpos : pos < st.tokens.length := by omega
      by_cases htext : st.tokens[pos] = llamaTokenNull
      · rw [nextMedia_of_textRun_nil st (textRun_of_media st hpos htext)]
      · rw [nextMedia_of_text st hpos htext, ← ih (pos + 1) (by omega)]
        rw [writeImageLoop, dif_pos hpos, if_pos htext]

variable {st} {t : ImageTokens F} (hone : OneImage st t)
  (hmedia : nextMedia st 0 < st.tokens.length)

include hone hmedia

/-- The image of a request is handed over when it passes the checks and the call succeeds. -/
theorem run_writeImage (log : ServerLog) :
  ∃ log', log'.sent = log.sent ∧
    ((∃ msg, (writeImage lrint127 session st).run log = (.ok (some msg), log')
        ∧ (AcceptedShape t → ∃ calls, (session calls).rc ≠ 0))
      ∨ AcceptedShape t ∧ (writeImage lrint127 session st).run log = (.ok none, log'))
  := by
  obtain ⟨hfind, -, hend⟩ := hone
  have hloop : fpgaWriteFirstImageChunk lrint127 session st = (do
      let patches ← Fallible.ofExcept (visionI8 lrint127 (.image t))
      let reply ← ServerM.call session
        (.writeVisionPatchesI8 patches expectedPatches expectedHidden)
      if reply.rc ≠ 0 then return (false, reply.err) else return (true, "")) := by
    rw [fpgaWriteFirstImageChunk, writeImageLoop_nextMedia, writeImageLoop, dif_pos hmedia,
      if_neg (not_not.mpr (getElem_nextMedia st 0 hmedia)), dif_neg Bool.false_ne_true, hfind]
    change (do
      let patches ← Fallible.ofExcept (visionI8 lrint127 (.image t))
      let reply ← ServerM.call session
        (.writeVisionPatchesI8 patches expectedPatches expectedHidden)
      if reply.rc ≠ 0 then return (false, reply.err)
      else writeImageLoop lrint127 session st (nextMedia st 0 + t.nPos) true) = _
    rw [writeImageLoop_nextMedia, writeImageLoop, dif_neg (Nat.not_lt.mpr hend)]
    rfl
  rw [writeImage, hloop, Fallible.run_tryCatch]
  rcases hvision : visionI8 lrint127 (.image t) with e | patches
  · use log, rfl
    left
    use e, rfl
    intro hshape
    obtain ⟨patches, hpatches⟩ := (visionI8_isOk_iff lrint127 t).mpr hshape
    rw [hvision] at hpatches
    cases hpatches
  · let call := FpgaCall.writeVisionPatchesI8 patches expectedPatches expectedHidden
    use { log with calls := log.calls ++ [call] }, rfl
    by_cases hrc : (session (log.calls ++ [call])).rc = 0
    · right
      use (visionI8_isOk_iff lrint127 t).mp ⟨patches, hvision⟩
      simp [Fallible.run_bind, call, hrc]
    · left
      use "FPGA write vision patches failed: " ++ fpgaLastError (session (log.calls ++ [call])).err
      constructor
      · simp [Fallible.run_bind, call, hrc]
      · intro _
        exact ⟨_, hrc⟩

end Image

/-! ### One answer -/

/-- The computation sends one result for the task and returns true. -/
def Answers (id : ℤ) (m : ServerM Bool) (log : ServerLog) : Prop :=
  ∃ log' r, m.run log = (.ok true, log') ∧ log'.sent = log.sent ++ [r] ∧ r.id = id

section Answers

variable (server : FpgaServer) (session : FpgaSession) (id : ℤ)

theorem answers_sendError (msg : String) (type : ErrorType) (log : ServerLog) :
  Answers id (do ServerM.sendError id msg type; return true) log
  := by
  exact ⟨_, _, rfl, rfl, rfl⟩

/-- A call sends nothing. -/
theorem answers_call {c : FpgaCall} {f : FpgaReply → ServerM Bool} {log : ServerLog}
    (h : ∀ log', log'.sent = log.sent → Answers id (f (session (log.calls ++ [c]))) log') :
  Answers id (ServerM.call session c >>= f) log
  := by
  obtain ⟨log', r, hrun, hsent, hid⟩ := h { log with calls := log.calls ++ [c] } rfl
  exact ⟨log', r, (Fallible.run_bind_of_ok (ServerM.run_call session c log)).trans hrun, hsent, hid⟩

/-- The tokens that can be sampled have a text, and an embedding unless they are the end. -/
def DecodesSafely : Prop :=
  ∀ v : ℕ, v < 49280 → (∃ piece, server.tokenToPiece v = .ok piece)
    ∧ ((v : ℤ) = server.eos ∨ server.Embeddable v)

/-- The decode loop sends one result or none, and none only when no call has failed. -/
theorem decodeLoop_of_safe (hsafe : DecodesSafely server) (n : ℕ) (first : Bool)
    (curPos curKv : ℤ) (text : String) (tokens : List ℤ) (log : ServerLog) :
  ∃ log',
    ((decodeLoop server session id n first curPos curKv text tokens).run log
        = (.ok .answered, log')
      ∧ (∃ r, log'.sent = log.sent ++ [r] ∧ r.id = id) ∧ ∃ calls, (session calls).rc ≠ 0)
    ∨ ∃ text' tokens' eos,
      (decodeLoop server session id n first curPos curKv text tokens).run log
          = (.ok (.finished text' tokens' eos), log')
        ∧ log'.sent = log.sent
  := by
  induction n generalizing first curPos curKv text tokens log with
  | zero => exact ⟨log, .inr ⟨text, tokens, false, rfl, rfl⟩⟩
  | succ n ih =>
      rw [decodeLoop, Fallible.run_bind_of_ok (ServerM.run_call _ _ _)]
      generalize log.calls ++ _ = calls
      by_cases hdecode : (session calls).rc = 0
      case neg =>
        rw [if_pos hdecode]
        exact ⟨_, .inl ⟨rfl, ⟨_, rfl, rfl⟩, _, hdecode⟩⟩
      rw [if_neg (not_not.mpr hdecode), Fallible.run_bind_of_ok (ServerM.run_call _ _ _)]
      generalize calls ++ _ = calls
      by_cases hlogits : (session calls).rc = 0
      case neg =>
        rw [if_pos hlogits]
        exact ⟨_, .inl ⟨rfl, ⟨_, rfl, rfl⟩, _, hlogits⟩⟩
      rw [if_neg (not_not.mpr hlogits)]
      obtain ⟨⟨piece, hpiece⟩, hnext⟩ := hsafe _
        (fpgaTop1I32_lt (by decide : 0 < 49280) (session calls).logits)
      simp only [hpiece]
      rw [Fallible.run_bind_of_ok (Fallible.run_ofExcept _ _)]
      split_ifs with heos
      · exact ⟨_, .inr ⟨_, _, _, rfl, rfl⟩⟩
      obtain ⟨emb, hemb⟩ := (fpgaTokenEmbeddingI8_isOk_iff server _).mpr (hnext.resolve_left heos)
      rw [hemb, Fallible.run_bind_of_ok (Fallible.run_ofExcept _ _),
        Fallible.run_bind_of_ok (ServerM.run_call _ _ _)]
      generalize calls ++ _ = calls
      by_cases hwrite : (session calls).rc = 0
      case neg =>
        rw [if_pos hwrite]
        exact ⟨_, .inl ⟨rfl, ⟨_, rfl, rfl⟩, _, hwrite⟩⟩
      rw [if_neg (not_not.mpr hwrite)]
      apply ih

variable {F : Type} (lrint127 : F → ℤ) (task : ServerTask F)

theorem answers_runDecode (hsafe : DecodesSafely server)
    (hprompt : ∃ prompt, detokenize server task.tokens = .ok prompt) (seqLen : ℤ)
    (log : ServerLog) :
  Answers task.id (runDecode server session task seqLen) log
  := by
  obtain ⟨prompt, hprompt⟩ := hprompt
  obtain ⟨log', ⟨hrun, ⟨r, hsent, hid⟩, -⟩ | ⟨text, tokens, eos, hrun, hsent⟩⟩ :=
    decodeLoop_of_safe server session task.id hsafe
      (nPredict task.params.nPredict server.nPredictBase) true seqLen seqLen "" [] log
  · use log', r
    rw [runDecode, Fallible.run_bind_of_ok hrun]
    exact ⟨rfl, hsent, hid⟩
  · let result := ServerResult.cmplFinal (finalResult task prompt seqLen text tokens eos)
    use { log' with sent := log'.sent ++ [result] }, result
    rw [runDecode, Fallible.run_bind_of_ok hrun]
    simp only [hprompt]
    exact ⟨rfl, congrArg (· ++ [result]) hsent, rfl⟩

theorem answers_runEncoded (hsafe : DecodesSafely server)
    (hprompt : ∃ prompt, detokenize server task.tokens = .ok prompt) (ids embs : List ℤ)
    (log : ServerLog) :
  Answers task.id (runEncoded server session task ids embs) log
  := by
  apply answers_call
  intro log₁ _
  split_ifs
  · apply answers_sendError
  apply answers_call
  intro log₂ _
  split_ifs
  · apply answers_sendError
  apply answers_call
  intro log₃ _
  split_ifs
  · apply answers_sendError
  apply answers_runDecode server session task hsafe hprompt

/-! ### When a task throws -/

/-- A session in which every call succeeds and the largest logit is that of `v`. -/
def steadySession (v : ℕ) : FpgaSession := fun _ => ⟨0, "", 0, indicator v⟩

theorem steadySession_rc (v : ℕ) (calls : List FpgaCall) :
  ¬ (steadySession v calls).rc ≠ 0
  := by
  apply not_not.mpr rfl

/-- The part from the decode loop on throws when a token that is sampled has no text or no
embedding. -/
theorem runDecode_throws_of_token {v : ℕ} (hv : v < 49280)
    (h : ¬ ((∃ piece, server.tokenToPiece v = .ok piece)
      ∧ ((v : ℤ) = server.eos ∨ server.Embeddable v))) (seqLen : ℤ) (log : ServerLog) :
  ∃ e log', (runDecode server (steadySession v) task seqLen).run log = (.error e, log')
  := by
  have hloop : ∀ n first curPos curKv text tokens log, ∃ e log',
      (decodeLoop server (steadySession v) task.id (n + 1) first curPos curKv text tokens).run log
        = (.error e, log') := by
    intro n first curPos curKv text tokens log
    rw [decodeLoop, Fallible.run_bind_of_ok (ServerM.run_call _ _ _), if_neg (steadySession_rc _ _),
      Fallible.run_bind_of_ok (ServerM.run_call _ _ _), if_neg (steadySession_rc _ _)]
    simp only [steadySession, fpgaTop1I32_indicator hv]
    rcases hpiece : server.tokenToPiece v with e | piece
    · exact ⟨e, _, rfl⟩
    · rw [Fallible.run_bind_of_ok (Fallible.run_ofExcept _ _)]
      have hnext : ¬ ((v : ℤ) = server.eos ∨ server.Embeddable v) := fun hnext =>
        h ⟨⟨piece, hpiece⟩, hnext⟩
      rw [not_or] at hnext
      obtain ⟨e, he⟩ := exists_error_of_not_embeddable hnext.2
      rw [if_neg hnext.1, he]
      exact ⟨e, _, rfl⟩
  obtain ⟨n, hn⟩ := Nat.exists_eq_succ_of_ne_zero
    (nPredict_pos task.params.nPredict server.nPredictBase).ne'
  obtain ⟨e, log', hrun⟩ := hloop n true seqLen seqLen "" [] log
  use e, log'
  rw [runDecode, hn]
  apply Fallible.run_bind_of_error hrun

/-- It throws as well when the prompt has no text. -/
theorem runDecode_throws_of_prompt (hsafe : DecodesSafely server)
    (hprompt : ¬ ∃ prompt, detokenize server task.tokens = .ok prompt) (v : ℕ) (seqLen : ℤ)
    (log : ServerLog) :
  ∃ e log', (runDecode server (steadySession v) task seqLen).run log = (.error e, log')
  := by
  obtain ⟨log', ⟨-, -, calls, hrc⟩ | ⟨text, tokens, eos, hrun, -⟩⟩ :=
    decodeLoop_of_safe server (steadySession v) task.id hsafe
      (nPredict task.params.nPredict server.nPredictBase) true seqLen seqLen "" [] log
  · exact absurd rfl hrc
  · rcases hdetokenize : detokenize server task.tokens with e | prompt
    · use e, log'
      rw [runDecode, Fallible.run_bind_of_ok hrun]
      simp only [hdetokenize]
      rfl
    · exact absurd ⟨prompt, hdetokenize⟩ hprompt

/-- The calls before the decode loop succeed. -/
theorem runEncoded_steady (v : ℕ) (ids embs : List ℤ) (log : ServerLog) :
  ∃ log', (runEncoded server (steadySession v) task ids embs).run log
    = (runDecode server (steadySession v) task 0).run log'
  := by
  rw [runEncoded, Fallible.run_bind_of_ok (ServerM.run_call _ _ _), if_neg (steadySession_rc _ _),
    Fallible.run_bind_of_ok (ServerM.run_call _ _ _), if_neg (steadySession_rc _ _),
    Fallible.run_bind_of_ok (ServerM.run_call _ _ _), if_neg (steadySession_rc _ _)]
  exact ⟨_, rfl⟩

/-- A task is handled when the FPGA is enabled and ready, and the task is a completion with an
image or a sound. -/
def Handled : Prop :=
  (server.fpgaEnabled ∧ server.hasSession ∧ server.hasMctx ∧ task.type = .completion)
    ∧ fpgaHasMedia task = true

/-- A task is answered once: the function returns false and has sent nothing, or it returns
true and has sent one result for the task. -/
def AnsweredOnce (outcome : Except String Bool × ServerLog) : Prop :=
  outcome.1 = .ok false ∧ outcome.2.sent = []
    ∨ outcome.1 = .ok true ∧ ∃ r, outcome.2.sent = [r] ∧ r.id = task.id

/-- What a task needs for an answer: the tokens in front of a refusal have embeddings and
chunks, and if the image is accepted, all tokens that can be sampled and the prompt have texts
and embeddings. -/
def TaskSafe : Prop :=
  ScanSafe server task.tokens
    ∧ ((∃ t, OneImage task.tokens t ∧ AcceptedShape t) →
      DecodesSafely server ∧ ∃ prompt, detokenize server task.tokens = .ok prompt)

theorem not_answeredOnce_error {e : String} {log : ServerLog} :
  ¬ AnsweredOnce task (.error e, log)
  := by
  rintro (⟨⟨⟩, -⟩ | ⟨⟨⟩, -⟩)

theorem answeredOnce_of_answers {m : ServerM Bool} (h : Answers task.id m {}) :
  AnsweredOnce task (m.run {})
  := by
  obtain ⟨log', r, hrun, hsent, hid⟩ := h
  right
  rw [hrun]
  exact ⟨rfl, r, hsent, hid⟩

/-- A handled task that is not streamed goes to the scan. -/
theorem runFpgaCompletionTask_eq (hhandled : Handled server task)
    (hstream : task.params.stream = false) :
  runFpgaCompletionTask lrint127 server session task = (do
    match ← Fallible.ofExcept (scanLoop server task.tokens 0 [] []) with
    | .rejected msg =>
        ServerM.sendError task.id msg .notSupported
        return true
    | .scanned tokenIds embeddings =>
        runScanned lrint127 server session task tokenIds embeddings)
  := by
  rw [runFpgaCompletionTask, if_neg (not_not.mpr hhandled.1), if_neg (not_not.mpr hhandled.2),
    hstream, if_neg Bool.false_ne_true]

/-- The parts from the image on answer a task that has what it needs. -/
theorem answers_runScanned (hmedia : fpgaHasMedia task = true) {t : ImageTokens F}
    (hone : OneImage task.tokens t)
    (hsafe : AcceptedShape t → DecodesSafely server
      ∧ ∃ prompt, detokenize server task.tokens = .ok prompt) (ids embs : List ℤ)
    (log : ServerLog) :
  Answers task.id (runScanned lrint127 server session task ids embs) log
  := by
  obtain ⟨log', hsent, ⟨msg, hrun, -⟩ | ⟨hshape, hrun⟩⟩ :=
    run_writeImage lrint127 session hone (nextMedia_lt _ hmedia) log
  · obtain ⟨log'', r, hrun', hsent', hid⟩ :=
      answers_sendError task.id msg .server log'
    use log'', r
    rw [runScanned, Fallible.run_bind_of_ok hrun, ← hsent]
    exact ⟨hrun', hsent', hid⟩
  · obtain ⟨hdecodes, hprompt⟩ := hsafe hshape
    obtain ⟨log'', r, hrun', hsent', hid⟩ :=
      answers_runEncoded server session task hdecodes hprompt ids embs log'
    use log'', r
    rw [runScanned, Fallible.run_bind_of_ok hrun, ← hsent]
    exact ⟨hrun', hsent', hid⟩

/-- They throw in some session otherwise. -/
theorem runScanned_throws (hmedia : fpgaHasMedia task = true) {t : ImageTokens F}
    (hone : OneImage task.tokens t) (hshape : AcceptedShape t)
    (hfails : ¬ (DecodesSafely server
      ∧ ∃ prompt, detokenize server task.tokens = .ok prompt)) :
  ∃ v, ∀ ids embs log, ∃ e log',
    (runScanned lrint127 server (steadySession v) task ids embs).run log = (.error e, log')
  := by
  have hdecode : ∃ v, ∀ log, ∃ e log',
      (runDecode server (steadySession v) task 0).run log = (.error e, log') := by
    by_cases hdecodes : DecodesSafely server
    · have hprompt := not_and.mp hfails hdecodes
      use 0
      apply runDecode_throws_of_prompt server task hdecodes hprompt
    · rw [DecodesSafely] at hdecodes
      push Not at hdecodes
      obtain ⟨v, hv, htoken⟩ := hdecodes
      use v
      apply runDecode_throws_of_token server task hv
      rintro ⟨hpiece, hnext⟩
      obtain ⟨hne, hembeddable⟩ := htoken hpiece
      apply hnext.elim hne hembeddable
  obtain ⟨v, hv⟩ := hdecode
  use v
  intro ids embs log
  obtain ⟨log₁, -, ⟨msg, -, hrc⟩ | ⟨-, hrun⟩⟩ :=
    run_writeImage lrint127 (steadySession v) hone (nextMedia_lt _ hmedia) log
  · obtain ⟨calls, hrc⟩ := hrc hshape
    exact absurd hrc (steadySession_rc v calls)
  · obtain ⟨log₂, hencoded⟩ := runEncoded_steady server task v ids embs log₁
    obtain ⟨e, log₃, hthrows⟩ := hv log₂
    use e, log₃
    rw [runScanned, Fallible.run_bind_of_ok hrun]
    apply hencoded.trans hthrows

theorem answeredOnce_of_not_handled (hhandled : ¬ Handled server task) :
  AnsweredOnce task ((runFpgaCompletionTask lrint127 server session task).run {})
  := by
  left
  rw [runFpgaCompletionTask]
  by_cases hready : server.fpgaEnabled ∧ server.hasSession ∧ server.hasMctx
      ∧ task.type = .completion
  · rw [if_neg (not_not.mpr hready), if_pos fun hmedia => hhandled ⟨hready, hmedia⟩]
    exact ⟨rfl, rfl⟩
  · rw [if_pos hready]
    exact ⟨rfl, rfl⟩

theorem answeredOnce_of_stream (hhandled : Handled server task)
    (hstream : task.params.stream = true) :
  AnsweredOnce task ((runFpgaCompletionTask lrint127 server session task).run {})
  := by
  rw [runFpgaCompletionTask, if_neg (not_not.mpr hhandled.1),
    if_neg (not_not.mpr hhandled.2), if_pos hstream]
  apply answeredOnce_of_answers
  apply answers_sendError

/-- What a task with one image needs, when its tokens have been scanned. -/
theorem answeredOnce_scanned_iff (hhandled : Handled server task) {t : ImageTokens F}
    (hone : OneImage task.tokens t) (ids embs : List ℤ) :
  (∀ session, AnsweredOnce task ((runScanned lrint127 server session task ids embs).run {}))
    ↔ ∀ t, OneImage task.tokens t → AcceptedShape t → DecodesSafely server
      ∧ ∃ prompt, detokenize server task.tokens = .ok prompt
  := by
  constructor
  · intro h t' hone' hshape
    by_contra hfails
    obtain ⟨v, hv⟩ := runScanned_throws server lrint127 task hhandled.2 hone' hshape hfails
    obtain ⟨e, log, hthrows⟩ := hv ids embs {}
    have hanswer := h (steadySession v)
    rw [hthrows] at hanswer
    apply not_answeredOnce_error task hanswer
  · intro hsafe session
    apply answeredOnce_of_answers
    apply answers_runScanned server session lrint127 task hhandled.2 hone
    apply hsafe t hone

/-- For every task and server, every session leads to exactly one answer, or to none and to
`false`, when the task is not handled, or streamed, or has what it needs; otherwise some session
leads to an exception. -/
theorem answeredOnce_iff :
  (∀ session, AnsweredOnce task ((runFpgaCompletionTask lrint127 server session task).run {}))
    ↔ ¬ Handled server task ∨ task.params.stream = true ∨ TaskSafe server task
  := by
  by_cases hhandled : Handled server task
  case neg =>
    refine ⟨fun _ => .inl hhandled, ?_⟩
    rintro - session
    apply answeredOnce_of_not_handled server session lrint127 task hhandled
  cases hstream : task.params.stream with
  | true =>
      refine ⟨fun _ => .inr (.inl rfl), ?_⟩
      rintro - session
      apply answeredOnce_of_stream server session lrint127 task hhandled hstream
  | false =>
      have hrun := fun session =>
        runFpgaCompletionTask_eq server session lrint127 task hhandled hstream
      simp only [hrun, hhandled, not_true_eq_false, Bool.false_eq_true, false_or]
      rcases scanLoop_cases server task.tokens (nextMedia_lt _ hhandled.2) with
        ⟨hscan, ⟨t, hone⟩, ids, embs, hok⟩ | ⟨hscan, hnone, msg, hok⟩ | ⟨hscan, e, herror⟩
      · have hscanned := answeredOnce_scanned_iff server lrint127 task hhandled hone ids embs
        simp only [hok, Fallible.run_bind_of_ok (Fallible.run_ofExcept _ _)]
        rw [hscanned]
        constructor
        · intro h
          refine ⟨hscan, ?_⟩
          rintro ⟨t', hone', hshape⟩
          apply h t' hone' hshape
        · rintro ⟨-, hsafe⟩ t' hone' hshape
          apply hsafe ⟨t', hone', hshape⟩
      · simp only [hok]
        refine ⟨fun _ => ⟨hscan, ?_⟩, ?_⟩
        · rintro ⟨t, hone, -⟩
          exact absurd ⟨t, hone⟩ hnone
        · rintro - session
          rw [Fallible.run_bind_of_ok (Fallible.run_ofExcept _ _)]
          apply answeredOnce_of_answers
          apply answers_sendError
      · simp only [herror]
        constructor
        · intro h
          have hanswer := h idleSession
          rw [Fallible.run_bind_of_error (Fallible.run_ofExcept _ _)] at hanswer
          exact absurd hanswer (not_answeredOnce_error task)
        · intro h
          exact absurd h.1 hscan

end Answers

/-! ### A quantised embedding tensor -/

/-- A server whose embedding tensor is quantised. -/
def quantisedServer : FpgaServer where
  fpgaEnabled := true
  hasSession := true
  hasMctx := true
  nEmbd := 960
  tokEmbd := some .q8_0
  nVocab := 49280
  eos := 2
  nPredictBase := -1
  scaledRow := fun _ => List.replicate 960 0
  tokenToPiece := fun _ => .ok ""
  commonDetokenize := fun _ => .ok ""

/-- A task of one word and an image. -/
def blackTask : ServerTask ℤ where
  id := 1
  index := 0
  params := { stream := false }
  tokens := blackTokens
  type := .completion

theorem not_answeredOnce_quantised :
  ¬ ∀ (server : FpgaServer) (session : FpgaSession) (task : ServerTask ℤ),
    AnsweredOnce task ((runFpgaCompletionTask id server session task).run {})
  := by
  intro h
  have hanswer := h quantisedServer idleSession blackTask
  have hhandled : Handled quantisedServer blackTask := ⟨by decide, rfl⟩
  have hrun : ¬ ∀ t ∈ textRun blackTokens 0, quantisedServer.Embeddable t := by
    intro hall
    have htensor : quantisedServer.tokEmbd ≠ some .f32 ∧ quantisedServer.tokEmbd ≠ some .f16 := by
      decide
    obtain ⟨-, h32 | h16, -⟩ := hall 7 (by decide)
    · apply htensor.1 h32
    · apply htensor.2 h16
  obtain ⟨e, he⟩ := scanLoop_of_not_embeddable quantisedServer blackTokens [] [] hrun
  rw [runFpgaCompletionTask_eq _ _ _ _ hhandled rfl,
    Fallible.run_bind_of_error (congrArg (fun x => (x, ({} : ServerLog))) he)] at hanswer
  apply not_answeredOnce_error blackTask hanswer

end Kv260
