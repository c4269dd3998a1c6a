import SmolVlm2Kv260.Host.Completion
import SmolVlm2Kv260.Host.FpgaCApi

/-!
# The answer to a completion task

With a session on the device, the final result of `run_fpga_completion_task` is a function of the
task and of the state of the device: the text is what the server makes of the logits of one row,
row 0 after the prefill of the first tile of the prompt, and of the rows that it becomes.
-/

set_option autoImplicit false

namespace Kv260

open Proc

/-! ### The answer as a function -/

/-- The text, the tokens, and whether the last token is the end, after at most `n` steps. -/
def generate (server : FpgaServer) (B : RunnerPorts) (offsets : List WeightOffsets) :
    ℕ → ActRow → String → List ℤ → Except String (String × List ℤ × Bool)
  | 0, _, text, tokens => .ok (text, tokens, false)
  | n + 1, row, text, tokens => do
      let next : ℤ := fpgaTop1I32 49280 (B.rowLogits offsets row)
      let piece ← server.tokenToPiece next
      if next = server.eos then .ok (text ++ piece, tokens ++ [next], true)
      else generate server B offsets n (B.stepRow offsets row) (text ++ piece) (tokens ++ [next])

namespace FpgaDevice

variable (d : FpgaDevice)

/-- The state after some patches have been handed over and encoded. -/
def encoded (patches : List ℤ) (s : DeviceState) : Except String DeviceState := do
  let b ← writeVisionPatchActivations (some (int8Bytes patches)) expectedPatches expectedHidden
    s.vitAct
  return { s.setVitAct b with vision := (s.setVitAct b).vision.encodeImage d.vision }

/-- The number of rows and the rows of a prompt, on a device with the tokens of an image. -/
def prompt (tokenIds embeddings : List ℤ) (s : DeviceState) : Except String (ℕ × FpgaBuffer) :=
  buildPrefillActivations d.maxSeq (int8Pointer embeddings) 960 tokenIds s.imageTokens
    s.runner.actPing

/-- Row 0 after the prefill of a prompt. -/
def rowOfPrompt (prompt : ℕ × FpgaBuffer) : ActRow :=
  d.ports.promptRow d.decoderLayers
    ((List.range (min prefillTokenTile prompt.1)).map prompt.2.deviceRow)

end FpgaDevice

section Answer

variable {F : Type} (lrint127 : F → ℤ) (server : FpgaServer) (d : FpgaDevice)

/-- The final result for a task whose prompt has been laid out. -/
def answerTo (task : ServerTask F) (rows : ℕ × FpgaBuffer) : Except String CmplFinal := do
  let (text, tokens, eos) ← generate server d.ports d.decoderLayers
    (nPredict task.params.nPredict server.nPredictBase) (d.rowOfPrompt rows) "" []
  let prompt ← detokenize server task.tokens
  return finalResult task prompt rows.1 text tokens eos

/-- The final result for a task on a device in state `s`. -/
def answer (task : ServerTask F) (s : DeviceState) : Except String CmplFinal := do
  match ← scanLoop server task.tokens 0 [] [] with
  | .rejected msg => .error msg
  | .scanned tokenIds embeddings =>
      let chunk ← task.tokens.findChunk (nextMedia task.tokens 0)
      let patches ← visionI8 lrint127 chunk
      let s ← d.encoded patches s
      let rows ← d.prompt tokenIds embeddings s
      answerTo server d task rows

end Answer

/-! ### Computations of the server on the device -/

/-- Nothing has been sent yet, and the calls so far have brought the device to a state in `Φ`. -/
def OnDevice (d : FpgaDevice) (s₀ : DeviceState) (Φ : DeviceState → Prop) (log : ServerLog) :
    Prop :=
  log.sent = [] ∧ ∃ s, d.replay log.calls s₀ = some s ∧ Φ s

/-- One error has been sent, and nothing else. -/
def SentError (log : ServerLog) : Prop :=
  ∃ id errType msg nPromptTokens nCtx, log.sent = [.error id errType msg nPromptTokens nCtx]

/-- Nothing has been sent when something is thrown. -/
def Unsent (_ : String) (log : ServerLog) : Prop := log.sent = []

section Device

variable {d : FpgaDevice} {s₀ : DeviceState} {Φ : DeviceState → Prop}

theorem onDevice_start (d : FpgaDevice) (s₀ : DeviceState) :
  OnDevice d s₀ (· = s₀) {}
  := ⟨rfl, s₀, rfl, rfl⟩

/-- A call, by what it does in every state in `Φ`. -/
theorem triple_call {c : FpgaCall} {p : FpgaReply → Prop} {Ψ : FpgaReply → DeviceState → Prop}
    {R : String → ServerLog → Prop}
    (h : ∀ s, Φ s → ∃ r s', d.call c s = some (r, s') ∧ p r ∧ Ψ r s') :
  Fallible.Triple (OnDevice d s₀ Φ) (ServerM.call (d.session s₀) c)
    (fun r log => p r ∧ OnDevice d s₀ (Ψ r) log) R
  := by
  rintro log ⟨hsent, s, hreplay, hs⟩
  obtain ⟨r, s', hcall, hr, hs'⟩ := h s hs
  rw [ServerM.run_call, FpgaDevice.session_append hreplay hcall]
  constructor
  · rintro _ _ ⟨⟩
    exact ⟨hr, hsent, s', FpgaDevice.replay_append hreplay hcall, hs'⟩
  · rintro _ _ ⟨⟩

theorem triple_sendError {α : Type} (id : ℤ) (msg : String) (type : ErrorType) (a : α) :
  Fallible.Triple (OnDevice d s₀ Φ) (do ServerM.sendError id msg type; return a)
    (fun a' log => a' = a ∧ SentError log) Unsent
  := by
  rintro log ⟨hsent, -⟩
  constructor
  · rintro _ _ ⟨⟩
    use rfl, id, type, msg, 0, 0
    simp only [hsent, List.nil_append]
  · rintro _ _ ⟨⟩

/-- A lookup that does not depend on the device. -/
theorem triple_ofExcept {α : Type} (x : Except String α) {R : String → ServerLog → Prop}
    (hR : ∀ e log, OnDevice d s₀ Φ log → R e log) :
  Fallible.Triple (OnDevice d s₀ Φ) (Fallible.ofExcept x)
    (fun a log => x = .ok a ∧ OnDevice d s₀ Φ log) R
  := by
  intro log hlog
  rw [Fallible.run_ofExcept]
  constructor
  · rintro a _ hrun
    obtain ⟨hx, rfl⟩ := Prod.mk.inj hrun
    exact ⟨hx, hlog⟩
  · rintro e _ hrun
    obtain ⟨-, rfl⟩ := Prod.mk.inj hrun
    apply hR e log hlog

end Device

/-! ### The decode loop -/

section Decode

variable (server : FpgaServer) (d : FpgaDevice) (s₀ : DeviceState) (id : ℤ)

theorem triple_decode (first : Bool) {curPos curKv : ℤ} (hpos : 0 ≤ curPos) (hkv : 0 ≤ curKv)
    (row : ActRow) :
  Fallible.Triple (OnDevice d s₀ (·.runner.rowZero = row))
    (ServerM.call (d.session s₀)
      (if first then .runDecodeTtft curPos curKv else .runDecodeWindow curPos curKv 1))
    (fun r log => r.rc = 0 ∧ OnDevice d s₀ (·.Decoded d.ports d.decoderLayers row) log) Unsent
  := by
  apply triple_call
  rintro s rfl
  have hcall := d.call_decode hpos hkv
    (c := if first then .runDecodeTtft curPos curKv else .runDecodeWindow curPos curKv 1)
    (by cases first <;> simp) s
  obtain ⟨s', hrun, hs'⟩ := hcall
  exact ⟨_, s', hrun, rfl, hs'⟩

theorem triple_readLogits (row : ActRow) :
  Fallible.Triple (OnDevice d s₀ (·.Decoded d.ports d.decoderLayers row))
    (ServerM.call (d.session s₀) (.readLogits 49280))
    (fun r log => (r.rc = 0 ∧ r.logits = d.ports.rowLogits d.decoderLayers row)
      ∧ OnDevice d s₀ (·.runner.rowZero = d.ports.stepRow d.decoderLayers row) log) Unsent
  := by
  apply triple_call
  intro s hs
  refine ⟨_, s, d.call_readLogits (Nat.le_refl _) s, ⟨rfl, ?_⟩, hs.rowZero⟩
  funext i
  dsimp only
  rw [hs.logits, RunnerPorts.rowLogits]

theorem triple_writeDecodeTokenActivation {pos : ℤ} (hpos : pos ≠ 0) (embedding : List ℤ)
    (stride : ℕ) (row : ActRow) :
  Fallible.Triple (OnDevice d s₀ (·.runner.rowZero = row))
    (ServerM.call (d.session s₀) (.writeDecodeTokenActivation pos embedding stride))
    (fun _ => OnDevice d s₀ (·.runner.rowZero = row)) Unsent
  := by
  apply Fallible.triple_post (triple_call (p := fun _ => True) _) fun _ _ h => h.2
  rintro s rfl
  obtain ⟨r, s', hrun, hs', -⟩ := d.call_writeDecodeTokenActivation hpos embedding stride s
  exact ⟨r, s', hrun, trivial, hs'⟩

/-- What the decode loop ends with, from a row and what there was before. -/
def LoopEnds (n : ℕ) (row : ActRow) (text : String) (tokens : List ℤ) : LoopEnd → ServerLog → Prop
  | .answered, log => SentError log
  | .finished text' tokens' eos, log => log.sent = []
      ∧ generate server d.ports d.decoderLayers n row text tokens = .ok (text', tokens', eos)

/-- The loop generates the text of the row that it starts from. -/
theorem triple_decodeLoop (n : ℕ) {first : Bool} {curPos curKv : ℤ} (hpos : 1 ≤ curPos)
    (hkv : 0 ≤ curKv) (row : ActRow) (text : String) (tokens : List ℤ) :
  Fallible.Triple (OnDevice d s₀ (·.runner.rowZero = row))
    (decodeLoop server (d.session s₀) id n first curPos curKv text tokens)
    (LoopEnds server d n row text tokens) Unsent
  := by
  induction n generalizing first curPos curKv row text tokens with
  | zero => exact Fallible.triple_pure fun log hlog => ⟨hlog.1, rfl⟩
  | succ n ih =>
      rw [decodeLoop]
      apply Fallible.triple_bind (triple_decode d s₀ first (by omega) hkv row)
      intro decoded
      apply Fallible.triple_fact
      intro hdecoded
      rw [if_neg (not_not.mpr hdecoded)]
      apply Fallible.triple_bind (triple_readLogits d s₀ row)
      intro logits
      apply Fallible.triple_fact
      rintro ⟨hlogits, hvalues⟩
      rw [if_neg (not_not.mpr hlogits), hvalues]
      dsimp only
      apply Fallible.triple_bind (triple_ofExcept _ fun _ _ hlog => hlog.1)
      intro piece
      apply Fallible.triple_fact
      intro hpiece
      have hgenerate : generate server d.ports d.decoderLayers (n + 1) row text tokens
          = if (fpgaTop1I32 49280 (d.ports.rowLogits d.decoderLayers row) : ℤ) = server.eos
            then .ok (text ++ piece,
              tokens ++ [(fpgaTop1I32 49280 (d.ports.rowLogits d.decoderLayers row) : ℤ)], true)
            else generate server d.ports d.decoderLayers n (d.ports.stepRow d.decoderLayers row)
              (text ++ piece)
              (tokens ++ [(fpgaTop1I32 49280 (d.ports.rowLogits d.decoderLayers row) : ℤ)]) := by
        rw [generate, hpiece]
        rfl
      split_ifs at hgenerate ⊢ with heos
      · exact Fallible.triple_pure fun log hlog => ⟨hlog.1, hgenerate⟩
      apply Fallible.triple_bind (triple_ofExcept _ fun _ _ hlog => hlog.1)
      intro nextEmb
      apply Fallible.triple_fact
      rintro -
      apply Fallible.triple_bind
        (triple_writeDecodeTokenActivation d s₀ (by omega : curPos ≠ 0) nextEmb 960 _)
      intro written
      split_ifs with hwritten
      · apply Fallible.triple_post (triple_sendError _ _ _ _)
        rintro _ log ⟨rfl, hlog⟩
        apply hlog
      · have hloop := @ih false (curPos + 1) (curKv + 1) (by omega) (by omega)
          (d.ports.stepRow d.decoderLayers row) (text ++ piece)
          (tokens ++ [(fpgaTop1I32 49280 (d.ports.rowLogits d.decoderLayers row) : ℤ)])
        apply Fallible.triple_post hloop
        rintro (_ | ⟨text', tokens', eos⟩) log hlog
        · exact hlog
        · exact ⟨hlog.1, hgenerate.trans hlog.2⟩

end Decode

/-! ### The prompt -/

/-- A prompt has the rows of an image at least. -/
theorem kImageTokens_le_of_buildPrefillActivations {maxSeq : ℕ}
    {tokenEmbeddings : Option (ℕ → BitVec 8)} {stride : ℕ} {tokenIds : List ℤ}
    {imageTokens actPing : FpgaBuffer} {rows : ℕ × FpgaBuffer}
    (h : buildPrefillActivations maxSeq tokenEmbeddings stride tokenIds imageTokens actPing
      = .ok rows) :
  kImageTokens ≤ rows.1
  := by
  have hreserve : ∀ {st st' : PrefillState}, reserveImageTokens maxSeq st = .ok st' →
      st'.outToken = st.outToken + kImageTokens := by
    intro st st' hst
    rw [reserveImageTokens] at hst
    split_ifs at hst
    obtain rfl := Except.ok.inj hst
    rfl
  rw [buildPrefillActivations] at h
  split_ifs at h
  obtain ⟨st, hloop, h⟩ := Except.bind_eq_ok_iff.mp h
  obtain ⟨st', hensure, hsend⟩ := Except.bind_eq_ok_iff.mp h
  have hsaw : st.sawImagePlaceholder = true → kImageTokens ≤ st.outToken := by
    apply Except.foldlM_invariant
      (fun st : PrefillState => st.sawImagePlaceholder = true → kImageTokens ≤ st.outToken)
      _ (fun hsaw => absurd hsaw Bool.false_ne_true) hloop
    intro st₁ tokenId _ st₂ hst₁ htoken
    rw [prefillToken] at htoken
    split_ifs at htoken
    · obtain ⟨st₃, hst₃, htoken⟩ := Except.bind_eq_ok_iff.mp htoken
      obtain rfl := Except.ok.inj htoken
      intro _
      dsimp only
      rw [hreserve hst₃]
      apply Nat.le_add_left
    · obtain rfl := Except.ok.inj htoken
      intro hsaw
      apply Nat.le_succ_of_le (hst₁ hsaw)
  have hrows : kImageTokens ≤ st'.outToken := by
    rw [ensureImage] at hensure
    split_ifs at hensure with hst
    · obtain rfl := Except.ok.inj hensure
      apply hsaw hst
    · obtain ⟨st₁, hst₁, hensure⟩ := Except.bind_eq_ok_iff.mp hensure
      split_ifs at hensure
      obtain rfl := Except.ok.inj hensure
      dsimp only
      rw [hreserve hst₁]
      omega
  rw [sendPrefill] at hsend
  split_ifs at hsend
  obtain rfl := Except.ok.inj hsend
  exact hrows

section Task

variable {F : Type} (lrint127 : F → ℤ) (server : FpgaServer) (d : FpgaDevice) (s₀ : DeviceState)
  (task : ServerTask F)

/-- One error is sent, or one final result, which is the value of `x`. -/
def Sends (x : Except String CmplFinal) (log : ServerLog) : Prop :=
  SentError log ∨ ∃ f, log.sent = [.cmplFinal f] ∧ x = .ok f

theorem triple_runDecode {rows : ℕ × FpgaBuffer} (hrows : 1 ≤ rows.1) :
  Fallible.Triple (OnDevice d s₀ (·.runner.rowZero = d.rowOfPrompt rows))
    (runDecode server (d.session s₀) task rows.1) (fun _ => Sends (answerTo server d task rows))
    Unsent
  := by
  rw [runDecode]
  apply Fallible.triple_bind (triple_decodeLoop server d s₀ task.id _ (by omega) (by omega) _ _ _)
  rintro (_ | ⟨text, tokens, eos⟩)
  · exact Fallible.triple_pure fun log hlog => .inl hlog
  · rintro log ⟨hsent, hgenerate⟩
    dsimp only
    rcases hprompt : detokenize server task.tokens with e | prompt
    · rw [Fallible.run_bind_of_error (Fallible.run_ofExcept _ _)]
      constructor
      · rintro _ _ ⟨⟩
      · rintro _ _ ⟨⟩
        exact hsent
    · rw [Fallible.run_bind_of_ok (Fallible.run_ofExcept _ _)]
      constructor
      · rintro _ _ ⟨⟩
        right
        refine ⟨finalResult task prompt rows.1 text tokens eos, ?_, ?_⟩
        · dsimp only
          rw [hsent, List.nil_append]
        · rw [answerTo, hgenerate]
          change (detokenize server task.tokens >>= _) = _
          rw [hprompt]
          rfl
      · rintro _ _ ⟨⟩

/-- An error is answered. -/
theorem triple_answerError {Φ : DeviceState → Prop} (msg : String) (type : ErrorType)
    (x : Except String CmplFinal) :
  Fallible.Triple (OnDevice d s₀ Φ) (do ServerM.sendError task.id msg type; return true)
    (fun _ => Sends x) Unsent
  := by
  apply Fallible.triple_post (triple_sendError task.id msg type true)
  intro _ log hlog
  exact .inl hlog.2

/-- The call that lays out the prompt. -/
theorem triple_buildPrefillActivationsI8 {tokenIds embeddings : List ℤ} {s : DeviceState}
    {rows : ℕ × FpgaBuffer} (h : d.prompt tokenIds embeddings s = .ok rows) :
  Fallible.Triple (OnDevice d s₀ (· = s))
    (ServerM.call (d.session s₀) (.buildPrefillActivationsI8 tokenIds embeddings 960))
    (fun r log => (r.rc = 0 ∧ r.seqLen = rows.1) ∧ OnDevice d s₀ (· = s.setActPing rows.2) log)
    Unsent
  := by
  rw [FpgaDevice.prompt] at h
  apply triple_call (Ψ := fun _ => (· = s.setActPing rows.2))
  rintro _ rfl
  rw [FpgaDevice.call, h]
  exact ⟨_, _, rfl, ⟨rfl, rfl⟩, rfl⟩

theorem triple_buildPrefillActivationsI8_error {tokenIds embeddings : List ℤ} {s : DeviceState}
    {e : String} (h : d.prompt tokenIds embeddings s = .error e) :
  Fallible.Triple (OnDevice d s₀ (· = s))
    (ServerM.call (d.session s₀) (.buildPrefillActivationsI8 tokenIds embeddings 960))
    (fun r log => r.rc ≠ 0 ∧ OnDevice d s₀ (fun _ => True) log) Unsent
  := by
  rw [FpgaDevice.prompt] at h
  apply triple_call (Ψ := fun _ _ => True)
  rintro _ rfl
  rw [FpgaDevice.call, h]
  exact ⟨_, _, rfl, (by decide : (-1 : ℤ) ≠ 0), trivial⟩

theorem triple_runPrefill {n : ℕ} (hn : 1 ≤ n) (s : DeviceState) (b : FpgaBuffer) :
  Fallible.Triple (OnDevice d s₀ (· = s.setActPing b))
    (ServerM.call (d.session s₀) (.runPrefill n))
    (fun r => OnDevice d s₀ (fun s' => r.rc = 0 → s'.runner.rowZero = d.rowOfPrompt (n, b))) Unsent
  := by
  apply Fallible.triple_post (triple_call (p := fun _ => True)
    (Ψ := fun r s' => r.rc = 0 → s'.runner.rowZero = d.rowOfPrompt (n, b)) _) fun _ _ h => h.2
  rintro _ rfl
  obtain ⟨r, s', hrun, hs'⟩ := d.call_runPrefill hn s b
  exact ⟨r, s', hrun, trivial, hs'⟩

/-- What happens from the encoding of the image on. -/
theorem triple_runEncoded (tokenIds embeddings : List ℤ) (s : DeviceState) :
  Fallible.Triple (OnDevice d s₀ (· = s))
    (runEncoded server (d.session s₀) task tokenIds embeddings)
    (fun _ => Sends (do
      let rows ← d.prompt tokenIds embeddings
        { s with vision := s.vision.encodeImage d.vision }
      answerTo server d task rows))
    Unsent
  := by
  obtain ⟨s₁, hs₁⟩ : ∃ s₁ : DeviceState, s₁ = { s with vision := s.vision.encodeImage d.vision } :=
    ⟨_, rfl⟩
  rw [← hs₁, runEncoded]
  apply Fallible.triple_bind (triple_call (p := (·.rc = 0)) (Ψ := fun _ => (· = s₁)) _)
  · intro encoded
    apply Fallible.triple_fact
    intro hencoded
    rw [if_neg (not_not.mpr hencoded)]
    rcases hprompt : d.prompt tokenIds embeddings s₁ with e | rows
    · apply Fallible.triple_bind (triple_buildPrefillActivationsI8_error d s₀ hprompt)
      intro built
      apply Fallible.triple_fact
      intro hbuilt
      rw [if_pos hbuilt]
      apply triple_answerError
    · apply Fallible.triple_bind (triple_buildPrefillActivationsI8 d s₀ hprompt)
      intro built
      apply Fallible.triple_fact
      rintro ⟨hbuilt, hseqLen⟩
      have hrows : 1 ≤ rows.1 :=
        (by decide : 1 ≤ kImageTokens).trans (kImageTokens_le_of_buildPrefillActivations hprompt)
      rw [if_neg (not_not.mpr hbuilt), hseqLen]
      apply Fallible.triple_bind (triple_runPrefill d s₀ hrows s₁ rows.2)
      intro prefilled
      split_ifs with hprefilled
      · apply triple_answerError
      · apply Fallible.triple_pre (triple_runDecode server d s₀ task hrows)
        rintro log ⟨hsent, s', hreplay, hs'⟩
        exact ⟨hsent, s', hreplay, hs' (not_not.mp hprefilled)⟩
  · rintro _ rfl
    exact ⟨_, _, rfl, rfl, hs₁.symm⟩

/-! ### The image -/

/-- The image of a request with one image is handed over once. -/
theorem fpgaWriteFirstImageChunk_eq (session : FpgaSession) {st : ServerTokens F}
    {t : ImageTokens F} (hone : OneImage st t) (hmedia : nextMedia st 0 < st.tokens.length) :
  fpgaWriteFirstImageChunk lrint127 session st = (do
    let patches ← Fallible.ofExcept (visionI8 lrint127 (.image t))
    let reply ← ServerM.call session
      (.writeVisionPatchesI8 patches expectedPatches expectedHidden)
    if reply.rc ≠ 0 then return (false, reply.err) else return (true, ""))
  := by
  obtain ⟨hfind, -, hend⟩ := hone
  have hrest : writeImageLoop lrint127 session st (nextMedia st 0 + t.nPos) true
      = return (true, "") := by
    rw [writeImageLoop_nextMedia, writeImageLoop, dif_neg (Nat.not_lt.mpr hend)]
    rfl
  rw [fpgaWriteFirstImageChunk, writeImageLoop_nextMedia, writeImageLoop, dif_pos hmedia,
    if_neg (not_not.mpr (getElem_nextMedia st 0 hmedia)), dif_neg Bool.false_ne_true, hfind,
    ← hrest]
  rfl

/-- The patches of an image are on the device. -/
def PatchesWritten (t : ImageTokens F) (s s' : DeviceState) : Prop :=
  ∃ patches b, visionI8 lrint127 (.image t) = .ok patches
    ∧ writeVisionPatchActivations (some (int8Bytes patches)) expectedPatches expectedHidden
      s.vitAct = .ok b
    ∧ s' = s.setVitAct b

theorem triple_fpgaWriteFirstImageChunk {t : ImageTokens F} (hone : OneImage task.tokens t)
    (hmedia : nextMedia task.tokens 0 < task.tokens.tokens.length) (s : DeviceState) :
  Fallible.Triple (OnDevice d s₀ (· = s))
    (fpgaWriteFirstImageChunk lrint127 (d.session s₀) task.tokens)
    (fun written => OnDevice d s₀ fun s' => written.1 = true → PatchesWritten lrint127 t s s')
    (fun _ => OnDevice d s₀ fun _ => True)
  := by
  rw [fpgaWriteFirstImageChunk_eq lrint127 _ hone hmedia]
  apply Fallible.triple_bind (triple_ofExcept _ _)
  · intro patches
    apply Fallible.triple_fact
    intro hvision
    apply Fallible.triple_bind (triple_call (p := fun _ => True) (Ψ := fun r s' => r.rc = 0 →
      ∃ b, writeVisionPatchActivations (some (int8Bytes patches)) expectedPatches
          expectedHidden s.vitAct = .ok b
        ∧ s' = s.setVitAct b) _)
    · intro reply
      split_ifs with hreply
      · apply Fallible.triple_pure
        rintro log ⟨-, hsent, s', hreplay, -⟩
        exact ⟨hsent, s', hreplay, fun h => absurd h Bool.false_ne_true⟩
      · apply Fallible.triple_pure
        rintro log ⟨-, hsent, s', hreplay, hs'⟩
        refine ⟨hsent, s', hreplay, ?_⟩
        rintro -
        obtain ⟨b, hb⟩ := hs' (not_not.mp hreply)
        exact ⟨patches, b, hvision, hb⟩
    · rintro s rfl
      obtain ⟨r, s', hcall, hs'⟩ :=
        d.call_writeVisionPatchesI8 patches expectedPatches expectedHidden s
      exact ⟨r, s', hcall, trivial, hs'⟩
  · rintro e log ⟨hsent, s', hreplay, -⟩
    exact ⟨hsent, s', hreplay, trivial⟩

/-- The image is handed over, or there is an error to be sent. -/
theorem triple_writeImage {t : ImageTokens F} (hone : OneImage task.tokens t)
    (hmedia : nextMedia task.tokens 0 < task.tokens.tokens.length) (s : DeviceState) :
  Fallible.Triple (OnDevice d s₀ (· = s)) (writeImage lrint127 (d.session s₀) task.tokens)
    (fun msg => OnDevice d s₀ fun s' => msg = none → PatchesWritten lrint127 t s s')
    Unsent
  := by
  rw [writeImage]
  apply Fallible.triple_tryCatch (T := fun _ => OnDevice d s₀ fun _ => True)
  · apply Fallible.triple_bind
      (triple_fpgaWriteFirstImageChunk lrint127 d s₀ task hone hmedia s)
    intro written
    split_ifs with hwritten
    · apply Fallible.triple_pure
      rintro log ⟨hsent, s', hreplay, hs'⟩
      exact ⟨hsent, s', hreplay, fun _ => hs' hwritten⟩
    · apply Fallible.triple_pure
      rintro log ⟨hsent, s', hreplay, -⟩
      exact ⟨hsent, s', hreplay, fun h => absurd h (Option.some_ne_none _)⟩
  · intro e
    apply Fallible.triple_pure
    rintro log ⟨hsent, s', hreplay, -⟩
    exact ⟨hsent, s', hreplay, fun h => absurd h (Option.some_ne_none _)⟩

/-! ### The whole task -/

theorem triple_runScanned {t : ImageTokens F} (hone : OneImage task.tokens t)
    (hmedia : nextMedia task.tokens 0 < task.tokens.tokens.length) {tokenIds embeddings : List ℤ}
    (hscan : scanLoop server task.tokens 0 [] [] = .ok (.scanned tokenIds embeddings))
    (s : DeviceState) :
  Fallible.Triple (OnDevice d s₀ (· = s))
    (runScanned lrint127 server (d.session s₀) task tokenIds embeddings)
    (fun _ => Sends (answer lrint127 server d task s)) Unsent
  := by
  rw [runScanned]
  apply Fallible.triple_bind (triple_writeImage lrint127 d s₀ task hone hmedia s)
  rintro (_ | msg)
  · rintro log ⟨hsent, s', hreplay, hs'⟩
    obtain ⟨patches, b, hvision, hwrite, rfl⟩ := hs' rfl
    have hencoded : d.encoded patches s = .ok { s.setVitAct b with
        vision := (s.setVitAct b).vision.encodeImage d.vision } := by
      rw [FpgaDevice.encoded, hwrite]
      rfl
    have hanswer : ∀ f, (do
        let rows ← d.prompt tokenIds embeddings { s.setVitAct b with
          vision := (s.setVitAct b).vision.encodeImage d.vision }
        answerTo server d task rows) = .ok f → answer lrint127 server d task s = .ok f := by
      intro f hf
      apply Except.bind_eq_ok_iff.mpr
      refine ⟨.scanned tokenIds embeddings, hscan, ?_⟩
      apply Except.bind_eq_ok_iff.mpr
      refine ⟨.image t, hone.1, ?_⟩
      apply Except.bind_eq_ok_iff.mpr
      refine ⟨patches, hvision, ?_⟩
      apply Except.bind_eq_ok_iff.mpr
      exact ⟨_, hencoded, hf⟩
    have hrun := triple_runEncoded server d s₀ task tokenIds embeddings (s.setVitAct b)
    apply Fallible.triple_post hrun _ log ⟨hsent, _, hreplay, rfl⟩
    rintro _ log (herror | ⟨f, hf, hx⟩)
    · exact .inl herror
    · exact .inr ⟨f, hf, hanswer f hx⟩
  · apply triple_answerError

/-- A task that is not handled is left alone. -/
theorem run_of_not_handled (session : FpgaSession) (h : ¬ Handled server task) (log : ServerLog) :
  (runFpgaCompletionTask lrint127 server session task).run log = (.ok false, log)
  := by
  rw [runFpgaCompletionTask]
  by_cases hready : server.fpgaEnabled ∧ server.hasSession ∧ server.hasMctx
      ∧ task.type = .completion
  · rw [if_neg (not_not.mpr hready), if_pos fun hmedia => h ⟨hready, hmedia⟩]
    rfl
  · rw [if_pos hready]
    rfl

/-- A task is left alone, or answered with an error or with the final result. -/
theorem triple_runFpgaCompletionTask :
  Fallible.Triple (OnDevice d s₀ (· = s₀))
    (runFpgaCompletionTask lrint127 server (d.session s₀) task)
    (fun _ log => log.sent = [] ∨ Sends (answer lrint127 server d task s₀) log) Unsent
  := by
  by_cases hhandled : Handled server task
  case neg =>
    intro log hlog
    have hrun := run_of_not_handled lrint127 server task (d.session s₀) hhandled log
    rw [hrun]
    constructor
    · rintro _ _ ⟨⟩
      exact .inl hlog.1
    · rintro _ _ ⟨⟩
  cases hstream : task.params.stream with
  | true =>
      rw [runFpgaCompletionTask, if_neg (not_not.mpr hhandled.1),
        if_neg (not_not.mpr hhandled.2), if_pos hstream]
      apply Fallible.triple_post (triple_answerError d s₀ task _ _ _)
      exact fun _ _ h => .inr h
  | false =>
  rw [runFpgaCompletionTask_eq server _ lrint127 task hhandled hstream]
  have hlt := nextMedia_lt task.tokens hhandled.2
  rcases hscan : scanLoop server task.tokens 0 [] [] with e | ⟨msg⟩ | ⟨ids, embs⟩
  · apply Fallible.triple_bind (triple_ofExcept _ fun _ _ hlog => hlog.1)
    intro scan
    apply Fallible.triple_fact
    rintro ⟨⟩
  · apply Fallible.triple_bind (triple_ofExcept _ fun _ _ hlog => hlog.1)
    intro scan
    apply Fallible.triple_fact
    rintro ⟨⟩
    apply Fallible.triple_post (triple_answerError d s₀ task _ _ _)
    exact fun _ _ h => .inr h
  · have hone : ∃ t, OneImage task.tokens t := by
      rcases scanLoop_cases server task.tokens hlt with
        ⟨-, hone, -⟩ | ⟨-, -, msg, hrejected⟩ | ⟨-, e, herror⟩
      · exact hone
      · cases hscan.symm.trans hrejected
      · cases hscan.symm.trans herror
    obtain ⟨t, hone⟩ := hone
    apply Fallible.triple_bind (triple_ofExcept _ fun _ _ hlog => hlog.1)
    intro scan
    apply Fallible.triple_fact
    rintro ⟨⟩
    apply Fallible.triple_post (triple_runScanned lrint127 server d s₀ task hone hlt hscan s₀)
    exact fun _ _ h => .inr h

/-- The log of a task, when nothing was called and sent before. -/
def taskLog : ServerLog :=
  ((runFpgaCompletionTask lrint127 server (d.session s₀) task).run {}).2

/-- For every server, device and task, nothing is sent, or one error, or one final result, which
is the answer to the task.  The arrays on the chip hold the rows of prompts of at most `MAX_L`
tokens, and positions below `MAX_SEQ`; the source does not define what it reads beyond them. -/
theorem runFpgaCompletionTask_answer :
  (taskLog lrint127 server d s₀ task).sent = [] ∨ SentError (taskLog lrint127 server d s₀ task)
    ∨ ∃ f, (taskLog lrint127 server d s₀ task).sent = [.cmplFinal f]
      ∧ answer lrint127 server d task s₀ = .ok f
  := by
  obtain ⟨hok, herror⟩ :=
    triple_runFpgaCompletionTask lrint127 server d s₀ task {} (onDevice_start d s₀)
  rw [taskLog]
  rcases hrun : (runFpgaCompletionTask lrint127 server (d.session s₀) task).run {} with
    ⟨e | a, log⟩
  · exact .inl (herror e log hrun)
  · exact hok a log hrun

end Task

end Kv260
