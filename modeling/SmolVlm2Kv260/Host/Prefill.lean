import Mathlib.Data.BitVec
import Mathlib.Data.List.GetD
import SmolVlm2Kv260.Host.Artifacts
import SmolVlm2Kv260.Kernel.Bridge

/-!
# The activations of a prompt

`build_prefill_activations` lays out the rows of a prompt in `act_ping_`: the host copies the
embeddings of the text tokens and leaves 64 rows for an image, which the bridge kernel fills
afterwards.  A prompt without an image token gets an image before its text.
-/

set_option autoImplicit false

namespace Kv260

abbrev kImageTokenId : ℤ := 49190

/-- `memset` of the mapping. -/
def FpgaBuffer.memset (b : FpgaBuffer) (value : BitVec 8) (size : ℕ) : FpgaBuffer :=
  b.memcpy 0 (fun _ => value) size

/-! ### The loops of the host -/

/-- The variables of `build_prefill_activations`.  The counters stay below `max_seq_`, which
is at most 2048. -/
structure PrefillState where
  act : FpgaBuffer
  outToken : ℕ := 0
  tokenIndex : ℕ := 0
  sawImagePlaceholder : Bool := false
  imageDstToken : ℕ := 0

section Host

variable (maxSeq : ℕ) (tokenEmbeddings : Option (ℕ → BitVec 8)) (embeddingStride : ℕ)

/-- `reserve_image_tokens`. -/
def reserveImageTokens (st : PrefillState) : Except String PrefillState :=
  if maxSeq < st.outToken + kImageTokens then
    .error "prefill image tokens exceed allocated max_seq"
  else
    .ok { st with imageDstToken := st.outToken, outToken := st.outToken + kImageTokens }

/-- An embedding, if there are any, is copied to a row. -/
def copyEmbedding (index row : ℕ) (act : FpgaBuffer) : FpgaBuffer :=
  match tokenEmbeddings with
  | none => act
  | some e => act.memcpy (row * kLlmHidden) (fun i => e (index * embeddingStride + i)) kLlmHidden

/-- An iteration of the loop over the tokens. -/
def prefillToken (st : PrefillState) (tokenId : ℤ) : Except String PrefillState :=
  if tokenId = kImageTokenId then do
    let st ← reserveImageTokens maxSeq st
    pure { st with sawImagePlaceholder := true }
  else if maxSeq ≤ st.outToken then
    .error "prefill text tokens exceed allocated max_seq"
  else
    .ok { st with
      act := copyEmbedding tokenEmbeddings embeddingStride st.tokenIndex st.outToken st.act
      outToken := st.outToken + 1
      tokenIndex := st.tokenIndex + 1 }

/-- What is done when there was no image token. -/
def prependImageTokens (tokenIds : List ℤ) (st : PrefillState) : Except String PrefillState := do
  let st ← reserveImageTokens maxSeq { st with outToken := 0 }
  if maxSeq < st.outToken + tokenIds.length then
    .error "prefill tokens exceed allocated max_seq after prepending image tokens"
  else
    .ok { st with
      act := (List.range tokenIds.length).foldl (fun act i =>
        copyEmbedding tokenEmbeddings embeddingStride i (st.outToken + i) act) st.act
      outToken := st.outToken + tokenIds.length }

/-- `run_image_bridge`. -/
def runImageBridge (imageTokens act : FpgaBuffer) (dstTokenOffset numImageTokens : ℕ) :
    FpgaBuffer :=
  { act with device :=
      imageToDecoderBridge imageTokens.device act.device dstTokenOffset numImageTokens kLlmHidden }

/-- An image is prepended unless there was an image token. -/
def ensureImage (tokenIds : List ℤ) (st : PrefillState) : Except String PrefillState :=
  if st.sawImagePlaceholder then .ok st
  else prependImageTokens maxSeq tokenEmbeddings embeddingStride tokenIds st

/-- The rows are sent to the device, and the bridge runs. -/
def sendPrefill (imageTokens : FpgaBuffer) (st : PrefillState) :
    Except String (ℕ × FpgaBuffer) :=
  if maxSeq < st.outToken then
    .error ("prefill token count exceeds hardware cap: model_max_seq=8192 hw_max_seq="
      ++ toString maxSeq)
  else
    .ok (st.outToken, runImageBridge imageTokens
      (st.act.syncToDevice (allocBytes maxSeq .actPing) 0) st.imageDstToken kImageTokens)

/-- `build_prefill_activations`: the number of rows, and `act_ping_`. -/
def buildPrefillActivations (tokenIds : List ℤ) (imageTokens actPing : FpgaBuffer) :
    Except String (ℕ × FpgaBuffer) :=
  if tokenEmbeddings.isSome ∧ embeddingStride < kLlmHidden then
    .error "token embedding stride is smaller than hidden size"
  else do
    let st ← tokenIds.foldlM (prefillToken maxSeq tokenEmbeddings embeddingStride)
      { act := actPing.memset 0 (allocBytes maxSeq .actPing) }
    let st ← ensureImage maxSeq tokenEmbeddings embeddingStride tokenIds st
    sendPrefill maxSeq imageTokens st

end Host

/-! ### The layout of the rows -/

/-- A row of activations. -/
abbrev ActRow : Type := Fin C → BitVec 8

/-- Row `t` of the mapping of a buffer. -/
def FpgaBuffer.hostRow (b : FpgaBuffer) (t : ℕ) : ActRow := fun c => b.host (t * C + c)

/-- Row `t` of the memory that the kernels read. -/
def FpgaBuffer.deviceRow (b : FpgaBuffer) (t : ℕ) : ActRow := fun c => b.device (t * C + c)

/-- The rows of an image, as the bridge stores them. -/
def imageRows (imageTokens : FpgaBuffer) : List ActRow :=
  (List.range kImageTokens).map fun t c => requantImage imageTokens.device t c

/-- Row `k` of an array of embeddings. -/
def embeddingRow (e : ℕ → BitVec 8) (stride k : ℕ) : ActRow := fun c => e (k * stride + c)

/-- The rows of a token. -/
def tokenRows (tokenId : ℤ) : ℕ := if tokenId = kImageTokenId then kImageTokens else 1

/-- The rows of a list of tokens, without those of an image before them. -/
def spanRows (tokenIds : List ℤ) : ℕ := (tokenIds.map tokenRows).sum

/-- The rows of a prompt. -/
def decoderRows (tokenIds : List ℤ) : ℕ :=
  if kImageTokenId ∈ tokenIds then spanRows tokenIds else kImageTokens + tokenIds.length

section Layout

variable {α : Type}

/-- The rows `image` for each image token, and the next row of `emb`, from row `k` on, for
each other one. -/
def layoutFrom (image : List α) (emb : ℕ → α) : ℕ → List ℤ → List α
  | _, [] => []
  | k, tokenId :: rest =>
      if tokenId = kImageTokenId then image ++ layoutFrom image emb k rest
      else emb k :: layoutFrom image emb (k + 1) rest

/-- The rows of a prompt; an image comes first when it has no image token. -/
def prefillLayout (image : List α) (emb : ℕ → α) (tokenIds : List ℤ) : List α :=
  if kImageTokenId ∈ tokenIds then layoutFrom image emb 0 tokenIds
  else image ++ (List.range tokenIds.length).map emb

end Layout

/-- `build_prefill_activations` raises an error when the rows of the prompt exceed `max_seq_`,
and lays them out otherwise. -/
def LaysOutPrefill (maxSeq : ℕ) (tokenIds : List ℤ) (e : ℕ → BitVec 8) (stride : ℕ)
    (imageTokens actPing : FpgaBuffer) : Prop :=
  ((∃ msg, buildPrefillActivations maxSeq (some e) stride tokenIds imageTokens actPing
      = .error msg) ↔ maxSeq < decoderRows tokenIds)
    ∧ ∀ n act, buildPrefillActivations maxSeq (some e) stride tokenIds imageTokens actPing
        = .ok (n, act) →
      n = decoderRows tokenIds
        ∧ (List.range n).map act.deviceRow
          = prefillLayout (imageRows imageTokens) (embeddingRow e stride) tokenIds

/-! ### Lists of rows -/

section Layout

variable {α : Type} {image : List α} {emb : ℕ → α}

theorem spanRows_append (p q : List ℤ) :
  spanRows (p ++ q) = spanRows p + spanRows q
  := by rw [spanRows, List.map_append, List.sum_append, ← spanRows, ← spanRows]

theorem spanRows_cons (tokenId : ℤ) (rest : List ℤ) :
  spanRows (tokenId :: rest) = tokenRows tokenId + spanRows rest
  := by rw [spanRows, List.map_cons, List.sum_cons, ← spanRows]

/-- A list without image tokens has a row for each token. -/
theorem spanRows_of_notMem {p : List ℤ} (h : kImageTokenId ∉ p) :
  spanRows p = p.length
  := by
  induction p with
  | nil => rfl
  | cons tokenId rest ih =>
      obtain ⟨hne, hrest⟩ := List.ne_and_not_mem_of_not_mem_cons h
      rw [spanRows_cons, ih hrest, tokenRows, if_neg (Ne.symm hne), List.length_cons, Nat.add_comm]

theorem length_layoutFrom (himage : image.length = kImageTokens) (k : ℕ) (p : List ℤ) :
  (layoutFrom image emb k p).length = spanRows p
  := by
  induction p generalizing k with
  | nil => rfl
  | cons tokenId rest ih =>
      rw [layoutFrom, spanRows_cons, tokenRows]
      split
      · rw [List.length_append, himage, ih]
      · rw [List.length_cons, ih, Nat.add_comm]

/-- The next row of the embeddings after a list. -/
def textRows (p : List ℤ) : ℕ := (p.filter (· ≠ kImageTokenId)).length

theorem layoutFrom_append (k : ℕ) (p q : List ℤ) :
  layoutFrom image emb k (p ++ q)
    = layoutFrom image emb k p ++ layoutFrom image emb (k + textRows p) q
  := by
  induction p generalizing k with
  | nil => rfl
  | cons tokenId rest ih =>
      rw [List.cons_append, layoutFrom, layoutFrom, textRows]
      split
      · rw [List.filter_cons_of_neg (by simpa), ih, List.append_assoc, textRows]
      · rw [List.filter_cons_of_pos (by simpa), ih, List.cons_append, List.length_cons, textRows,
          Nat.add_right_comm, Nat.add_assoc k]

/-- A list without image tokens is laid out as its embeddings. -/
theorem layoutFrom_of_notMem {p : List ℤ} (h : kImageTokenId ∉ p) (k : ℕ) :
  layoutFrom image emb k p = (List.range p.length).map fun i => emb (k + i)
  := by
  induction p generalizing k with
  | nil => rfl
  | cons tokenId rest ih =>
      obtain ⟨hne, hrest⟩ := List.ne_and_not_mem_of_not_mem_cons h
      rw [layoutFrom, if_neg (Ne.symm hne), ih hrest, List.length_cons, List.range_succ_eq_map,
        List.map_cons, List.map_map, Nat.add_zero]
      congr 1
      apply List.map_congr_left
      intro i _
      rw [Function.comp_apply, Nat.succ_eq_add_one, Nat.add_assoc, Nat.add_comm 1]

/-- Two images make the same layout exactly when they are equal, or there is none. -/
theorem layoutFrom_eq_iff {image' : List α} (hlen : image.length = image'.length) (k : ℕ)
    (p : List ℤ) :
  layoutFrom image emb k p = layoutFrom image' emb k p ↔ kImageTokenId ∉ p ∨ image = image'
  := by
  induction p generalizing k with
  | nil => simp only [layoutFrom, List.not_mem_nil, not_false_eq_true, true_or]
  | cons tokenId rest ih =>
      rw [layoutFrom, layoutFrom]
      rcases eq_or_ne tokenId kImageTokenId with htoken | htoken
      · rw [if_pos htoken, if_pos htoken]
        constructor
        · intro h
          exact .inr (List.append_inj_left h hlen)
        · rintro (hmem | rfl)
          · exact absurd (htoken ▸ List.mem_cons_self) hmem
          · rfl
      · rw [if_neg htoken, if_neg htoken, List.cons_inj_right, ih, List.mem_cons, not_or,
          and_iff_right htoken.symm]

end Layout

/-- Rows of the default value are not noticed at the end of a list. -/
theorem getD_append_replicate {α : Type} (l : List α) (n t : ℕ) (a : α) :
  (l ++ List.replicate n a).getD t a = l.getD t a
  := by
  rcases Nat.lt_or_ge t l.length with hlt | hge
  · rw [List.getD_append _ _ _ _ hlt]
  · rw [List.getD_append_right _ _ _ _ hge, List.getD_eq_default l _ hge]
    rcases Nat.lt_or_ge (t - l.length) n with hlt | hge
    · rw [List.getD_replicate _ hlt]
    · rw [List.getD_eq_default _ _ (by rwa [List.length_replicate])]

/-- Rows that are those of a list. -/
theorem map_range_eq {α : Type} {f : ℕ → α} {l : List α} (a : α)
    (h : ∀ t < l.length, f t = l.getD t a) :
  (List.range l.length).map f = l
  := by
  have hrows : (List.range l.length).map f = (List.range l.length).map fun t => l.getD t a := by
    apply List.map_congr_left
    intro t ht
    apply h t (List.mem_range.mp ht)
  rw [hrows, Blocks.map_range_getD rfl]

/-- Rows that begin as a list does. -/
theorem map_range_append_of {α : Type} {f : ℕ → α} {l : List α} (a : α)
    (h : ∀ t < l.length, f t = l.getD t a) (n : ℕ) :
  (List.range (l.length + n)).map f = l ++ (List.range n).map fun t => f (l.length + t)
  := by
  rw [List.range_add, List.map_append, map_range_eq a h, List.map_map]
  rfl

/-! ### Rows of the buffer -/

/-- The bytes of a row that was allocated. -/
theorem index_mem_allocBytes {maxSeq t : ℕ} (ht : t < maxSeq) (c : Fin C) :
  0 ≤ t * C + c.val ∧ t * C + c.val < 0 + allocBytes maxSeq .actPing
  := by
  have hc : c.val < 960 := c.isLt
  change 0 ≤ t * 960 + c.val ∧ t * 960 + c.val < 0 + maxSeq * 960
  omega

section Rows

variable (b : FpgaBuffer) (t : ℕ)

/-- The buffer is cleared up to the last row that was allocated. -/
theorem hostRow_memset {maxSeq : ℕ} (ht : t < maxSeq) :
  (b.memset 0 (allocBytes maxSeq .actPing)).hostRow t = 0
  := by
  funext c
  simp only [FpgaBuffer.hostRow, FpgaBuffer.memset, FpgaBuffer.memcpy,
    if_pos (index_mem_allocBytes ht c)]
  rfl

theorem hostRow_copyEmbedding (e : ℕ → BitVec 8) (stride index row : ℕ) :
  (copyEmbedding (some e) stride index row b).hostRow t
    = if t = row then embeddingRow e stride index else b.hostRow t
  := by
  funext c
  have hc : c.val < 960 := c.isLt
  simp only [copyEmbedding, FpgaBuffer.hostRow, FpgaBuffer.memcpy]
  rcases eq_or_ne t row with rfl | hne
  · have hin : t * kLlmHidden ≤ t * C + c.val ∧ t * C + c.val < t * kLlmHidden + kLlmHidden := by
      change t * 960 ≤ t * 960 + c.val ∧ t * 960 + c.val < t * 960 + 960
      omega
    rw [if_pos hin, if_pos rfl, embeddingRow, Nat.add_sub_cancel_left]
  · have hout : ¬ (row * kLlmHidden ≤ t * C + c.val
        ∧ t * C + c.val < row * kLlmHidden + kLlmHidden) := by
      change ¬ (row * 960 ≤ t * 960 + c.val ∧ t * 960 + c.val < row * 960 + 960)
      omega
    rw [if_neg hout, if_neg hne]
    rfl

/-- A loop that copies the first embeddings to successive rows. -/
theorem hostRow_foldl_copyEmbedding (e : ℕ → BitVec 8) (stride base n : ℕ) :
  ((List.range n).foldl (fun act i => copyEmbedding (some e) stride i (base + i) act) b).hostRow t
    = if base ≤ t ∧ t < base + n then embeddingRow e stride (t - base) else b.hostRow t
  := by
  have hrow : ∀ (act : FpgaBuffer) (i : ℕ),
      (copyEmbedding (some e) stride i (base + i) act).hostRow t
        = if (t : ℤ) = base + i then embeddingRow e stride i else act.hostRow t :=
    fun act i => (hostRow_copyEmbedding act t e stride i (base + i)).trans
      (if_congr (by omega) rfl rfl)
  have hrows := Blocks.foldl_range_write (r := fun act => act.hostRow t) hrow b n
  have hin : ((base : ℤ) ≤ t ∧ (t : ℤ) < base + n) ↔ (base ≤ t ∧ t < base + n) := by omega
  have hplace : ((t : ℤ) - base).toNat = t - base := by omega
  rw [hrows, hplace]
  exact if_congr hin rfl rfl

theorem deviceRow_syncToDevice {maxSeq : ℕ} (ht : t < maxSeq) :
  (b.syncToDevice (allocBytes maxSeq .actPing) 0).deviceRow t = b.hostRow t
  := by
  funext c
  simp only [FpgaBuffer.deviceRow, FpgaBuffer.syncToDevice, if_pos (index_mem_allocBytes ht c),
    FpgaBuffer.hostRow]

/-- The bridge writes the rows of the image. -/
theorem deviceRow_runImageBridge (imageTokens : FpgaBuffer) (dst : ℕ) :
  (runImageBridge imageTokens b dst kImageTokens).deviceRow t
    = if dst ≤ t ∧ t < dst + kImageTokens then (imageRows imageTokens).getD (t - dst) 0
      else b.deviceRow t
  := by
  funext c
  simp only [runImageBridge, FpgaBuffer.deviceRow]
  have hpos : 0 < kImageTokens := by decide
  rw [imageToDecoderBridge_row imageTokens.device b.device hpos t c.isLt]
  split
  · next hin =>
      have hlt : t - dst < kImageTokens := by omega
      rw [imageRows, List.getD_eq_getElem?_getD, List.getElem?_map, List.getElem?_range hlt]
      rfl
  · rfl

end Rows

/-! ### The loop over the tokens -/

section Loop

variable (maxSeq : ℕ) (e : ℕ → BitVec 8) (stride : ℕ)

/-- What an iteration does when its rows fit. -/
def advance (st : PrefillState) (tokenId : ℤ) : PrefillState :=
  if tokenId = kImageTokenId then
    { st with
      imageDstToken := st.outToken
      outToken := st.outToken + kImageTokens
      sawImagePlaceholder := true }
  else
    { st with
      act := copyEmbedding (some e) stride st.tokenIndex st.outToken st.act
      outToken := st.outToken + 1
      tokenIndex := st.tokenIndex + 1 }

theorem outToken_advance (st : PrefillState) (tokenId : ℤ) :
  (advance e stride st tokenId).outToken = st.outToken + tokenRows tokenId
  := by
  rw [advance, tokenRows]
  split <;> rfl

theorem prefillToken_eq {st : PrefillState} {tokenId : ℤ}
    (h : st.outToken + tokenRows tokenId ≤ maxSeq) :
  prefillToken maxSeq (some e) stride st tokenId = .ok (advance e stride st tokenId)
  := by
  rw [tokenRows] at h
  rw [prefillToken, advance]
  split
  · next htoken =>
      rw [if_pos htoken] at h
      rw [reserveImageTokens, if_neg (Nat.not_lt.mpr h)]
      rfl
  · next htoken =>
      rw [if_neg htoken] at h
      rw [if_neg (Nat.not_le.mpr h)]

theorem prefillToken_error {st : PrefillState} {tokenId : ℤ}
    (h : maxSeq < st.outToken + tokenRows tokenId) :
  ∃ msg, prefillToken maxSeq (some e) stride st tokenId = .error msg
  := by
  rw [tokenRows] at h
  rw [prefillToken]
  split
  · next htoken =>
      rw [if_pos htoken] at h
      rw [reserveImageTokens, if_pos h]
      exact ⟨_, rfl⟩
  · next htoken =>
      rw [if_neg htoken] at h
      rw [if_pos (Nat.le_of_lt_succ h)]
      exact ⟨_, rfl⟩

/-- The loop completes when all rows fit. -/
theorem foldlM_prefillToken {st : PrefillState} {tokenIds : List ℤ}
    (h : st.outToken + spanRows tokenIds ≤ maxSeq) :
  tokenIds.foldlM (prefillToken maxSeq (some e) stride) st
    = .ok (tokenIds.foldl (advance e stride) st)
  := by
  induction tokenIds generalizing st with
  | nil => rfl
  | cons tokenId rest ih =>
      rw [spanRows_cons, ← Nat.add_assoc] at h
      rw [List.foldlM_cons, prefillToken_eq maxSeq e stride (by omega), List.foldl_cons]
      apply ih
      rwa [outToken_advance]

/-- It stops with an error when they do not. -/
theorem foldlM_prefillToken_error {st : PrefillState} {tokenIds : List ℤ}
    (hst : st.outToken ≤ maxSeq) (h : maxSeq < st.outToken + spanRows tokenIds) :
  ∃ msg, tokenIds.foldlM (prefillToken maxSeq (some e) stride) st = .error msg
  := by
  induction tokenIds generalizing st with
  | nil =>
      rw [spanRows, List.map_nil, List.sum_nil] at h
      omega
  | cons tokenId rest ih =>
      rw [spanRows_cons, ← Nat.add_assoc] at h
      rw [List.foldlM_cons]
      rcases Nat.lt_or_ge maxSeq (st.outToken + tokenRows tokenId) with hlt | hge
      · obtain ⟨msg, hmsg⟩ := prefillToken_error maxSeq e stride hlt
        rw [hmsg]
        exact ⟨msg, rfl⟩
      · rw [prefillToken_eq maxSeq e stride hge]
        apply ih
        · rwa [outToken_advance]
        · rwa [outToken_advance]

/-- The state after the tokens `p`. -/
structure PrefillInv (p : List ℤ) (st : PrefillState) : Prop where
  outToken : st.outToken = spanRows p
  tokenIndex : st.tokenIndex = textRows p
  saw : st.sawImagePlaceholder = true ↔ kImageTokenId ∈ p
  /-- The last image begins at the remembered row. -/
  imageDst : kImageTokenId ∈ p → ∃ q r, p = q ++ kImageTokenId :: r ∧ kImageTokenId ∉ r
    ∧ st.imageDstToken = spanRows q
  /-- The embeddings are at their rows, and all other rows are zero. -/
  host : ∀ t < maxSeq, st.act.hostRow t
    = (layoutFrom (List.replicate kImageTokens 0) (embeddingRow e stride) 0 p).getD t 0

theorem PrefillInv.image {p : List ℤ} {st : PrefillState} (h : PrefillInv maxSeq e stride p st) :
  PrefillInv maxSeq e stride (p ++ [kImageTokenId]) (advance e stride st kImageTokenId)
  := by
  have hlayout : layoutFrom (List.replicate kImageTokens 0) (embeddingRow e stride) 0
      (p ++ [kImageTokenId])
      = layoutFrom (List.replicate kImageTokens 0) (embeddingRow e stride) 0 p
        ++ List.replicate kImageTokens 0 := by
    rw [layoutFrom_append, layoutFrom, if_pos rfl, layoutFrom, List.append_nil]
  rw [advance, if_pos rfl]
  constructor
  · rw [spanRows_append, spanRows_cons, tokenRows, if_pos rfl, ← h.outToken]
    rfl
  · rw [textRows, List.filter_append, List.filter_cons_of_neg (by simp), List.filter_nil,
      List.append_nil, ← textRows, ← h.tokenIndex]
  · simp only [List.mem_append, List.mem_cons, true_or, or_true]
  · intro _
    use p, [], rfl, List.not_mem_nil, h.outToken
  · intro t ht
    rw [hlayout, getD_append_replicate, ← h.host t ht]

theorem PrefillInv.text {p : List ℤ} {st : PrefillState} (h : PrefillInv maxSeq e stride p st)
    {tokenId : ℤ} (htoken : tokenId ≠ kImageTokenId) :
  PrefillInv maxSeq e stride (p ++ [tokenId]) (advance e stride st tokenId)
  := by
  have hlayout : layoutFrom (List.replicate kImageTokens 0) (embeddingRow e stride) 0
      (p ++ [tokenId])
      = layoutFrom (List.replicate kImageTokens 0) (embeddingRow e stride) 0 p
        ++ [embeddingRow e stride (textRows p)] := by
    rw [layoutFrom_append, layoutFrom, if_neg htoken, layoutFrom, Nat.zero_add]
  have hmem : kImageTokenId ∈ p ++ [tokenId] ↔ kImageTokenId ∈ p := by
    rw [List.mem_append, List.mem_singleton, or_iff_left htoken.symm]
  rw [advance, if_neg htoken]
  constructor
  · rw [spanRows_append, spanRows_cons, tokenRows, if_neg htoken, ← h.outToken]
    rfl
  · rw [textRows, List.filter_append, List.filter_cons_of_pos (by simpa), List.filter_nil,
      List.length_append, ← textRows, ← h.tokenIndex]
    rfl
  · rw [hmem, ← h.saw]
  · intro hin
    obtain ⟨q, r, rfl, hr, hdst⟩ := h.imageDst (hmem.mp hin)
    refine ⟨q, r ++ [tokenId], ?_, ?_, hdst⟩
    · rw [List.append_assoc, List.cons_append]
    · rw [List.mem_append, List.mem_singleton, not_or]
      exact ⟨hr, htoken.symm⟩
  · intro t ht
    rw [hlayout, hostRow_copyEmbedding, h.outToken, h.tokenIndex]
    have hlen : (layoutFrom (List.replicate kImageTokens 0) (embeddingRow e stride) 0 p).length
        = spanRows p := length_layoutFrom List.length_replicate 0 p
    rcases Nat.lt_trichotomy t (spanRows p) with hlt | rfl | hgt
    · rw [if_neg hlt.ne, List.getD_append _ _ _ _ (by rwa [hlen]), h.host t ht]
    · rw [if_pos rfl, List.getD_append_right _ _ _ _ (by rw [hlen]), hlen, Nat.sub_self]
      rfl
    · rw [if_neg hgt.ne', h.host t ht, List.getD_eq_default _ _ (by rw [hlen]; omega),
        List.getD_eq_default _ _ (by rw [List.length_append, hlen, List.length_singleton]; omega)]

theorem PrefillInv.step {p : List ℤ} {st : PrefillState} (h : PrefillInv maxSeq e stride p st)
    (tokenId : ℤ) :
  PrefillInv maxSeq e stride (p ++ [tokenId]) (advance e stride st tokenId)
  := by
  rcases eq_or_ne tokenId kImageTokenId with rfl | htoken
  · apply h.image
  · apply h.text _ _ _ htoken

theorem PrefillInv.run {p : List ℤ} {st : PrefillState} (h : PrefillInv maxSeq e stride p st)
    (tokenIds : List ℤ) :
  PrefillInv maxSeq e stride (p ++ tokenIds) (tokenIds.foldl (advance e stride) st)
  := by
  induction tokenIds generalizing p st with
  | nil => rwa [List.append_nil]
  | cons tokenId rest ih =>
      have hrest := ih (h.step maxSeq e stride tokenId)
      rwa [List.append_assoc] at hrest

end Loop

/-! ### The whole function -/

section Build

variable {maxSeq : ℕ} {e : ℕ → BitVec 8} {stride : ℕ} {tokenIds : List ℤ}
  {imageTokens actPing : FpgaBuffer}

/-- The state before the loop. -/
def prefillStart (maxSeq : ℕ) (actPing : FpgaBuffer) : PrefillState :=
  { act := actPing.memset 0 (allocBytes maxSeq .actPing) }

theorem outToken_prefillStart :
  (prefillStart maxSeq actPing).outToken = 0
  := rfl

theorem prefillInv_start :
  PrefillInv maxSeq e stride [] (prefillStart maxSeq actPing)
  := by
  constructor
  · rfl
  · rfl
  · simp only [prefillStart, Bool.false_eq_true, List.not_mem_nil]
  · intro h
    cases h
  · intro t ht
    apply hostRow_memset _ _ ht

theorem buildPrefillActivations_eq (hstride : C ≤ stride) :
  buildPrefillActivations maxSeq (some e) stride tokenIds imageTokens actPing
    = (tokenIds.foldlM (prefillToken maxSeq (some e) stride) (prefillStart maxSeq actPing)
      >>= fun st => ensureImage maxSeq (some e) stride tokenIds st
      >>= sendPrefill maxSeq imageTokens)
  := by
  have hguard : ¬ ((some e).isSome = true ∧ stride < kLlmHidden) := by
    rintro ⟨-, hlt⟩
    exact absurd hstride (Nat.not_le.mpr hlt)
  rw [buildPrefillActivations, if_neg hguard]
  rfl

theorem sendPrefill_eq {st : PrefillState} (hle : st.outToken ≤ maxSeq) :
  sendPrefill maxSeq imageTokens st
    = .ok (st.outToken, runImageBridge imageTokens
      (st.act.syncToDevice (allocBytes maxSeq .actPing) 0) st.imageDstToken kImageTokens)
  := by rw [sendPrefill, if_neg (Nat.not_lt.mpr hle)]

/-- Without image tokens the embeddings are copied again, behind the rows of an image. -/
theorem prependImageTokens_eq {st : PrefillState}
    (hle : kImageTokens + tokenIds.length ≤ maxSeq) :
  prependImageTokens maxSeq (some e) stride tokenIds st
    = .ok { st with
      act := (List.range tokenIds.length).foldl
        (fun act i => copyEmbedding (some e) stride i (0 + kImageTokens + i) act) st.act
      outToken := 0 + kImageTokens + tokenIds.length
      imageDstToken := 0 }
  := by
  have hfit : ¬ maxSeq < 0 + kImageTokens := by omega
  have hfit' : ¬ maxSeq < 0 + kImageTokens + tokenIds.length := by omega
  simp only [prependImageTokens, reserveImageTokens, if_neg hfit]
  change (if maxSeq < 0 + kImageTokens + tokenIds.length then _ else _) = _
  rw [if_neg hfit']

theorem prependImageTokens_error (e : ℕ → BitVec 8) (stride : ℕ) (st : PrefillState)
    (hlt : maxSeq < kImageTokens + tokenIds.length) :
  ∃ msg, prependImageTokens maxSeq (some e) stride tokenIds st = .error msg
  := by
  simp only [prependImageTokens, reserveImageTokens]
  by_cases hsmall : maxSeq < 0 + kImageTokens
  · rw [if_pos hsmall]
    exact ⟨_, rfl⟩
  · have hlarge : maxSeq < 0 + kImageTokens + tokenIds.length := by omega
    rw [if_neg hsmall]
    use "prefill tokens exceed allocated max_seq after prepending image tokens"
    change (if maxSeq < 0 + kImageTokens + tokenIds.length then _ else _) = _
    rw [if_pos hlarge]

section Outcome

variable (e) (imageTokens actPing)

/-- The state after the loop, when the rows of the list fit. -/
theorem exists_prefillInv (hstride : C ≤ stride) (hle : spanRows tokenIds ≤ maxSeq) :
  ∃ st, PrefillInv maxSeq e stride tokenIds st
    ∧ buildPrefillActivations maxSeq (some e) stride tokenIds imageTokens actPing
      = (ensureImage maxSeq (some e) stride tokenIds st >>= sendPrefill maxSeq imageTokens)
  := by
  use tokenIds.foldl (advance e stride) (prefillStart maxSeq actPing)
  constructor
  · apply PrefillInv.run maxSeq e stride prefillInv_start
  · have hfit : (prefillStart maxSeq actPing).outToken + spanRows tokenIds ≤ maxSeq := by
      rwa [outToken_prefillStart, Nat.zero_add]
    rw [buildPrefillActivations_eq hstride, foldlM_prefillToken maxSeq e stride hfit]
    rfl

/-- With image tokens, the bridge gets the row of the last one. -/
theorem buildPrefillActivations_of_mem (hstride : C ≤ stride)
    (hmem : kImageTokenId ∈ tokenIds) (hle : spanRows tokenIds ≤ maxSeq) :
  ∃ st, PrefillInv maxSeq e stride tokenIds st
    ∧ buildPrefillActivations maxSeq (some e) stride tokenIds imageTokens actPing
      = .ok (spanRows tokenIds, runImageBridge imageTokens
        (st.act.syncToDevice (allocBytes maxSeq .actPing) 0) st.imageDstToken kImageTokens)
  := by
  obtain ⟨st, hinv, hbuild⟩ := exists_prefillInv e imageTokens actPing hstride hle
  use st, hinv
  rw [hbuild, ensureImage, if_pos (hinv.saw.mpr hmem), ← hinv.outToken]
  apply sendPrefill_eq
  rwa [hinv.outToken]

/-- Without, the image comes first. -/
theorem buildPrefillActivations_of_notMem (hstride : C ≤ stride)
    (hmem : kImageTokenId ∉ tokenIds) (hle : kImageTokens + tokenIds.length ≤ maxSeq) :
  ∃ act : FpgaBuffer,
    buildPrefillActivations maxSeq (some e) stride tokenIds imageTokens actPing
      = .ok (kImageTokens + tokenIds.length, runImageBridge imageTokens
        (act.syncToDevice (allocBytes maxSeq .actPing) 0) 0 kImageTokens)
    ∧ ∀ i < tokenIds.length, act.hostRow (kImageTokens + i) = embeddingRow e stride i
  := by
  have hspan : spanRows tokenIds ≤ maxSeq := by
    rw [spanRows_of_notMem hmem]
    omega
  obtain ⟨st, hinv, hbuild⟩ := exists_prefillInv e imageTokens actPing hstride hspan
  refine ⟨(List.range tokenIds.length).foldl (fun act i =>
    copyEmbedding (some e) stride i (0 + kImageTokens + i) act) st.act, ?_, ?_⟩
  · rw [hbuild, ensureImage, if_neg (mt hinv.saw.mp hmem), prependImageTokens_eq hle]
    change sendPrefill maxSeq imageTokens _ = _
    rw [sendPrefill_eq (by rwa [Nat.zero_add]), Nat.zero_add]
  · intro i hi
    rw [hostRow_foldl_copyEmbedding, Nat.zero_add, if_pos (by omega), Nat.add_sub_cancel_left]

theorem buildPrefillActivations_error (hstride : C ≤ stride)
    (hlt : maxSeq < decoderRows tokenIds) :
  ∃ msg, buildPrefillActivations maxSeq (some e) stride tokenIds imageTokens actPing
    = .error msg
  := by
  rcases Nat.lt_or_ge maxSeq (spanRows tokenIds) with hspan | hspan
  · have hstart : (prefillStart maxSeq actPing).outToken ≤ maxSeq := by
      rw [outToken_prefillStart]
      apply Nat.zero_le
    have hover : maxSeq < (prefillStart maxSeq actPing).outToken + spanRows tokenIds := by
      rwa [outToken_prefillStart, Nat.zero_add]
    obtain ⟨msg, hmsg⟩ := foldlM_prefillToken_error maxSeq e stride hstart hover
    use msg
    rw [buildPrefillActivations_eq hstride, hmsg]
    rfl
  · obtain ⟨st, hinv, hbuild⟩ := exists_prefillInv e imageTokens actPing hstride hspan
    rw [decoderRows] at hlt
    split at hlt
    · omega
    · next hmem =>
        obtain ⟨msg, hmsg⟩ := prependImageTokens_error e stride st hlt
        use msg
        rw [hbuild, ensureImage, if_neg (mt hinv.saw.mp hmem), hmsg]
        rfl

/-- An error is raised exactly when the rows are too many. -/
theorem buildPrefillActivations_error_iff (hstride : C ≤ stride) :
  (∃ msg, buildPrefillActivations maxSeq (some e) stride tokenIds imageTokens actPing
    = .error msg) ↔ maxSeq < decoderRows tokenIds
  := by
  constructor
  · rintro ⟨msg, hmsg⟩
    by_contra hle
    rw [Nat.not_lt, decoderRows] at hle
    split at hle
    · next hmem =>
        obtain ⟨st, -, hok⟩ := buildPrefillActivations_of_mem e imageTokens actPing
          hstride hmem hle
        cases hmsg.symm.trans hok
    · next hmem =>
        obtain ⟨act, hok, -⟩ := buildPrefillActivations_of_notMem e imageTokens actPing
          hstride hmem hle
        cases hmsg.symm.trans hok
  · apply buildPrefillActivations_error e imageTokens actPing hstride

/-- The rows of a buffer after the bridge, which wrote an image at `dst`. -/
theorem deviceRow_bridge {act : FpgaBuffer} {dst t : ℕ} (ht : t < maxSeq) :
  (runImageBridge imageTokens (act.syncToDevice (allocBytes maxSeq .actPing) 0) dst
      kImageTokens).deviceRow t
    = if dst ≤ t ∧ t < dst + kImageTokens then (imageRows imageTokens).getD (t - dst) 0
      else act.hostRow t
  := by rw [deviceRow_runImageBridge, deviceRow_syncToDevice _ _ ht]

theorem length_imageRows :
  (imageRows imageTokens).length = kImageTokens
  := by rw [imageRows, List.length_map, List.length_range]

/-- The rows of a prompt with image tokens: only the last image is written. -/
theorem rows_of_image {q r : List ℤ} {act : FpgaBuffer} (hr : kImageTokenId ∉ r)
    (hle : spanRows (q ++ kImageTokenId :: r) ≤ maxSeq)
    (hhost : ∀ t < maxSeq, act.hostRow t = (layoutFrom (List.replicate kImageTokens 0)
      (embeddingRow e stride) 0 (q ++ kImageTokenId :: r)).getD t 0) :
  (List.range (spanRows (q ++ kImageTokenId :: r))).map
      (runImageBridge imageTokens (act.syncToDevice (allocBytes maxSeq .actPing) 0) (spanRows q)
        kImageTokens).deviceRow
    = layoutFrom (List.replicate kImageTokens 0) (embeddingRow e stride) 0 q
      ++ (imageRows imageTokens
        ++ layoutFrom (imageRows imageTokens) (embeddingRow e stride) (textRows q) r)
  := by
  have himage := length_imageRows imageTokens
  have hrest : layoutFrom (imageRows imageTokens) (embeddingRow e stride) (textRows q) r
      = layoutFrom (List.replicate kImageTokens 0) (embeddingRow e stride) (textRows q) r := by
    rw [layoutFrom_of_notMem hr, layoutFrom_of_notMem hr]
  rw [layoutFrom_append, layoutFrom, if_pos rfl, Nat.zero_add] at hhost
  rw [hrest]
  have hlen : (layoutFrom (List.replicate kImageTokens 0) (embeddingRow e stride) 0 q).length
      = spanRows q := length_layoutFrom List.length_replicate 0 q
  have hlen' : (layoutFrom (List.replicate kImageTokens 0) (embeddingRow e stride)
      (textRows q) r).length = spanRows r := length_layoutFrom List.length_replicate _ r
  generalize layoutFrom (List.replicate kImageTokens 0) (embeddingRow e stride) 0 q = before at *
  generalize layoutFrom (List.replicate kImageTokens 0) (embeddingRow e stride) (textRows q) r
    = after at *
  rw [spanRows_append, spanRows_cons, tokenRows, if_pos rfl, ← hlen, ← himage, ← hlen'] at hle ⊢
  -- the rows before the image, those of the image, and those after it
  rw [map_range_append_of 0, map_range_append_of 0, map_range_eq 0]
  · intro t ht
    rw [himage] at hle ⊢
    rw [deviceRow_bridge _ (by omega), if_neg (by omega), hhost _ (by omega),
      List.getD_append_right _ _ _ _ (by omega), Nat.add_sub_cancel_left,
      List.getD_append_right _ _ _ _ (by rw [List.length_replicate]; omega),
      List.length_replicate, Nat.add_sub_cancel_left]
  · intro t ht
    rw [himage] at ht hle ⊢
    rw [deviceRow_bridge _ (by omega), if_pos (by omega), Nat.add_sub_cancel_left]
  · intro t ht
    rw [himage]
    rw [deviceRow_bridge _ (by omega), if_neg (by omega), hhost _ (by omega),
      List.getD_append _ _ _ _ ht]

/-- Those of a prompt without. -/
theorem rows_of_notMem {act : FpgaBuffer} (hle : kImageTokens + tokenIds.length ≤ maxSeq)
    (hhost : ∀ i < tokenIds.length, act.hostRow (kImageTokens + i) = embeddingRow e stride i) :
  (List.range (kImageTokens + tokenIds.length)).map
      (runImageBridge imageTokens (act.syncToDevice (allocBytes maxSeq .actPing) 0) 0
        kImageTokens).deviceRow
    = imageRows imageTokens ++ (List.range tokenIds.length).map (embeddingRow e stride)
  := by
  rw [← length_imageRows imageTokens, map_range_append_of 0]
  · congr 1
    apply List.map_congr_left
    intro i hi
    have hi := List.mem_range.mp hi
    rw [length_imageRows] at *
    rw [deviceRow_bridge _ (by omega), if_neg (by omega), hhost i hi]
  · intro t ht
    rw [length_imageRows] at *
    rw [deviceRow_bridge _ (by omega), if_pos (by omega), Nat.sub_zero]

/-- Where only the last image is written, the rows are the expected ones exactly when it is the
only one, or zero. -/
theorem lastImage_eq_prefillLayout_iff {image : List ActRow} (himage : image.length = kImageTokens)
    (emb : ℕ → ActRow) (q r : List ℤ) :
  layoutFrom (List.replicate kImageTokens 0) emb 0 q
      ++ (image ++ layoutFrom image emb (textRows q) r)
    = prefillLayout image emb (q ++ kImageTokenId :: r)
    ↔ kImageTokenId ∉ q ∨ ∀ row ∈ image, row = 0
  := by
  have hmem : kImageTokenId ∈ q ++ kImageTokenId :: r :=
    List.mem_append_right q List.mem_cons_self
  rw [prefillLayout, if_pos hmem, layoutFrom_append, layoutFrom, if_pos rfl, Nat.zero_add,
    List.append_left_inj, layoutFrom_eq_iff (by rw [List.length_replicate, himage]),
    eq_comm (b := image), List.eq_replicate_iff, and_iff_right himage]

/-- There is one image token exactly when there is none before the last. -/
theorem count_le_one_iff {q r : List ℤ} (hr : kImageTokenId ∉ r) :
  (q ++ kImageTokenId :: r).count kImageTokenId ≤ 1 ↔ kImageTokenId ∉ q
  := by
  rw [List.count_append, List.count_cons_self, List.count_eq_zero_of_not_mem hr,
    ← List.count_eq_zero]
  omega

theorem laysOutPrefill_of_lt (hstride : C ≤ stride) (hlt : maxSeq < decoderRows tokenIds) :
  LaysOutPrefill maxSeq tokenIds e stride imageTokens actPing
  := by
  use buildPrefillActivations_error_iff e imageTokens actPing hstride
  intro n act hok
  obtain ⟨msg, hmsg⟩ := buildPrefillActivations_error e imageTokens actPing hstride hlt
  cases hmsg.symm.trans hok

theorem laysOutPrefill_of_notMem (hstride : C ≤ stride) (hmem : kImageTokenId ∉ tokenIds)
    (hle : decoderRows tokenIds ≤ maxSeq) :
  LaysOutPrefill maxSeq tokenIds e stride imageTokens actPing
  := by
  have hrows : decoderRows tokenIds = kImageTokens + tokenIds.length := if_neg hmem
  use buildPrefillActivations_error_iff e imageTokens actPing hstride
  rw [hrows] at hle ⊢
  obtain ⟨act, hok, hhost⟩ := buildPrefillActivations_of_notMem e imageTokens actPing
    hstride hmem hle
  rw [hok]
  rintro n act ⟨⟩
  use rfl
  rw [rows_of_notMem e imageTokens hle hhost, prefillLayout, if_neg hmem]

/-- A prompt with image tokens is laid out exactly when there is only one, or the image is
zero. -/
theorem laysOutPrefill_of_mem_iff (hstride : C ≤ stride) (hmem : kImageTokenId ∈ tokenIds)
    (hle : decoderRows tokenIds ≤ maxSeq) :
  LaysOutPrefill maxSeq tokenIds e stride imageTokens actPing
    ↔ tokenIds.count kImageTokenId ≤ 1 ∨ ∀ row ∈ imageRows imageTokens, row = 0
  := by
  have hrows : decoderRows tokenIds = spanRows tokenIds := if_pos hmem
  rw [LaysOutPrefill, and_iff_right (buildPrefillActivations_error_iff e imageTokens actPing
    hstride)]
  rw [hrows] at hle ⊢
  obtain ⟨st, hinv, hok⟩ := buildPrefillActivations_of_mem e imageTokens actPing hstride hmem hle
  obtain ⟨q, r, rfl, hr, hdst⟩ := hinv.imageDst hmem
  have hlayout := rows_of_image e imageTokens hr hle hinv.host
  rw [← hdst] at hlayout
  rw [count_le_one_iff hr, ← lastImage_eq_prefillLayout_iff (length_imageRows imageTokens)
    (embeddingRow e stride) q r, ← hlayout, hok]
  constructor
  · intro h
    apply (h _ _ rfl).2
  · rintro h n act ⟨⟩
    exact ⟨rfl, h⟩

/-- The rows are laid out exactly when they are too many, or there is at most one image token,
or the image is zero. -/
theorem laysOutPrefill_iff (hstride : C ≤ stride) :
  LaysOutPrefill maxSeq tokenIds e stride imageTokens actPing
    ↔ maxSeq < decoderRows tokenIds ∨ tokenIds.count kImageTokenId ≤ 1
      ∨ ∀ row ∈ imageRows imageTokens, row = 0
  := by
  rcases Nat.lt_or_ge maxSeq (decoderRows tokenIds) with hlt | hle
  · exact iff_of_true (laysOutPrefill_of_lt e imageTokens actPing hstride hlt) (.inl hlt)
  · rw [or_iff_right (Nat.not_lt.mpr hle)]
    by_cases hmem : kImageTokenId ∈ tokenIds
    · apply laysOutPrefill_of_mem_iff e imageTokens actPing hstride hmem hle
    · have hcount : tokenIds.count kImageTokenId ≤ 1 := by
        rw [List.count_eq_zero_of_not_mem hmem]
        exact Nat.zero_le 1
      exact iff_of_true (laysOutPrefill_of_notMem e imageTokens actPing hstride hmem hle)
        (.inl hcount)

end Outcome

end Build

/-- A buffer of ones. -/
def onesBuffer : FpgaBuffer := ⟨fun _ => 1, fun _ => 1⟩

/-- An image between two tokens of text. -/
theorem laysOutPrefill_oneImage :
  LaysOutPrefill 2048 [1, kImageTokenId, 2] (fun i => BitVec.ofNat 8 i) C onesBuffer onesBuffer
  := (laysOutPrefill_iff _ _ _ (le_refl C)).mpr (.inr (.inl (by decide)))

/-- Of two images, the first stays zero. -/
theorem not_laysOutPrefill_twoImages :
  ¬ LaysOutPrefill 2048 [kImageTokenId, kImageTokenId] (fun _ => 0) C onesBuffer onesBuffer
  := by
  rw [laysOutPrefill_of_mem_iff _ _ _ (le_refl C) (by decide) (by decide)]
  rintro (hcount | hzero)
  · revert hcount
    decide
  · have hrow := congrFun (hzero (fun c => requantImage onesBuffer.device 0 c)
      (List.mem_map_of_mem (List.mem_range.mpr (by decide : 0 < kImageTokens)))) 0
    have hone : requantImage onesBuffer.device 0 0 = 1 := by decide +kernel
    change requantImage onesBuffer.device 0 0 = 0 at hrow
    rw [hone] at hrow
    revert hrow
    decide

end Kv260
