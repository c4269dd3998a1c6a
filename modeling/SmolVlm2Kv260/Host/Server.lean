import SmolVlm2Kv260.Host.Runner
import Mathlib.Data.List.Induction
import Mathlib.Logic.Relation

/-!
# The decode loop of the server

`run_fpga_completion_task` prefills the prompt and then alternates decode launches, sampling
and writing the embedding of the sampled token.  The state of the loop records where the
entries of the KV cache and the logits come from: a launch processes its `t`-th work row at
position `cur_pos + t`, and a decode launch processes the embedding written last.

The first launch of the loop runs before any token is sampled, at the position where the
first token belongs; so the embedding of each token is processed one position too late.
-/

set_option autoImplicit false

namespace Kv260

open Blocks

/-! ### What a launch stores -/

/-- Where a row that a launch processes comes from: a row of the prompt, the `k`-th sampled
token, or what happened to be in the buffer before. -/
inductive Source where
  | prefillRow (i : ℕ)
  | token (k : ℕ)
  | stale
  deriving DecidableEq

/-- The sources of the KV entries that this request has written, by layer and position. -/
abbrev KvSources : Type := ℕ → ℕ → Option Source

/-- A launch stores an entry for each of its work rows. -/
def Launch.storeKv (l : Launch) (rows : ℕ → Source) (kv : KvSources) : KvSources :=
  fun layer p =>
    if layer = l.layerId ∧ l.curPos ≤ p ∧ p < l.curPos + l.workTokenCount then
      some (rows (l.workTokenOffset + (p - l.curPos)))
    else kv layer p

/-- The KV entries after the prefill of `seqLen` rows. -/
def prefilledKv (seqLen : ℕ) (offsets : List WeightOffsets) : KvSources :=
  ((RunnerCall.prefillThroughput seqLen).launches offsets).foldl
    (fun kv l => l.storeKv .prefillRow kv) fun _ _ => none

/-! ### The loop -/

/-- What the loop does next. -/
inductive Phase where
  | loopHead
  | decoding (pending : List Launch)
  | readLogits
  | writeEmbedding
  | finished
  | failed

/-- The variables of the loop, the KV entries, the embedding written last, the position that
the logits belong to, those that the tokens were sampled from, and the number of decode
launches so far. -/
structure ServerState where
  phase : Phase
  step : ℕ
  curPos : ℕ
  curKv : ℕ
  kv : KvSources
  embedding : Source
  logits : Option ℕ
  sampledFrom : List (Option ℕ)
  decodeLaunches : ℕ

namespace ServerState

/-- The state when the prompt has been prefilled. -/
def prefilled (seqLen : ℕ) (offsets : List WeightOffsets) : ServerState where
  phase := .loopHead
  step := 0
  curPos := seqLen
  curKv := seqLen
  kv := prefilledKv seqLen offsets
  embedding := .stale
  logits := none
  sampledFrom := []
  decodeLaunches := 0

/-- The runner call of an iteration. -/
def decodeCall (s : ServerState) : RunnerCall :=
  if s.step = 0 then .decodeTtftToken s.curPos s.curKv
  else .decodeThroughputWindow s.curPos s.curKv 1

/-- A launch of the decoder kernel.  The logits are those of row `seq_len - 1`. -/
def launch (s : ServerState) (l : Launch) (pending : List Launch) : ServerState :=
  { s with
    phase := .decoding pending
    kv := l.storeKv (fun _ => s.embedding) s.kv
    logits := if l.runLmhead ≠ 0 then some (l.posStart + (l.seqLen - 1)) else s.logits
    decodeLaunches := s.decodeLaunches + 1 }

/-- Sampling a token. -/
def sample (s : ServerState) (next : Phase) : ServerState :=
  { s with phase := next, sampledFrom := s.sampledFrom ++ [s.logits] }

/-- The end of an iteration: the embedding of the sampled token is written. -/
def nextStep (s : ServerState) : ServerState :=
  { s with
    phase := .loopHead
    step := s.step + 1
    curPos := s.curPos + 1
    curKv := s.curKv + 1
    embedding := .token (s.sampledFrom.length - 1) }

end ServerState

/-- `n_predict` of the loop, from the request and from the server's parameters. -/
def nPredict (requested base : ℤ) : ℕ :=
  let maxNew := if 0 < requested then requested else base
  if 0 < maxNew then maxNew.toNat else 64

/-- The loop of every request has an iteration. -/
theorem nPredict_pos (requested base : ℤ) :
  0 < nPredict requested base
  := by
  simp only [nPredict]
  split_ifs <;> omega

/-- One step of the loop.  Any call of the FPGA session may fail, and any sampled token may
be the end of the sequence. -/
inductive ServerStep (n : ℕ) (offsets : List WeightOffsets) : ServerState → ServerState → Prop where
  | enter {s : ServerState} : s.phase = .loopHead → s.step < n →
      ServerStep n offsets s { s with phase := .decoding (s.decodeCall.launches offsets) }
  | exit {s : ServerState} : s.phase = .loopHead → n ≤ s.step →
      ServerStep n offsets s { s with phase := .finished }
  | launch {s : ServerState} {l : Launch} {pending : List Launch} :
      s.phase = .decoding (l :: pending) → ServerStep n offsets s (s.launch l pending)
  | decoded {s : ServerState} : s.phase = .decoding [] →
      ServerStep n offsets s { s with phase := .readLogits }
  | sample {s : ServerState} : s.phase = .readLogits →
      ServerStep n offsets s (s.sample .writeEmbedding)
  | eos {s : ServerState} : s.phase = .readLogits → ServerStep n offsets s (s.sample .finished)
  | write {s : ServerState} : s.phase = .writeEmbedding → ServerStep n offsets s s.nextStep
  | failDecode {s : ServerState} {pending : List Launch} : s.phase = .decoding pending →
      ServerStep n offsets s { s with phase := .failed }
  | failLogits {s : ServerState} : s.phase = .readLogits →
      ServerStep n offsets s { s with phase := .failed }
  | failWrite {s : ServerState} : s.phase = .writeEmbedding →
      ServerStep n offsets s { s with phase := .failed }

/-- The states of the loop after a prompt of `seqLen` rows. -/
def ServerReachable (seqLen n : ℕ) (offsets : List WeightOffsets) (s : ServerState) : Prop :=
  Relation.ReflTransGen (ServerStep n offsets) (ServerState.prefilled seqLen offsets) s

/-! ### Consistency -/

/-- The `p`-th element of the sequence: the rows of the prompt, then the sampled tokens. -/
def sequenceElem (seqLen p : ℕ) : Source :=
  if p < seqLen then .prefillRow p else .token (p - seqLen)

/-- The KV entries below `cur_kv` are those of the sequence, there are no others, and the
`k`-th token is sampled from the position of the element before it. -/
structure Consistent (seqLen : ℕ) (s : ServerState) : Prop where
  kv : ∀ layer < numLayers, ∀ p < s.curKv, s.kv layer p = some (sequenceElem seqLen p)
  others : ∀ layer p src, s.kv layer p = some src → src = sequenceElem seqLen p
  logits : ∀ k from_, s.sampledFrom[k]? = some from_ → ∃ p, from_ = some p ∧ p + 1 = seqLen + k

/-! ### The prompt -/

/-- The launch stores an entry at the position. -/
def Launch.Covers (l : Launch) (layer p : ℕ) : Prop :=
  layer = l.layerId ∧ l.curPos ≤ p ∧ p < l.curPos + l.workTokenCount

theorem storeKv_of_not_covers {l : Launch} {layer p : ℕ} (h : ¬ l.Covers layer p)
    (rows : ℕ → Source) (kv : KvSources) :
  l.storeKv rows kv layer p = kv layer p
  := if_neg h

theorem storeKv_of_covers {l : Launch} {layer p : ℕ} (h : l.Covers layer p)
    (rows : ℕ → Source) (kv : KvSources) :
  l.storeKv rows kv layer p = some (rows (l.workTokenOffset + (p - l.curPos)))
  := if_pos h

/-- Launches of a prefill store the row of each position they cover. -/
theorem foldl_storeKv_prefill {ls : List Launch} (hstart : ∀ l ∈ ls, l.posStart = 0)
    (kv : KvSources) (layer p : ℕ) :
  ((∃ l ∈ ls, l.Covers layer p) →
      ls.foldl (fun kv l => l.storeKv .prefillRow kv) kv layer p = some (.prefillRow p))
    ∧ ((∀ l ∈ ls, ¬ l.Covers layer p) →
      ls.foldl (fun kv l => l.storeKv .prefillRow kv) kv layer p = kv layer p)
  := by
  induction ls using List.reverseRecOn with
  | nil =>
      constructor
      · rintro ⟨l, hl, -⟩
        cases hl
      · intro _
        rfl
  | append_singleton ls l ih =>
      obtain ⟨hcovered, hother⟩ := ih fun l' hl' => hstart l' (List.mem_append_left _ hl')
      rw [List.foldl_append, List.foldl_cons, List.foldl_nil]
      by_cases hl : l.Covers layer p
      · have hzero := hstart l (List.mem_append_right _ (List.mem_singleton_self l))
        have hrow : l.workTokenOffset + (p - l.curPos) = p := by
          have hle := hl.2.1
          rw [Launch.curPos, hzero, Nat.zero_add] at hle ⊢
          omega
        rw [storeKv_of_covers hl, hrow]
        constructor
        · intro _
          rfl
        · intro hnone
          exact absurd hl (hnone l (List.mem_append_right _ (List.mem_singleton_self l)))
      · rw [storeKv_of_not_covers hl]
        constructor
        · rintro ⟨l', hl', hcov⟩
          rcases List.mem_append.mp hl' with hmem | hmem
          · apply hcovered ⟨l', hmem, hcov⟩
          · obtain rfl := List.mem_singleton.mp hmem
            exact absurd hcov hl
        · intro hnone
          apply hother fun l' hl' => hnone l' (List.mem_append_left _ hl')

/-- The launches of a prefill cover the positions of the prompt in every layer. -/
theorem exists_prefill_covers_iff {seqLen : ℕ} {offsets : List WeightOffsets} {layer p : ℕ} :
  (∃ l ∈ (RunnerCall.prefillThroughput seqLen).launches offsets, l.Covers layer p)
    ↔ layer < numLayers ∧ p < seqLen
  := by
  rw [lt_iff_exists_tile (p := p) (by decide : 0 < prefillTokenTile)]
  constructor
  · rintro ⟨l, hl, hid, hle, hlt⟩
    obtain ⟨layer', hlayer, tile, ht, rfl⟩ := RunnerCall.mem_launches.mp hl
    obtain ⟨i, hi, rfl⟩ := List.mem_map.mp ht
    obtain rfl := hid
    change 0 + i * prefillTokenTile ≤ p at hle
    change p < 0 + i * prefillTokenTile + tileLen prefillTokenTile seqLen i at hlt
    rw [Nat.zero_add] at hle hlt
    refine ⟨hlayer, i, List.mem_range.mp hi, p - i * prefillTokenTile, ?_, ?_⟩
    · omega
    · omega
  · rintro ⟨hlayer, i, hi, j, hj, rfl⟩
    refine ⟨_, RunnerCall.mem_launches.mpr ⟨layer, hlayer, _,
      List.mem_map_of_mem (List.mem_range.mpr hi), rfl⟩, rfl, ?_, ?_⟩
    · change 0 + i * prefillTokenTile ≤ i * prefillTokenTile + j
      omega
    · change i * prefillTokenTile + j
        < 0 + i * prefillTokenTile + tileLen prefillTokenTile seqLen i
      omega

/-- After the prefill, the entries are those of the prompt. -/
theorem prefilledKv_eq (seqLen : ℕ) (offsets : List WeightOffsets) (layer p : ℕ) :
  prefilledKv seqLen offsets layer p
    = if layer < numLayers ∧ p < seqLen then some (.prefillRow p) else none
  := by
  have hstart : ∀ l ∈ (RunnerCall.prefillThroughput seqLen).launches offsets,
      l.posStart = 0 := by
    intro l hl
    obtain ⟨layer', -, tile, -, rfl⟩ := RunnerCall.mem_launches.mp hl
    rfl
  obtain ⟨hcovered, hother⟩ := foldl_storeKv_prefill hstart (fun _ _ => none) layer p
  split_ifs with h
  · apply hcovered (exists_prefill_covers_iff.mpr h)
  · apply hother
    intro l hl hcov
    apply h (exists_prefill_covers_iff.mp ⟨l, hl, hcov⟩)

/-! ### The launches of an iteration -/

section Iteration

variable {s : ServerState} {offsets : List WeightOffsets} {l : Launch} {pending : List Launch}

/-- Every launch of an iteration has one work row, at the position of the iteration. -/
theorem decode_launch_position (hl : l ∈ s.decodeCall.launches offsets) :
  l.curPos = s.curPos ∧ l.workTokenCount = 1
  := by
  obtain ⟨layer, -, tile, ht, rfl⟩ := RunnerCall.mem_launches.mp hl
  rw [ServerState.decodeCall] at ht ⊢
  split_ifs at ht ⊢ with h
  · exact ⟨rfl, rfl⟩
  · exact ⟨rfl, rfl⟩

/-- The launches of an iteration begin with that of the first layer. -/
theorem decode_launches_eq_cons (s : ServerState) (offsets : List WeightOffsets) :
  ∃ l ls, s.decodeCall.launches offsets = l :: ls ∧ l.layerId = 0
  := by
  rw [ServerState.decodeCall]
  split_ifs
  · exact ⟨_, _, rfl, rfl⟩
  · exact ⟨_, _, rfl, rfl⟩

end Iteration

/-! ### The invariant -/

/-- Before the first decode launch the entries are those of the prompt; after it, the entry
after them is stale. -/
structure ServerInv (seqLen : ℕ) (offsets : List WeightOffsets) (s : ServerState) : Prop where
  curPos : s.curPos = seqLen + s.step
  curKv : s.curKv = seqLen + s.step
  embedding : s.step = 0 → s.embedding = .stale
  pending : ∀ ls, s.phase = .decoding ls → ls <:+ s.decodeCall.launches offsets
  before : s.decodeLaunches = 0 → s.step = 0 ∧ s.kv = prefilledKv seqLen offsets
    ∧ s.sampledFrom = [] ∧ s.phase ≠ .readLogits ∧ s.phase ≠ .writeEmbedding
    ∧ ∀ ls, s.phase = .decoding ls → ls = s.decodeCall.launches offsets
  after : s.decodeLaunches ≠ 0 → s.kv 0 seqLen = some .stale

namespace ServerInv

variable {seqLen n : ℕ} {offsets : List WeightOffsets} {s s' : ServerState}

theorem prefilled :
  ServerInv seqLen offsets (ServerState.prefilled seqLen offsets)
  := by
  constructor
  · rfl
  · rfl
  · intro _
    rfl
  · intro ls hls
    cases hls
  · intro _
    refine ⟨rfl, rfl, rfl, ?_, ?_, ?_⟩
    · intro h
      cases h
    · intro h
      cases h
    · intro ls hls
      cases hls
  · intro h
    exact absurd rfl h

/-- A step that changes the phase and the sampled tokens only.  If it samples, there have been
launches. -/
theorem of_phase (h : ServerInv seqLen offsets s) {p : Phase} {sampled : List (Option ℕ)}
    (hpending : ∀ ls, p = .decoding ls → ls = s.decodeCall.launches offsets)
    (hbefore : s.decodeLaunches = 0 →
      sampled = s.sampledFrom ∧ p ≠ .readLogits ∧ p ≠ .writeEmbedding) :
  ServerInv seqLen offsets { s with phase := p, sampledFrom := sampled }
  := by
  constructor
  · apply h.curPos
  · apply h.curKv
  · apply h.embedding
  · intro ls hls
    rw [hpending ls hls]
    apply List.suffix_refl
  · intro hzero
    obtain ⟨hstep, hkv, hsampled, -⟩ := h.before hzero
    obtain ⟨hsame, hread, hwrite⟩ := hbefore hzero
    exact ⟨hstep, hkv, hsame.trans hsampled, hread, hwrite, hpending⟩
  · apply h.after

/-- The loop stops. -/
theorem stop (h : ServerInv seqLen offsets s) {p : Phase} (hp : p = .finished ∨ p = .failed) :
  ServerInv seqLen offsets { s with phase := p }
  := by
  apply h.of_phase
  · rintro ls rfl
    simp at hp
  · intro _
    rcases hp with rfl | rfl <;> simp

/-- An iteration begins. -/
theorem enter (h : ServerInv seqLen offsets s) :
  ServerInv seqLen offsets { s with phase := .decoding (s.decodeCall.launches offsets) }
  := by
  apply h.of_phase
  · intro ls hls
    exact (Phase.decoding.inj hls).symm
  · intro _
    simp

/-- The first launch of the loop stores a stale row after the prompt; no later launch
replaces it, since the later iterations have later positions. -/
theorem launch (h : ServerInv seqLen offsets s) {l : Launch} {pending : List Launch}
    (hp : s.phase = .decoding (l :: pending)) :
  ServerInv seqLen offsets (s.launch l pending)
  := by
  have hsuffix := h.pending _ hp
  obtain ⟨hpos, hcount⟩ := decode_launch_position (hsuffix.subset List.mem_cons_self)
  have hstored : l.Covers 0 seqLen → (s.launch l pending).kv 0 seqLen = some .stale := by
    intro hcov
    have hstep : s.step = 0 := by
      have hle := hcov.2.1
      rw [hpos, h.curPos] at hle
      omega
    change l.storeKv (fun _ => s.embedding) s.kv 0 seqLen = some .stale
    rw [storeKv_of_covers hcov, h.embedding hstep]
  constructor
  · apply h.curPos
  · apply h.curKv
  · apply h.embedding
  · intro ls hls
    obtain rfl := Phase.decoding.inj hls
    apply (List.suffix_cons l pending).trans hsuffix
  · intro hzero
    cases hzero
  · intro _
    by_cases hcov : l.Covers 0 seqLen
    · apply hstored hcov
    · have hnotfirst : s.decodeLaunches ≠ 0 := by
        intro hzero
        obtain ⟨hstep, -, -, -, -, hfull⟩ := h.before hzero
        obtain ⟨l', ls, heq, hlayer⟩ := decode_launches_eq_cons s offsets
        obtain ⟨rfl, -⟩ := List.cons.inj ((hfull _ hp).trans heq)
        apply hcov
        refine ⟨hlayer.symm, ?_, ?_⟩
        · rw [hpos, h.curPos, hstep, Nat.add_zero]
        · rw [hpos, h.curPos, hstep, hcount, Nat.add_zero]
          apply Nat.lt_succ_self
      change l.storeKv (fun _ => s.embedding) s.kv 0 seqLen = some .stale
      rw [storeKv_of_not_covers hcov]
      apply h.after hnotfirst

/-- After the launches of an iteration, there have been launches. -/
theorem decodeLaunches_ne_zero (h : ServerInv seqLen offsets s)
    (hp : s.phase = .decoding [] ∨ s.phase = .readLogits ∨ s.phase = .writeEmbedding) :
  s.decodeLaunches ≠ 0
  := by
  intro hzero
  obtain ⟨-, -, -, hread, hwrite, hfull⟩ := h.before hzero
  rcases hp with hp | hp | hp
  · obtain ⟨l, ls, heq, -⟩ := decode_launches_eq_cons s offsets
    cases (hfull _ hp).trans heq
  · apply hread hp
  · apply hwrite hp

/-- A step that keeps the entries and the variables, after some launch. -/
theorem of_launched (h : ServerInv seqLen offsets s) (hn : s.decodeLaunches ≠ 0) {p : Phase}
    (hp : ∀ ls, p ≠ .decoding ls) (sampled : List (Option ℕ)) :
  ServerInv seqLen offsets { s with phase := p, sampledFrom := sampled }
  := by
  apply h.of_phase
  · intro ls hls
    exact absurd hls (hp ls)
  · intro hzero
    exact absurd hzero hn

theorem nextStep (h : ServerInv seqLen offsets s) (hn : s.decodeLaunches ≠ 0) :
  ServerInv seqLen offsets s.nextStep
  := by
  constructor
  · change s.curPos + 1 = seqLen + (s.step + 1)
    rw [h.curPos, Nat.add_assoc]
  · change s.curKv + 1 = seqLen + (s.step + 1)
    rw [h.curKv, Nat.add_assoc]
  · intro hzero
    cases hzero
  · intro ls hls
    cases hls
  · intro hzero
    exact absurd hzero hn
  · apply h.after

/-- Every step of the loop preserves the invariant. -/
theorem step (h : ServerInv seqLen offsets s) (hs : ServerStep n offsets s s') :
  ServerInv seqLen offsets s'
  := by
  cases hs with
  | enter hp _ => apply h.enter
  | exit hp _ => apply h.stop (.inl rfl)
  | launch hp => apply h.launch hp
  | decoded hp =>
      apply h.of_launched (h.decodeLaunches_ne_zero (.inl hp))
      intro ls hls
      cases hls
  | sample hp =>
      apply h.of_launched (h.decodeLaunches_ne_zero (.inr (.inl hp)))
      intro ls hls
      cases hls
  | eos hp =>
      apply h.of_launched (h.decodeLaunches_ne_zero (.inr (.inl hp)))
      intro ls hls
      cases hls
  | write hp => apply h.nextStep (h.decodeLaunches_ne_zero (.inr (.inr hp)))
  | failDecode hp => apply h.stop (.inr rfl)
  | failLogits hp => apply h.stop (.inr rfl)
  | failWrite hp => apply h.stop (.inr rfl)

/-- Every reachable state satisfies the invariant. -/
theorem of_reachable (hs : ServerReachable seqLen n offsets s) :
  ServerInv seqLen offsets s
  := by
  induction hs with
  | refl => apply prefilled
  | tail _ hstep ih => apply ih.step hstep

end ServerInv

/-! ### When the loop is consistent -/

section Reachable

variable {seqLen n : ℕ} {offsets : List WeightOffsets} {s : ServerState}

/-- The state after the prefill is consistent. -/
theorem consistent_of_no_launch (h : ServerInv seqLen offsets s) (hzero : s.decodeLaunches = 0) :
  Consistent seqLen s
  := by
  obtain ⟨hstep, hkv, hsampled, -⟩ := h.before hzero
  constructor
  · intro layer hlayer p hp
    rw [h.curKv, hstep, Nat.add_zero] at hp
    rw [hkv, prefilledKv_eq, if_pos ⟨hlayer, hp⟩, sequenceElem, if_pos hp]
  · intro layer p src hsrc
    rw [hkv, prefilledKv_eq] at hsrc
    split_ifs at hsrc with hin
    rw [sequenceElem, if_pos hin.2, Option.some.inj hsrc]
  · intro k from_ hk
    rw [hsampled] at hk
    cases hk

/-- A stale entry after the prompt is not the first sampled token. -/
theorem not_consistent_of_launch (h : ServerInv seqLen offsets s) (hn : s.decodeLaunches ≠ 0) :
  ¬ Consistent seqLen s
  := by
  intro hcons
  have hsrc := hcons.others 0 seqLen .stale (h.after hn)
  rw [sequenceElem, if_neg (Nat.lt_irrefl seqLen)] at hsrc
  cases hsrc

/-- The loop is consistent until its first decode launch, and never after it. -/
theorem consistent_iff (hs : ServerReachable seqLen n offsets s) :
  Consistent seqLen s ↔ s.decodeLaunches = 0
  := by
  have h := ServerInv.of_reachable hs
  constructor
  · intro hcons
    by_contra hn
    apply not_consistent_of_launch h hn hcons
  · intro hzero
    apply consistent_of_no_launch h hzero

end Reachable

/-- The first launch after a prompt of 64 rows. -/
def firstLaunch : ServerState :=
  let s := ServerState.prefilled 64 []
  let call := s.decodeCall.launches []
  { s with phase := .decoding call }.launch (call.head (by decide)) call.tail

theorem firstLaunch_reachable :
  ServerReachable 64 64 [] firstLaunch
  := by
  apply Relation.ReflTransGen.tail
  · apply Relation.ReflTransGen.tail .refl
    apply ServerStep.enter rfl
    decide
  · apply ServerStep.launch
    rfl

theorem consistent_iff_first_launch :
  ServerReachable 64 64 [] firstLaunch
    ∧ (Consistent 64 firstLaunch ↔ firstLaunch.decodeLaunches = 0)
  := ⟨firstLaunch_reachable, consistent_iff firstLaunch_reachable⟩

/-- Position 64 holds a stale row, where the first sampled token belongs. -/
theorem not_consistent_first_launch :
  ∃ s, ServerReachable 64 64 [] s ∧ ¬ Consistent 64 s
  := ⟨firstLaunch, firstLaunch_reachable,
    not_consistent_of_launch (ServerInv.of_reachable firstLaunch_reachable) (by decide)⟩

/-! ### Where the tokens are sampled from -/

/-- The last launch of an iteration computes the logits of its position. -/
theorem decode_last_launch {s : ServerState} {offsets : List WeightOffsets} {l : Launch}
    (hl : [l] <:+ s.decodeCall.launches offsets) :
  l.runLmhead = 1 ∧ l.posStart + (l.seqLen - 1) = s.curPos
  := by
  obtain ⟨ls, hls⟩ := hl
  have hlast : (s.decodeCall.launches offsets).getLast? = some l := by
    rw [← hls, List.getLast?_append, List.getLast?_singleton]
    rfl
  rw [ServerState.decodeCall] at hlast
  split_ifs at hlast
  · obtain rfl := Option.some.inj hlast
    exact ⟨rfl, rfl⟩
  · obtain rfl := Option.some.inj hlast
    exact ⟨rfl, rfl⟩

/-- The `k`-th token is sampled from position `seqLen + k`; `toSample` tells whether the token
of the current iteration is still to be sampled. -/
structure SampleInv (seqLen : ℕ) (s : ServerState) : Prop where
  sampled : ∀ k pos, s.sampledFrom[k]? = some pos → pos = some (seqLen + k)
  toSample : s.phase = .loopHead ∨ s.phase = .readLogits ∨ (∃ ls, s.phase = .decoding ls) →
    s.sampledFrom.length = s.step
  logits : s.phase = .readLogits ∨ s.phase = .decoding [] → s.logits = some s.curPos
  written : s.phase = .writeEmbedding → s.sampledFrom.length = s.step + 1

namespace SampleInv

variable {seqLen n : ℕ} {offsets : List WeightOffsets} {s s' : ServerState}

theorem prefilled :
  SampleInv seqLen (ServerState.prefilled seqLen offsets)
  := by
  constructor
  · intro k pos hk
    cases hk
  · intro _
    rfl
  · rintro (h | h) <;> cases h
  · intro h
    cases h

/-- The loop stops. -/
theorem stop (h : SampleInv seqLen s) {p : Phase} (hp : p = .finished ∨ p = .failed) :
  SampleInv seqLen { s with phase := p }
  := by
  constructor
  · apply h.sampled
  all_goals
    rcases hp with rfl | rfl <;> simp

/-- A token is sampled from the position of its iteration. -/
theorem sample_getElem? (h : SampleInv seqLen s) (hinv : ServerInv seqLen offsets s)
    (hp : s.phase = .readLogits) {k : ℕ} {pos : Option ℕ}
    (hk : (s.sampledFrom ++ [s.logits])[k]? = some pos) :
  pos = some (seqLen + k)
  := by
  rcases Nat.lt_or_ge k s.sampledFrom.length with hlt | hge
  · rw [List.getElem?_append_left hlt] at hk
    apply h.sampled k pos hk
  · rw [List.getElem?_append_right hge, List.getElem?_singleton] at hk
    split_ifs at hk with hlast
    have hlen := h.toSample (.inr (.inl hp))
    rw [← Option.some.inj hk, h.logits (.inl hp), hinv.curPos, ← hlen]
    congr 2
    omega

/-- Every step of the loop preserves where the tokens are sampled from. -/
theorem step (h : SampleInv seqLen s) (hinv : ServerInv seqLen offsets s)
    (hs : ServerStep n offsets s s') :
  SampleInv seqLen s'
  := by
  cases hs with
  | enter hp _ =>
      constructor
      · apply h.sampled
      · intro _
        apply h.toSample (.inl hp)
      · obtain ⟨l, ls, heq, -⟩ := decode_launches_eq_cons s offsets
        rw [heq]
        rintro (hc | hc) <;> cases hc
      · intro hc
        cases hc
  | exit hp _ => apply h.stop (.inl rfl)
  | @launch l pending hp =>
      constructor
      · apply h.sampled
      · intro _
        apply h.toSample (.inr (.inr ⟨_, hp⟩))
      · rintro (hc | hc)
        · cases hc
        · obtain rfl := Phase.decoding.inj hc
          obtain ⟨hlmhead, hpos⟩ := decode_last_launch (hinv.pending _ hp)
          change (if l.runLmhead ≠ 0 then some (l.posStart + (l.seqLen - 1)) else s.logits)
            = some s.curPos
          rw [hlmhead, if_pos Nat.one_ne_zero, hpos]
      · intro hc
        cases hc
  | decoded hp =>
      constructor
      · apply h.sampled
      · intro _
        apply h.toSample (.inr (.inr ⟨_, hp⟩))
      · intro _
        apply h.logits (.inr hp)
      · intro hc
        cases hc
  | sample hp =>
      constructor
      · intro k pos hk
        apply h.sample_getElem? hinv hp hk
      · rintro (hc | hc | ⟨_, hc⟩) <;> cases hc
      · rintro (hc | hc) <;> cases hc
      · intro _
        change (s.sampledFrom ++ [s.logits]).length = s.step + 1
        rw [List.length_append, h.toSample (.inr (.inl hp)), List.length_singleton]
  | eos hp =>
      constructor
      · intro k pos hk
        apply h.sample_getElem? hinv hp hk
      · rintro (hc | hc | ⟨_, hc⟩) <;> cases hc
      · rintro (hc | hc) <;> cases hc
      · intro hc
        cases hc
  | write hp =>
      constructor
      · apply h.sampled
      · intro _
        apply h.written hp
      · rintro (hc | hc) <;> cases hc
      · intro hc
        cases hc
  | failDecode hp => apply h.stop (.inr rfl)
  | failLogits hp => apply h.stop (.inr rfl)
  | failWrite hp => apply h.stop (.inr rfl)

/-- Every token is sampled one position later than the one before it in the sequence. -/
theorem of_reachable (hs : ServerReachable seqLen n offsets s) :
  SampleInv seqLen s
  := by
  induction hs with
  | refl => apply prefilled
  | tail hreach hstep ih => apply ih.step (ServerInv.of_reachable hreach) hstep

end SampleInv

end Kv260
