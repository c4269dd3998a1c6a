import SmolVlm2Kv260.Host.DecodeStep
import SmolVlm2Kv260.Host.Server
import SmolVlm2Kv260.Kernel.KvStore

/-!
# The sequence limit

The prefill and `write_decode_token_activation` compare with the limit, but a decode launch
runs before the embedding of its token is written.  So the launch at the limit is refused by
nobody: it comes after the write at the last position, or at once after a full prompt.
`host_driver` writes no embeddings at all, and its `decode` does not compare either.
-/

set_option autoImplicit false

namespace Kv260

/-! ### The positions of a launch -/

/-- The positions whose entries a launch reads from the cache, or writes to it. -/
def Launch.cachePositions (l : Launch) : ℕ := l.curPos + l.workTokenCount

/-- The half words of a launch lie in the slice of their own layer and head, and its packs
lie in the bank. -/
structure Launch.KvInBounds (l : Launch) : Prop where
  cache : ∀ h < hKv, ∀ p < l.cachePositions, ∀ g < dHead / grp,
    headBase l.layerId h ≤ cacheIndex l.layerId h p g
      ∧ cacheIndex l.layerId h p g < headBase l.layerId h + maxSeq * (dHead / grp)
  bank : ∀ p, p < l.cachePositions ∨ p < l.kvLen → ∀ g < dHead / grp,
    bufIdx p g < maxSeq * (dHead / grp)

/-- Positions below `MAX_SEQ` have their half words and packs. -/
theorem Launch.kvInBounds_of_le {l : Launch} (hcache : l.cachePositions ≤ maxSeq)
    (hkv : l.kvLen ≤ maxSeq) :
  l.KvInBounds
  := by
  have hbank : ∀ p < maxSeq, ∀ g < dHead / grp, bufIdx p g < maxSeq * (dHead / grp) := by
    intro p hp g hg
    change g < 2 at hg
    change p < 2048 at hp
    change p * 2 + g < 2048 * 2
    omega
  constructor
  · intro head _ p hp g hg
    rw [cacheIndex_eq]
    constructor
    · apply Nat.le_add_right
    · apply Nat.add_lt_add_left (hbank p (hp.trans_le hcache) g hg)
  · intro p hp g hg
    apply hbank p _ g hg
    rcases hp with hp | hp
    · apply hp.trans_le hcache
    · apply hp.trans_le hkv

/-- The launch stays below the limit of the hardware. -/
structure Launch.WithinLimit (l : Launch) : Prop where
  positions : l.posStart + l.workTokenCount ≤ hwMaxSeq
  kv : l.KvInBounds

/-- A launch for one token at `pos`, which attends to the entries up to its own. -/
def Launch.DecodesAt (l : Launch) (pos : ℕ) : Prop :=
  l.posStart = pos ∧ l.workTokenOffset = 0 ∧ l.workTokenCount = 1 ∧ l.kvLen = pos + 1

theorem withinLimit_iff {l : Launch} {pos : ℕ} (h : l.DecodesAt pos) :
  l.WithinLimit ↔ pos < hwMaxSeq
  := by
  obtain ⟨hstart, hoffset, hcount, hlen⟩ := h
  constructor
  · intro hlimit
    have hle := hlimit.positions
    rw [hstart, hcount] at hle
    apply hle
  · intro hpos
    have hcache : l.cachePositions = pos + 1 := by
      rw [Launch.cachePositions, Launch.curPos, hstart, hoffset, hcount, Nat.add_zero]
    constructor
    · rw [hstart, hcount]
      apply hpos
    · apply Launch.kvInBounds_of_le
      · rw [hcache]
        apply hpos
      · rw [hlen]
        apply hpos

/-- Every launch of a decode step is one for one token at its position. -/
theorem decodesAt_of_mem {call : RunnerCall} {pos : ℕ} (hcall : call ∈ decodeStepCalls pos pos)
    {offsets : List WeightOffsets} {l : Launch} (hl : l ∈ call.launches offsets) :
  l.DecodesAt pos
  := by
  obtain ⟨layer, -, tile, ht, rfl⟩ := RunnerCall.mem_launches.mp hl
  rcases List.mem_pair.mp hcall with rfl | rfl
  · exact ⟨rfl, rfl, rfl, rfl⟩
  · exact ⟨rfl, rfl, rfl, rfl⟩

/-- A decode step launches something. -/
theorem exists_mem_launches {call : RunnerCall} {pos : ℕ}
    (hcall : call ∈ decodeStepCalls pos pos) (offsets : List WeightOffsets) :
  ∃ l, l ∈ call.launches offsets
  := by
  obtain ⟨l, hl, -⟩ := exists_first_launch hcall offsets
  use l
  apply List.mem_of_mem_head? hl

/-! ### The loop of the server -/

/-- A step of the loop, where the embedding of a token is written for the accepted positions
only. -/
inductive SessionStep (maxSeq n : ℕ) (offsets : List WeightOffsets) :
    ServerState → ServerState → Prop where
  | other {s s' : ServerState} : ServerStep n offsets s s' → s.phase ≠ .writeEmbedding →
      SessionStep maxSeq n offsets s s'
  | write {s : ServerState} {e : ℕ → BitVec 8} {actPing written : FpgaBuffer} :
      s.phase = .writeEmbedding →
      writeDecodeTokenActivation maxSeq s.curPos (some e) C actPing = .ok written →
      SessionStep maxSeq n offsets s s.nextStep
  | failWrite {s : ServerState} : s.phase = .writeEmbedding →
      SessionStep maxSeq n offsets s { s with phase := .failed }

/-- The states of the loop of a session with `max_seq` rows, after a prompt of `seqLen`
rows. -/
def SessionReachable (maxSeq seqLen n : ℕ) (offsets : List WeightOffsets) (s : ServerState) :
    Prop :=
  Relation.ReflTransGen (SessionStep maxSeq n offsets) (ServerState.prefilled seqLen offsets) s

/-- `write_decode_token_activation` accepts the positions of the session. -/
theorem writeDecodeTokenActivation_isOk_iff {maxSeq pos : ℕ} (e : ℕ → BitVec 8)
    (actPing : FpgaBuffer) :
  (∃ written, writeDecodeTokenActivation maxSeq pos (some e) C actPing = .ok written)
    ↔ pos < maxSeq
  := by
  constructor
  · rintro ⟨written, h⟩
    rw [writeDecodeTokenActivation] at h
    split_ifs at h with hrefused
    omega
  · intro h
    exact ⟨_, writeDecodeTokenActivation_ok actPing e pos h (le_refl C)⟩

section Session

variable {maxSeq seqLen n : ℕ} {offsets : List WeightOffsets} {s s' : ServerState}

/-- The steps of a session are steps of the loop. -/
theorem SessionStep.serverStep (h : SessionStep maxSeq n offsets s s') :
  ServerStep n offsets s s'
  := by
  cases h with
  | other h _ => apply h
  | write hp _ => apply ServerStep.write hp
  | failWrite hp => apply ServerStep.failWrite hp

theorem SessionReachable.serverReachable (h : SessionReachable maxSeq seqLen n offsets s) :
  ServerReachable seqLen n offsets s
  := by
  induction h with
  | refl => apply Relation.ReflTransGen.refl
  | tail _ hstep ih => apply ih.tail hstep.serverStep

/-- The position of the loop is accepted by the session, or the one after the last, and an
iteration is one of the first `n`. -/
structure LimitInv (maxSeq n : ℕ) (s : ServerState) : Prop where
  curPos : s.curPos ≤ maxSeq
  step : (∃ ls, s.phase = .decoding ls) → s.step < n

/-- A step that leaves the launches of an iteration. -/
theorem LimitInv.of_phase (h : LimitInv maxSeq n s) {p : Phase} (hp : ∀ ls, p ≠ .decoding ls)
    (sampled : List (Option ℕ)) :
  LimitInv maxSeq n { s with phase := p, sampledFrom := sampled }
  := by
  constructor
  · apply h.curPos
  · rintro ⟨ls, hls⟩
    exact absurd hls (hp ls)

/-- Every step of a session preserves the bounds. -/
theorem LimitInv.step_session (h : LimitInv maxSeq n s) (hs : SessionStep maxSeq n offsets s s') :
  LimitInv maxSeq n s'
  := by
  cases hs with
  | write hp hwrite =>
      constructor
      · apply (writeDecodeTokenActivation_isOk_iff _ _).mp ⟨_, hwrite⟩
      · rintro ⟨ls, hls⟩
        cases hls
  | failWrite hp => apply h.of_phase fun ls hls => Phase.noConfusion hls
  | other hs hne =>
      cases hs with
      | enter hp hlt => exact ⟨h.curPos, fun _ => hlt⟩
      | launch hp => exact ⟨h.curPos, fun _ => h.step ⟨_, hp⟩⟩
      | write hp => exact absurd hp hne
      | exit hp _ => apply h.of_phase fun ls hls => Phase.noConfusion hls
      | decoded hp => apply h.of_phase fun ls hls => Phase.noConfusion hls
      | sample hp => apply h.of_phase fun ls hls => Phase.noConfusion hls
      | eos hp => apply h.of_phase fun ls hls => Phase.noConfusion hls
      | failDecode hp => apply h.of_phase fun ls hls => Phase.noConfusion hls
      | failLogits hp => apply h.of_phase fun ls hls => Phase.noConfusion hls
      | failWrite hp => exact absurd hp hne

theorem LimitInv.of_reachable (hseq : seqLen ≤ maxSeq)
    (hs : SessionReachable maxSeq seqLen n offsets s) :
  LimitInv maxSeq n s
  := by
  induction hs with
  | refl =>
      constructor
      · apply hseq
      · rintro ⟨ls, hls⟩
        cases hls
  | tail _ hstep ih => apply ih.step_session hstep

/-- The launches of an iteration are those of a decode step at its position. -/
theorem decodesAt_of_pending (hs : SessionReachable maxSeq seqLen n offsets s) {l : Launch}
    {pending : List Launch} (hp : s.phase = .decoding (l :: pending)) :
  l.DecodesAt (seqLen + s.step)
  := by
  have h := ServerInv.of_reachable hs.serverReachable
  have hmem : l ∈ s.decodeCall.launches offsets := (h.pending _ hp).subset List.mem_cons_self
  rw [ServerState.decodeCall, h.curPos, h.curKv] at hmem
  split_ifs at hmem
  · apply decodesAt_of_mem List.mem_cons_self hmem
  · apply decodesAt_of_mem (List.mem_cons_of_mem _ List.mem_cons_self) hmem

/-! ### Runs up to the limit -/

/-- The launches of an iteration can all be done. -/
theorem reachable_launched {pending : List Launch}
    (hs : SessionReachable maxSeq seqLen n offsets s) (hp : s.phase = .decoding pending) :
  ∃ s', SessionReachable maxSeq seqLen n offsets s' ∧ s'.phase = .decoding []
    ∧ s'.step = s.step
  := by
  induction pending generalizing s with
  | nil => exact ⟨s, hs, hp, rfl⟩
  | cons l pending ih =>
      have hne : s.phase ≠ .writeEmbedding := by
        rw [hp]
        intro h
        cases h
      have hnext := Relation.ReflTransGen.tail hs (.other (.launch hp) hne)
      obtain ⟨s', hs', hp', hstep⟩ := ih hnext rfl
      exact ⟨s', hs', hp', hstep⟩

/-- A state at the beginning of an iteration below the limit is followed by the beginning of
the next one. -/
theorem reachable_next (hs : SessionReachable maxSeq seqLen n offsets s)
    (hp : s.phase = .loopHead) (hstep : s.step < n) (hpos : seqLen + s.step < maxSeq) :
  ∃ s', SessionReachable maxSeq seqLen n offsets s' ∧ s'.phase = .loopHead
    ∧ s'.step = s.step + 1
  := by
  have hhead : s.phase ≠ .writeEmbedding := by
    rw [hp]
    intro h
    cases h
  have hentered := Relation.ReflTransGen.tail hs (.other (.enter hp hstep) hhead)
  obtain ⟨s₁, hs₁, hp₁, hstep₁⟩ := reachable_launched hentered rfl
  have hdecoding : s₁.phase ≠ .writeEmbedding := by
    rw [hp₁]
    intro h
    cases h
  have hread := Relation.ReflTransGen.tail hs₁ (.other (.decoded hp₁) hdecoding)
  have hreading : Phase.readLogits ≠ .writeEmbedding := by
    intro h
    cases h
  have hsampled := Relation.ReflTransGen.tail hread (.other (.sample rfl) hreading)
  have hcur : s₁.curPos < maxSeq := by
    rw [(ServerInv.of_reachable (SessionReachable.serverReachable hs₁)).curPos, hstep₁]
    apply hpos
  have hwrite := writeDecodeTokenActivation_ok ⟨fun _ => 0, fun _ => 0⟩ (fun _ => 0) s₁.curPos
    hcur (le_refl C)
  refine ⟨_, Relation.ReflTransGen.tail hsampled (.write rfl hwrite), rfl, ?_⟩
  change s₁.step + 1 = s.step + 1
  rw [hstep₁]

/-- The loop can reach every iteration whose position the session has. -/
theorem exists_reachable_loopHead (offsets : List WeightOffsets) {k : ℕ} (hk : k ≤ n)
    (hpos : seqLen + k ≤ maxSeq) :
  ∃ s, SessionReachable maxSeq seqLen n offsets s ∧ s.phase = .loopHead ∧ s.step = k
  := by
  induction k with
  | zero => exact ⟨_, .refl, rfl, rfl⟩
  | succ k ih =>
      obtain ⟨s, hs, hp, hstep⟩ := ih (Nat.le_of_succ_le hk) (Nat.le_of_succ_le hpos)
      rw [← hstep] at hk hpos ⊢
      apply reachable_next hs hp hk hpos

/-- An iteration at `max_seq` launches there. -/
theorem exists_launch_at_limit (offsets : List WeightOffsets) (hseq : seqLen ≤ maxSeq)
    (hn : maxSeq < seqLen + n) :
  ∃ s, SessionReachable maxSeq seqLen n offsets s
    ∧ ∃ l pending, s.phase = .decoding (l :: pending) ∧ l.DecodesAt maxSeq
  := by
  have hk : maxSeq - seqLen ≤ n := by omega
  have hpos : seqLen + (maxSeq - seqLen) ≤ maxSeq := by omega
  obtain ⟨s, hs, hp, hstep⟩ := exists_reachable_loopHead offsets hk hpos
  have hhead : s.phase ≠ .writeEmbedding := by
    rw [hp]
    intro h
    cases h
  have hlt : s.step < n := by omega
  have hentered := Relation.ReflTransGen.tail hs (.other (.enter hp hlt) hhead)
  obtain ⟨l, ls, heq, -⟩ := decode_launches_eq_cons s offsets
  have hphase : Phase.decoding (s.decodeCall.launches offsets) = .decoding (l :: ls) := by
    rw [heq]
  have hat := decodesAt_of_pending hentered hphase
  refine ⟨_, hentered, l, ls, hphase, ?_⟩
  rw [show maxSeq = seqLen + s.step by omega]
  apply hat

/-- The launches of every run stay below the limit when the session is smaller than the
hardware, or when the prompt and the new tokens fit together. -/
theorem session_withinLimit_iff (hmax : maxSeq ≤ hwMaxSeq) (hseq : seqLen ≤ maxSeq) :
  (∀ s, SessionReachable maxSeq seqLen n offsets s →
      ∀ l pending, s.phase = .decoding (l :: pending) → l.WithinLimit)
    ↔ maxSeq < hwMaxSeq ∨ seqLen + n ≤ hwMaxSeq
  := by
  constructor
  · intro h
    by_contra! hfull
    obtain ⟨hle, hn⟩ := hfull
    obtain ⟨s, hs, l, pending, hp, hat⟩ := exists_launch_at_limit offsets hseq (hmax.trans_lt hn)
    have hlt := (withinLimit_iff hat).mp (h s hs l pending hp)
    apply Nat.lt_irrefl maxSeq (hlt.trans_le hle)
  · intro h s hs l pending hp
    apply (withinLimit_iff (decodesAt_of_pending hs hp)).mpr
    have hinv := LimitInv.of_reachable hseq hs
    have hstep := hinv.step ⟨_, hp⟩
    have hpos := hinv.curPos
    rw [(ServerInv.of_reachable hs.serverReachable).curPos] at hpos
    omega

end Session

/-! ### The loop of the host driver -/

namespace HostDriver

/-- `MODEL_MAX_SEQ`. -/
abbrev modelMaxSeq : ℕ := 8192

/-- `enforce_hw_seq_limit`, on the number of rows of a prompt. -/
def enforceHwSeqLimit (totalTokens : ℕ) : Except String Unit :=
  if hwMaxSeq < totalTokens then
    .error ("requested token count " ++ toString totalTokens ++ " exceeds hw_max_seq="
      ++ toString hwMaxSeq ++ " while model_max_seq=" ++ toString modelMaxSeq)
  else .ok ()

/-- The iterations of `decode` that are left: their launches, until the sampled token is the
end of the sequence. -/
def decodeFrom (offsets : List WeightOffsets) (sample : ℕ → ℤ) :
    (left step curPos curKv : ℕ) → List Launch
  | 0, _, _, _ => []
  | left + 1, step, curPos, curKv =>
      let call : RunnerCall :=
        if step = 0 then .decodeTtftToken curPos curKv
        else .decodeThroughputWindow curPos curKv 1
      call.launches offsets
        ++ if sample step = 2 then []
          else decodeFrom offsets sample left (step + 1) (curPos + 1) (curKv + 1)

/-- `decode`: its launches, when the sampled tokens are those of `sample`. -/
def decode (offsets : List WeightOffsets) (promptLen : ℕ) (maxNewTokens : ℤ)
    (sample : ℕ → ℤ) : List Launch :=
  decodeFrom offsets sample maxNewTokens.toNat 0 promptLen promptLen

section Decode

variable {offsets : List WeightOffsets} {sample : ℕ → ℤ}

/-- The launches of `decode` are those of decode steps at the positions of its iterations. -/
theorem mem_decodeFrom {left step pos : ℕ} {l : Launch}
    (hl : l ∈ decodeFrom offsets sample left step pos pos) :
  ∃ k < left, ∃ call ∈ decodeStepCalls (pos + k) (pos + k), l ∈ call.launches offsets
  := by
  induction left generalizing step pos with
  | zero => cases hl
  | succ left ih =>
      rcases List.mem_append.mp hl with hmem | hmem
      · refine ⟨0, Nat.succ_pos left, _, ?_, hmem⟩
        split_ifs
        · apply List.mem_cons_self
        · apply List.mem_cons_of_mem _ List.mem_cons_self
      · split_ifs at hmem
        · cases hmem
        · obtain ⟨k, hk, call, hcall, hcl⟩ := ih hmem
          rw [Nat.add_assoc, Nat.add_comm 1] at hcall
          exact ⟨k + 1, Nat.succ_lt_succ hk, call, hcall, hcl⟩

theorem decodesAt_of_mem_decodeFrom {left step pos : ℕ} {l : Launch}
    (hl : l ∈ decodeFrom offsets sample left step pos pos) :
  ∃ k < left, l.DecodesAt (pos + k)
  := by
  obtain ⟨k, hk, call, hcall, hcl⟩ := mem_decodeFrom hl
  exact ⟨k, hk, decodesAt_of_mem hcall hcl⟩

/-- Without the end of the sequence, every iteration launches. -/
theorem exists_mem_decodeFrom (offsets : List WeightOffsets) (hsample : ∀ k, sample k ≠ 2)
    {left k : ℕ} (hk : k < left) (step pos : ℕ) :
  ∃ l ∈ decodeFrom offsets sample left step pos pos, l.DecodesAt (pos + k)
  := by
  induction left generalizing step pos k with
  | zero => cases hk
  | succ left ih =>
      rcases k with _ | k
      · have hcall : (if step = 0 then RunnerCall.decodeTtftToken pos pos
            else .decodeThroughputWindow pos pos 1) ∈ decodeStepCalls pos pos := by
          split_ifs
          · apply List.mem_cons_self
          · apply List.mem_cons_of_mem _ List.mem_cons_self
        obtain ⟨l, hl⟩ := exists_mem_launches hcall offsets
        exact ⟨l, List.mem_append_left _ hl, decodesAt_of_mem hcall hl⟩
      · obtain ⟨l, hl, hat⟩ := ih (Nat.lt_of_succ_lt_succ hk) (step + 1) (pos + 1)
        refine ⟨l, List.mem_append_right _ ?_, ?_⟩
        · rw [if_neg (hsample step)]
          apply hl
        · rw [← Nat.add_assoc, Nat.add_right_comm]
          apply hat

/-- Whatever is sampled, the launches stay below the limit when the prompt and the new tokens
fit together. -/
theorem decode_withinLimit_iff {promptLen : ℕ} {maxNewTokens : ℤ}
    (hprompt : promptLen ≤ hwMaxSeq) :
  (∀ sample, ∀ l ∈ decode offsets promptLen maxNewTokens sample, l.WithinLimit)
    ↔ promptLen + maxNewTokens.toNat ≤ hwMaxSeq
  := by
  constructor
  · intro h
    by_contra! hfull
    have hk : hwMaxSeq - promptLen < maxNewTokens.toNat := by omega
    have hsample : ∀ k : ℕ, (fun _ : ℕ => (0 : ℤ)) k ≠ 2 :=
      fun _ => (by decide : (0 : ℤ) ≠ 2)
    obtain ⟨l, hl, hat⟩ := exists_mem_decodeFrom offsets hsample hk 0 promptLen
    have hlt := (withinLimit_iff hat).mp (h _ l hl)
    omega
  · intro h sample l hl
    obtain ⟨k, hk, hat⟩ := decodesAt_of_mem_decodeFrom hl
    apply (withinLimit_iff hat).mpr
    omega

end Decode

end HostDriver

/-! ### Both loops -/

/-- The accepted prompts of a session. -/
theorem le_of_runPrefillThroughput {maxSeq seqLen : ℕ} (hint : seqLen < 2 ^ 31)
    {offsets : List WeightOffsets} {ls : List Launch}
    (h : runPrefillThroughput maxSeq seqLen offsets = .ok ls) :
  seqLen ≤ maxSeq
  := by
  rw [runPrefillThroughput] at h
  split_ifs at h with hrefused
  rw [Int.emod_eq_of_lt (Int.natCast_nonneg seqLen) (by omega), Int.toNat_natCast] at hrefused
  apply Nat.le_of_not_lt hrefused

theorem le_of_enforceHwSeqLimit {promptLen : ℕ}
    (h : HostDriver.enforceHwSeqLimit promptLen = .ok ()) :
  promptLen ≤ hwMaxSeq
  := by
  rw [HostDriver.enforceHwSeqLimit] at h
  split_ifs at h with hrefused
  apply Nat.le_of_not_lt hrefused

/-- After an accepted prompt, the decode launches of the server stay below the limit in every
run when the session is smaller than the hardware or the prompt and `n_predict` fit together;
those of the host driver do whatever is sampled when the prompt and `max_new_tokens` fit
together. -/
theorem decode_launches_withinLimit_iff {maxSeq seqLen promptLen : ℕ}
    {offsets : List WeightOffsets} {ls : List Launch} (hmax : maxSeq ≤ hwMaxSeq)
    (hint : seqLen < 2 ^ 31) (haccept : runPrefillThroughput maxSeq seqLen offsets = .ok ls)
    (hprompt : HostDriver.enforceHwSeqLimit promptLen = .ok ())
    (requested base maxNewTokens : ℤ) :
  ((∀ s, SessionReachable maxSeq seqLen (nPredict requested base) offsets s →
      ∀ l pending, s.phase = .decoding (l :: pending) → l.WithinLimit)
    ↔ maxSeq < hwMaxSeq ∨ seqLen + nPredict requested base ≤ hwMaxSeq)
  ∧ ((∀ sample, ∀ l ∈ HostDriver.decode offsets promptLen maxNewTokens sample, l.WithinLimit)
    ↔ promptLen + maxNewTokens.toNat ≤ hwMaxSeq)
  := by
  constructor
  · apply session_withinLimit_iff hmax (le_of_runPrefillThroughput hint haccept)
  · apply HostDriver.decode_withinLimit_iff (le_of_enforceHwSeqLimit hprompt)

/-- The offsets of 32 layers, one after the other. -/
def HostDriver.layers : List WeightOffsets :=
  (List.range numLayers).map fun layer => ⟨layer * 76800, layer * 9600⟩

theorem decode_launches_withinLimit_full :
  (2048 ≤ hwMaxSeq ∧ 2048 < 2 ^ 31 ∧ HostDriver.enforceHwSeqLimit 2048 = .ok ())
  ∧ ((∀ s, SessionReachable 2048 2048 (nPredict 16 0) HostDriver.layers s →
      ∀ l pending, s.phase = .decoding (l :: pending) → l.WithinLimit)
    ↔ 2048 < hwMaxSeq ∨ 2048 + nPredict 16 0 ≤ hwMaxSeq)
  ∧ ((∀ sample, ∀ l ∈ HostDriver.decode HostDriver.layers 2048 128 sample, l.WithinLimit)
    ↔ 2048 + (128 : ℤ).toNat ≤ hwMaxSeq)
  := ⟨⟨le_refl _, by decide, rfl⟩,
    decode_launches_withinLimit_iff (le_refl _) (by decide) rfl rfl 16 0 128⟩

/-- After a prompt of 2048 rows, both loops launch at position 2048. -/
theorem decode_launches_not_withinLimit_full :
  (∃ ls, runPrefillThroughput hwMaxSeq 2048 HostDriver.layers = .ok ls)
    ∧ (∃ s, SessionReachable hwMaxSeq 2048 (nPredict 16 0) HostDriver.layers s
      ∧ ∃ l pending, s.phase = .decoding (l :: pending) ∧ ¬ l.WithinLimit)
    ∧ HostDriver.enforceHwSeqLimit 2048 = .ok ()
    ∧ ∃ l ∈ HostDriver.decode HostDriver.layers 2048 128 (fun _ => 0), ¬ l.WithinLimit
  := by
  have houtside : ∀ l : Launch, l.DecodesAt 2048 → ¬ l.WithinLimit := by
    intro l hat hlimit
    apply Nat.lt_irrefl 2048 ((withinLimit_iff hat).mp hlimit)
  refine ⟨⟨_, rfl⟩, ?_, rfl, ?_⟩
  · obtain ⟨s, hs, l, pending, hp, hat⟩ := exists_launch_at_limit (n := nPredict 16 0)
      HostDriver.layers (le_refl hwMaxSeq) (by decide)
    exact ⟨s, hs, l, pending, hp, houtside l hat⟩
  · have hsample : ∀ k : ℕ, (fun _ : ℕ => (0 : ℤ)) k ≠ 2 :=
      fun _ => (by decide : (0 : ℤ) ≠ 2)
    obtain ⟨l, hl, hat⟩ := HostDriver.exists_mem_decodeFrom HostDriver.layers hsample
      (by decide : 0 < (128 : ℤ).toNat) 0 2048
    exact ⟨l, hl, houtside l hat⟩

end Kv260
