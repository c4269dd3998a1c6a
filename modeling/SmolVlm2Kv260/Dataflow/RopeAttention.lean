import SmolVlm2Kv260.Kernel.MultiHead
import SmolVlm2Kv260.Process.Network

/-!
# The rotary embedding and the attention

In the dataflow region the loop `SPLIT`, the two `rope_apply_stream`s and
`multi_head_attention` run concurrently.  `SPLIT` passes on all queries of a token before
its first key, while the attention reads keys and values first.  The queries of a token
have to wait somewhere, and the streams between the two do not hold them: the network
always ends in a deadlock.
-/

set_option autoImplicit false

namespace Kv260

open Proc Network Event Blocks

/-! ### The network -/

inductive RopeAttnProc where
  | split
  | ropeQ
  | ropeK
  | mha
  deriving DecidableEq

instance : Fintype RopeAttnProc where
  elems := {.split, .ropeQ, .ropeK, .mha}
  complete p := by cases p <;> decide

/-- The depths of the streams.  The QKV input is always available and the output is always
drained. -/
def ropeAttnDepth : AttnChan → ℕ∞
  | .qPre => fifoD
  | .kPre => fifoD
  | .qRot => fifoAttn
  | .kRot => fifoD
  | .vPass => fifoD
  | _ => ⊤

/-- The processes for `n` tokens before they start, with all of `qkv` on the input. -/
def ropeAttention (curPos kvLen n layerId : ℕ) (st : KvState) (qkv : List ℤ) :
    Network RopeAttnProc AttnChan ℤ where
  proc
    | .split => split .qkvIn .qPre .kPre .vPass n
    | .ropeQ => ropeApplyStream .qPre .qRot curPos hQ n
    | .ropeK => ropeApplyStream .kPre .kRot curPos hKv n
    | .mha => do
        let _ ← multiHeadAttention .qRot .kRot .vPass .attnO curPos kvLen n layerId st
  fifo
    | .qkvIn => qkv
    | _ => []

/-! ### The traces -/

section Trace

variable {ι : Type}

/-- The accesses of a loop that passes on `n` values. -/
def copyTrace (inS outS : ι) (n : ℕ) : List (Event ι) :=
  (List.range n).flatMap fun _ => [.rd inS, .wr outS]

theorem mem_copyTrace {inS outS : ι} {n : ℕ} {e : Event ι} (he : e ∈ copyTrace inS outS n) :
  e = .rd inS ∨ e = .wr outS
  := by
  simp only [copyTrace, List.mem_flatMap, List.mem_cons, List.not_mem_nil, or_false] at he
  obtain ⟨_, -, he⟩ := he
  apply he

theorem count_copyTrace [DecidableEq ι] (inS outS : ι) (n : ℕ) :
  (copyTrace inS outS n).count (.wr outS) = n
  := by
  simp [copyTrace, List.count_flatMap, Function.comp_def]

/-- The accesses of `SPLIT`. -/
def splitTrace (qkvIn qPre kPre vOut : ι) (nTokens : ℕ) : List (Event ι) :=
  (List.range nTokens).flatMap fun _ =>
    copyTrace qkvIn qPre (hQ * dHead)
      ++ (copyTrace qkvIn kPre (hKv * dHead) ++ copyTrace qkvIn vOut (hKv * dHead))

theorem follows_split (qkvIn qPre kPre vOut : ι) (nTokens : ℕ) :
  (split qkvIn qPre kPre vOut nTokens).Follows (splitTrace qkvIn qPre kPre vOut nTokens)
  := by
  apply follows_forEach
  intro _ _
  apply (follows_forEach_copy qkvIn qPre _).bind
  intro _
  apply (follows_forEach_copy qkvIn kPre _).bind
  intro _
  apply follows_forEach_copy

/-- The accesses of `rope_apply_stream` for one head. -/
def ropeHeadTrace (inS outS : ι) : List (Event ι) :=
  List.replicate dHead (.rd inS) ++ List.replicate dHead (.wr outS)

/-- The accesses of `rope_apply_stream`. -/
def ropeTrace (inS outS : ι) (nHeads nTokens : ℕ) : List (Event ι) :=
  (List.range nTokens).flatMap fun _ =>
    (List.range nHeads).flatMap fun _ => ropeHeadTrace inS outS

theorem follows_ropeApplyStream (inS outS : ι) (posStart nHeads nTokens : ℕ) :
  (ropeApplyStream inS outS posStart nHeads nTokens).Follows (ropeTrace inS outS nHeads nTokens)
  := by
  apply follows_forEach
  intro _ _
  apply follows_forEach
  intro _ _
  apply (follows_readVec inS dHead).bind
  intro vec
  apply follows_forEach_send

/-- The accesses of `kv_cache_write`. -/
def kvWriteTrace (kS vS : ι) (nTokens : ℕ) : List (Event ι) :=
  (List.range nTokens).flatMap fun _ =>
    (List.range dHead).flatMap fun _ => [.rd kS, .rd vS]

theorem follows_kvCacheWrite (kS vS : ι) (curPos nTokens layerId headId : ℕ) (bank : Fin 2)
    (st : KvState) :
  (kvCacheWrite kS vS curPos nTokens layerId headId bank st).Follows
    (kvWriteTrace kS vS nTokens)
  := by
  unfold kvCacheWrite kvWriteTrace
  apply follows_forLoop
  intro t _ st
  rw [← List.append_nil (List.flatMap _ _)]
  apply (follows_readPairs kS vS dHead).bind
  intro _
  apply follows_ret

/-- The accesses of `flash_attention_head`. -/
def flashTrace (qS oS : ι) (qLen : ℕ) : List (Event ι) :=
  (List.range (tileCount qTile qLen)).flatMap fun qt =>
    List.replicate (tileLen qTile qLen qt * gqaRatio * dHead) (.rd qS)
      ++ (List.range (tileLen qTile qLen qt * gqaRatio)).flatMap fun _ =>
        List.replicate dHead (.wr oS)

theorem follows_flashAttentionHeadWith (attend : KVCacheHead → ℕ → List ℤ → ℕ → ℤ) (qS oS : ι)
    (bank : KVCacheHead) (kvLen qLen : ℕ) :
  (flashAttentionHeadWith attend qS oS bank kvLen qLen).Follows (flashTrace qS oS qLen)
  := by
  apply follows_forEach
  intro qt _
  apply (follows_readRows qS dHead _).bind
  intro qBuf
  apply follows_forEach
  intro q _
  apply follows_forEach_send

/-- The accesses of `multi_head_attention`. -/
def mhaTrace (qS kS vS oS : ι) (qLen : ℕ) : List (Event ι) :=
  (List.range hKv).flatMap fun _ => kvWriteTrace kS vS qLen ++ flashTrace qS oS qLen

theorem follows_multiHeadAttention (qS kS vS oS : ι) (curPos kvLen qLen layerId : ℕ)
    (st : KvState) :
  (do let _ ← multiHeadAttention qS kS vS oS curPos kvLen qLen layerId st : Proc ι ℤ Unit).Follows
    (mhaTrace qS kS vS oS qLen)
  := by
  have hheads : (mhaHeadsWith flashRow qS kS vS oS curPos kvLen qLen layerId hKv st).Follows
      (mhaTrace qS kS vS oS qLen) := by
    apply follows_forLoop
    intro h _ s
    apply (follows_kvCacheWrite kS vS curPos qLen layerId h s.2 _).bind
    intro st
    rw [← List.append_nil (flashTrace qS oS qLen)]
    apply (follows_flashAttentionHeadWith flashRow qS oS _ kvLen qLen).bind
    intro _
    apply follows_ret
  rw [← List.append_nil (mhaTrace qS kS vS oS qLen)]
  rw [← List.append_nil (mhaTrace qS kS vS oS qLen)]
  apply Follows.bind
  · apply hheads.bind
    intro s
    apply follows_ret
  · intro _
    apply follows_ret

/-- The first access of the attention is to read a key. -/
theorem mhaTrace_eq_cons (qS kS vS oS : ι) {qLen : ℕ} (h : 1 ≤ qLen) :
  ∃ L, mhaTrace qS kS vS oS qLen = .rd kS :: L
  := by
  apply flatMap_range_eq_cons (by decide)
  have hvec : ∃ L, (List.range dHead).flatMap (fun _ => [Event.rd kS, .rd vS]) = .rd kS :: L :=
    flatMap_range_eq_cons (by decide) ⟨_, rfl⟩
  have hwrite : ∃ L, kvWriteTrace kS vS qLen = .rd kS :: L := flatMap_range_eq_cons h hvec
  obtain ⟨L, hL⟩ := hwrite
  rw [hL]
  exact ⟨_, rfl⟩

end Trace

/-- The traces of the four processes. -/
def ropeAttnTrace (n : ℕ) : RopeAttnProc → List (Event AttnChan)
  | .split => splitTrace .qkvIn .qPre .kPre .vPass n
  | .ropeQ => ropeTrace .qPre .qRot hQ n
  | .ropeK => ropeTrace .kPre .kRot hKv n
  | .mha => mhaTrace .qRot .kRot .vPass .attnO n

section Network

variable (curPos kvLen n layerId : ℕ) (st : KvState) (qkv : List ℤ)

theorem follows_ropeAttention (p : RopeAttnProc) :
  ((ropeAttention curPos kvLen n layerId st qkv).proc p).Follows (ropeAttnTrace n p)
  := by
  cases p with
  | split => apply follows_split
  | ropeQ => apply follows_ropeApplyStream
  | ropeK => apply follows_ropeApplyStream
  | mha => apply follows_multiHeadAttention

/-- The process that performs an access. -/
def performer : Event AttnChan → Option RopeAttnProc
  | .rd .qkvIn => some .split
  | .wr .qPre => some .split
  | .wr .kPre => some .split
  | .wr .vPass => some .split
  | .rd .qPre => some .ropeQ
  | .wr .qRot => some .ropeQ
  | .rd .kPre => some .ropeK
  | .wr .kRot => some .ropeK
  | .rd .qRot => some .mha
  | .rd .kRot => some .mha
  | .rd .vPass => some .mha
  | .wr .attnO => some .mha
  | _ => none

theorem performer_of_mem {n : ℕ} {p : RopeAttnProc} {e : Event AttnChan}
    (he : e ∈ ropeAttnTrace n p) :
  performer e = some p
  := by
  cases p with
  | split =>
      simp only [ropeAttnTrace, splitTrace, List.mem_flatMap, List.mem_append] at he
      obtain ⟨_, -, he | he | he⟩ := he
      all_goals
        obtain rfl | rfl := mem_copyTrace he <;> rfl
  | ropeQ =>
      simp only [ropeAttnTrace, ropeTrace, ropeHeadTrace, List.mem_flatMap, List.mem_append,
        List.mem_replicate] at he
      obtain ⟨_, -, _, -, ⟨-, rfl⟩ | ⟨-, rfl⟩⟩ := he <;> rfl
  | ropeK =>
      simp only [ropeAttnTrace, ropeTrace, ropeHeadTrace, List.mem_flatMap, List.mem_append,
        List.mem_replicate] at he
      obtain ⟨_, -, _, -, ⟨-, rfl⟩ | ⟨-, rfl⟩⟩ := he <;> rfl
  | mha =>
      simp only [ropeAttnTrace, mhaTrace, kvWriteTrace, flashTrace, List.mem_flatMap,
        List.mem_append, List.mem_replicate, List.mem_cons, List.not_mem_nil, or_false] at he
      obtain ⟨_, -, ⟨_, -, _, -, rfl | rfl⟩ | ⟨_, -, ⟨-, rfl⟩ | ⟨_, -, -, rfl⟩⟩⟩ := he <;> rfl

/-- A cut of the network. -/
abbrev RopeAttnCut (done left : RopeAttnProc → List (Event AttnChan))
    (s : Network RopeAttnProc AttnChan ℤ) : Prop :=
  Cut ropeAttnDepth (ropeAttention curPos kvLen n layerId st qkv) (ropeAttnTrace n) done left s

variable {curPos kvLen n layerId st qkv}
variable {done left : RopeAttnProc → List (Event AttnChan)}
variable {s : Network RopeAttnProc AttnChan ℤ}

/-- What is in a stream between two processes has been written and not been read. -/
theorem length_stream (h : RopeAttnCut curPos kvLen n layerId st qkv done left s) {c : AttnChan}
    {r w : RopeAttnProc} (hr : performer (.rd c) = some r) (hw : performer (.wr c) = some w) :
  (s.fifo c).length + (done r).count (.rd c) = (done w).count (.wr c)
  := by
  have hother : ∀ {e : Event AttnChan} {q : RopeAttnProc}, performer e = some q →
      ∀ p, p ≠ q → (ropeAttnTrace n p).count e = 0 := by
    intro e q hq p hp
    apply List.count_eq_zero_of_not_mem
    intro he
    apply hp
    rw [performer_of_mem he] at hq
    apply Option.some.inj hq
  have hempty : (ropeAttention curPos kvLen n layerId st qkv).fifo c = [] := by
    cases c <;> first | rfl | cases hw
  have hbalance := h.balance_of (hother hr) (hother hw)
  rw [hempty, List.length_nil, Nat.zero_add] at hbalance
  apply hbalance

/-- A stream holds at most as many values as it is deep. -/
theorem length_le_depth (h : RopeAttnCut curPos kvLen n layerId st qkv done left s)
    {c : AttnChan} {k : ℕ} (hw : performer (.wr c) ≠ none) (hk : ropeAttnDepth c = k) :
  (s.fifo c).length ≤ k
  := by
  have hempty : (ropeAttention curPos kvLen n layerId st qkv).fifo c = [] := by
    cases c <;> first | rfl | cases hw rfl
  have hdepth := h.depth c
  rw [hempty, hk] at hdepth
  have hzero : max ((([] : List ℤ).length : ℕ) : ℕ∞) k = k := max_eq_right (by simp)
  rw [hzero] at hdepth
  exact_mod_cast hdepth

/-! ### The first key -/

theorem count_ropeHeadTrace {ι : Type} [DecidableEq ι] (inS outS : ι) :
  (ropeHeadTrace inS outS).count (.rd inS) = dHead
    ∧ (ropeHeadTrace inS outS).count (.wr outS) = dHead
  := by
  simp [ropeHeadTrace, List.count_append, List.count_replicate]

/-- A rotated value has been read before. -/
theorem prefixBound_rotated {ι : Type} [DecidableEq ι] (inS outS : ι) (nHeads nTokens : ℕ) :
  PrefixBound (.wr outS) (.rd inS) 1 0 (ropeTrace inS outS nHeads nTokens)
  := by
  obtain ⟨hrd, hwr⟩ := count_ropeHeadTrace inS outS
  have hhead : PrefixBound (.wr outS) (.rd inS) 1 0 (ropeHeadTrace inS outS) := by
    apply PrefixBound.append (c := dHead)
    · apply prefixBound_of_count_le
      simp [List.count_replicate]
    · simp [List.count_replicate]
    · apply prefixBound_of_count_le
      simp
  have htoken := PrefixBound.flatMap_range (n := nHeads) (fun _ _ => hhead) fun _ _ => by
    rw [hrd, hwr, Nat.one_mul]
  apply (PrefixBound.flatMap_range (fun _ _ => htoken.1) fun _ _ => htoken.2).1

/-- All values read but those of one head have been written. -/
theorem prefixBound_read {ι : Type} [DecidableEq ι] (inS outS : ι) (nHeads nTokens : ℕ) :
  PrefixBound (.rd inS) (.wr outS) 1 dHead (ropeTrace inS outS nHeads nTokens)
  := by
  obtain ⟨hrd, hwr⟩ := count_ropeHeadTrace inS outS
  have hhead : PrefixBound (.rd inS) (.wr outS) 1 dHead (ropeHeadTrace inS outS) := by
    apply prefixBound_of_count_le
    rw [hrd]
  have htoken := PrefixBound.flatMap_range (n := nHeads) (fun _ _ => hhead) fun _ _ => by
    rw [hrd, hwr, Nat.one_mul]
  apply (PrefixBound.flatMap_range (fun _ _ => htoken.1) fun _ _ => htoken.2).1

/-- `SPLIT` has passed on all queries of a token when it writes its first key. -/
theorem queries_before_key (h : RopeAttnCut curPos kvLen n layerId st qkv done left s)
    (hk : 0 < (done .split).count (.wr .kPre)) :
  hQ * dHead ≤ (done .split).count (.wr .qPre)
  := by
  cases n with
  | zero =>
      have hle := h.count_le .split (.wr .kPre)
      exact absurd hk (Nat.not_lt.mpr hle)
  | succ n =>
      rcases h.within_or_past (p := .split) (A := copyTrace .qkvIn .qPre (hQ * dHead))
          (by
            rw [ropeAttnTrace, splitTrace, List.range_succ_eq_map, List.flatMap_cons,
              List.append_assoc]) with ⟨e, L, hA, -⟩ | ⟨D, hdone, -⟩
      · exfalso
        have hmem : Event.wr AttnChan.kPre ∈ copyTrace AttnChan.qkvIn .qPre (hQ * dHead) := by
          rw [hA]
          apply List.mem_append_left _ (List.count_pos_iff.mp hk)
        rcases mem_copyTrace hmem with heq | heq <;> cases heq
      · rw [hdone, List.count_append, count_copyTrace]
        apply Nat.le_add_right

/-- The attention never reads its first key: the queries of the first token do not fit into
the streams. -/
theorem mha_waits (hs : Reachable ropeAttnDepth (ropeAttention curPos kvLen n layerId st qkv) s)
    (hn : 1 ≤ n) :
  ∃ done left, RopeAttnCut curPos kvLen n layerId st qkv done left s ∧ done .mha = []
  := by
  apply Reachable.cut_invariant (I := fun done => done .mha = [])
    (follows_ropeAttention curPos kvLen n layerId st qkv) rfl _ hs
  intro s done left p e L h hI hL he
  cases p with
  | mha =>
      exfalso
      obtain ⟨T, hT⟩ := mhaTrace_eq_cons AttnChan.qRot .kRot .vPass .attnO hn
      have hsplit := h.split .mha
      rw [hI, hL, ropeAttnTrace, hT, List.nil_append] at hsplit
      obtain ⟨rfl, -⟩ := List.cons.inj hsplit
      have hkRot := length_stream h (c := .kRot) (r := .mha) (w := .ropeK) rfl rfl
      have hkPre := length_stream h (c := .kPre) (r := .ropeK) (w := .split) rfl rfl
      have hqPre := length_stream h (c := .qPre) (r := .ropeQ) (w := .split) rfl rfl
      have hqRot := length_stream h (c := .qRot) (r := .mha) (w := .ropeQ) rfl rfl
      have hqPreDepth := length_le_depth h (c := .qPre) (by decide) rfl
      have hqRotDepth := length_le_depth h (c := .qRot) (by decide) rfl
      have hkBound := prefixBound_rotated AttnChan.kPre .kRot hKv n _ (h.done_prefix .ropeK)
      have hqBound := prefixBound_read AttnChan.qPre .qRot hQ n _ (h.done_prefix .ropeQ)
      have hkey := List.length_pos_of_ne_nil he
      rw [hI, List.count_nil, Nat.add_zero] at hkRot hqRot
      have hqueries := queries_before_key h (by omega)
      change 15 * 64 ≤ _ at hqueries
      change _ ≤ 16 at hqPreDepth
      change _ ≤ 64 at hqRotDepth
      change _ ≤ 1 * _ + 64 at hqBound
      omega
  | _ =>
      rw [Function.update_of_ne (by decide)]
      apply hI

end Network

section Deadlock

variable {n : ℕ} (curPos kvLen layerId : ℕ) (st : KvState) (qkv : List ℤ)

/-- For any number of tokens, a schedule ends with the attention waiting for its first key. -/
theorem exists_mha_deadlock (hn : 1 ≤ n) :
  ∃ s, Reachable ropeAttnDepth (ropeAttention curPos kvLen n layerId st qkv) s
    ∧ Deadlock ropeAttnDepth s
  := by
  obtain ⟨s, hs, hblocked⟩ :=
    exists_blocked ropeAttnDepth (follows_ropeAttention curPos kvLen n layerId st qkv)
  obtain ⟨done, left, h, hI⟩ := mha_waits hs hn
  use s, hs
  constructor
  · use .mha
    intro hfin
    have hsplit := h.split .mha
    obtain ⟨L, hL⟩ := mhaTrace_eq_cons AttnChan.qRot .kRot .vPass .attnO hn
    rw [h.finished_iff.mp hfin, hI, ropeAttnTrace, hL] at hsplit
    cases hsplit
  · intro p _
    apply hblocked

/-- Whatever the tokens, the rotary embedding and the attention are not free of deadlocks. -/
theorem ropeAttention_not_deadlockFree (hn : 1 ≤ n) :
  ¬ DeadlockFree ropeAttnDepth (ropeAttention curPos kvLen n layerId st qkv)
  := by
  intro hfree
  obtain ⟨s, hs, hdead⟩ := exists_mha_deadlock curPos kvLen layerId st qkv hn
  apply hfree s hs hdead

theorem ropeAttention_not_deadlockFree_prefill_tile :
  1 ≤ 32 ∧ ¬ DeadlockFree ropeAttnDepth
    (ropeAttention 0 32 32 0 KvState.init (List.replicate (32 * nQkv) 0))
  := ⟨by decide, ropeAttention_not_deadlockFree 0 32 0 KvState.init _ (by decide)⟩

theorem ropeAttention_deadlock_one_token :
  ∃ s, Reachable ropeAttnDepth
      (ropeAttention 0 1 1 0 KvState.init (List.replicate (1 * nQkv) 0)) s
    ∧ Deadlock ropeAttnDepth s
  := exists_mha_deadlock 0 1 0 KvState.init _ (le_refl 1)

end Deadlock

end Kv260
