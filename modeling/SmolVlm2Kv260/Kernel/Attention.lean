import SmolVlm2Kv260.Kernel.KvCache

/-!
# Flash attention of one head

`flash_attention_head` of `attention.h`: the three query heads of a KV head, in tiles of
`QT` tokens, against the bank of that head, in tiles of `KVT` positions.

The accumulator of the output is assigned

    O_tile[q][d] = (INT43)O_tile[q][d] * rescale >> 15 + (INT43)p * vval;

where `+` binds tighter than `>>`: the product is shifted by `15 + p * vval`.  Nothing is
ever added to the accumulator, which starts at zero, so every output is zero.
-/

set_option autoImplicit false

namespace Kv260

open Proc Blocks

/-- Query heads for each KV head. -/
abbrev gqaRatio : ℕ := hQ / hKv

/-! ### One query -/

/-- `x >> c` for an `ap_int<w>` and a signed count: a negative count shifts left. -/
def apShr (w : ℕ) (x c : ℤ) : ℤ :=
  if c < 0 then apInt w (x * 2 ^ (-c).toNat) else x >>> c.toNat

/-- The value in dimension `d` at position `pos`: a nibble, offset by 8. -/
def dequantNibble (pack : ℕ → BitVec 128) (pos d : ℕ) : ℤ :=
  let nib : ℤ := ((pack (bufIdx pos (d / grp))).extractLsb' (d % grp * 4) 4).toNat
  apInt 8 (apInt 5 nib - 8)

/-- The nibble stored for dimension `d` at position `pos`. -/
def storedNibble (pack : ℕ → BitVec 128) (pos d : ℕ) : ℤ :=
  ((pack (bufIdx pos (d / grp))).extractLsb' (d % grp * 4) 4).toNat

/-- The score of a query against the key at position `pos`. -/
def score (kPack : ℕ → BitVec 128) (qRow : List ℤ) (pos : ℕ) : ℤ :=
  (List.range dHead).foldl (fun dot d =>
    apInt 32 (dot + apInt 32 (apInt 16 (qRow.getD d 0) * dequantNibble kPack pos d))) 0 >>> (3 : ℕ)

/-- The state of a query between KV tiles: the maximal score, the denominator and the
accumulated output. -/
structure QueryState where
  m : ℤ
  l : ℤ
  o : ℕ → ℤ

def QueryState.init : QueryState := ⟨-32767, 0, fun _ => 0⟩

/-- One position in the loop `SOFTMAX`. -/
def softmaxStep (bank : KVCacheHead) (qRow : List ℤ) (mNew rescale : ℤ) (pos : ℕ)
    (s : ℤ × (ℕ → ℤ)) : ℤ × (ℕ → ℤ) :=
  let p := approxExpQ15 (apInt 32 (score bank.kPack qRow pos - mNew))
  -- the shift count is `15 + p * vval`
  (apInt 32 (s.1 + p), fun d =>
    apInt 43 (apShr 59 (s.2 d * rescale) (15 + p * dequantNibble bank.vPack pos d)))

/-- The positions of a KV tile. -/
def tilePositions (kvLen kvt : ℕ) : List ℕ :=
  (List.range (tileLen kvTile kvLen kvt)).map fun kv => kvt * kvTile + kv

/-- The largest score of a query in a KV tile. -/
def maxScore (kPack : ℕ → BitVec 128) (qRow : List ℤ) (positions : List ℕ) : ℤ :=
  positions.foldl (fun sMax pos =>
    if score kPack qRow pos > sMax then score kPack qRow pos else sMax) (-32767)

/-- One KV tile for one query. -/
def kvTileStep (bank : KVCacheHead) (kvLen : ℕ) (qRow : List ℤ) (st : QueryState) (kvt : ℕ) :
    QueryState :=
  let positions := tilePositions kvLen kvt
  let sMax := maxScore bank.kPack qRow positions
  let mNew := if st.m > sMax then st.m else sMax
  let rescale := approxExpQ15 (apInt 32 (st.m - mNew))
  let lNew := apInt 32 ((st.l * rescale) >>> (15 : ℕ))
  let r := positions.foldl (fun s pos => softmaxStep bank qRow mNew rescale pos s) (lNew, st.o)
  ⟨mNew, r.1, r.2⟩

/-- A query after all KV tiles.  A tile is processed for one query after the other, and each
of them only touches its own state; so a query is followed on its own. -/
def flashQuery (bank : KVCacheHead) (kvLen : ℕ) (qRow : List ℤ) : QueryState :=
  (List.range (tileCount kvTile kvLen)).foldl (kvTileStep bank kvLen qRow) QueryState.init

/-- The output of a query in dimension `d`. -/
def flashRow (bank : KVCacheHead) (kvLen : ℕ) (qRow : List ℤ) (d : ℕ) : ℤ :=
  let st := flashQuery bank kvLen qRow
  if st.l > 0 then apInt 32 ((st.o d).tdiv st.l) else 0

/-! ### The process -/

section Processes

variable {ι : Type}

/-- The loops of `flash_attention_head`, with `attend` as the output of a query. -/
def flashAttentionHeadWith (attend : KVCacheHead → ℕ → List ℤ → ℕ → ℤ) (qS oS : ι)
    (bank : KVCacheHead) (kvLen qLen : ℕ) : Proc ι ℤ Unit :=
  forEach (tileCount qTile qLen) fun qt => do
    let rows := tileLen qTile qLen qt * gqaRatio
    let qBuf ← readRows qS dHead rows
    forEach rows fun q =>
      forEach dHead fun d => send oS (attend bank kvLen (qBuf.getD q []) d)

/-- `flash_attention_head`. -/
def flashAttentionHead (qS oS : ι) (bank : KVCacheHead) (kvLen qLen : ℕ) : Proc ι ℤ Unit :=
  flashAttentionHeadWith flashRow qS oS bank kvLen qLen

/-- The queries of all tokens, tile by tile. -/
theorem flatMap_query_tiles {α : Type} (qLen : ℕ) (f : ℕ → List α) :
  ((List.range (tileCount qTile qLen)).flatMap fun qt =>
      (List.range (tileLen qTile qLen qt * gqaRatio)).flatMap fun q =>
        f (qt * qTile * gqaRatio + q))
    = (List.range (qLen * gqaRatio)).flatMap f
  := by
  have htiles := flatMap_tiles qTile_pos qLen fun t =>
    (List.range gqaRatio).flatMap fun j => f (t * gqaRatio + j)
  rw [flatMap_range_mul] at htiles
  rw [← htiles]
  congr 1
  funext qt
  rw [← flatMap_range_mul]
  simp only [Nat.add_mul, Nat.add_assoc]

/-- The queries of a token are read one after the other, and so are their outputs written. -/
theorem transfers_flashAttentionHeadWith [DecidableEq ι]
    (attend : KVCacheHead → ℕ → List ℤ → ℕ → ℤ) {qS oS : ι} (hne : qS ≠ oS)
    (bank : KVCacheHead) (kvLen qLen : ℕ) {row : ℕ → List ℤ}
    (hrow : ∀ i, (row i).length = dHead) :
  Transfers (flashAttentionHeadWith attend qS oS bank kvLen qLen) qS oS
    ((List.range (qLen * gqaRatio)).flatMap row)
    ((List.range (qLen * gqaRatio)).flatMap fun i =>
      (List.range dHead).map (attend bank kvLen (row i)))
  := by
  rw [← flatMap_query_tiles, ← flatMap_query_tiles]
  apply transfers_forEach hne
  intro qt _
  rw [List.flatMap_def]
  apply transfers_readRows hne
  · rw [List.length_map, List.length_range]
  · simp only [List.mem_map]
    rintro _ ⟨q, -, rfl⟩
    apply hrow
  · apply emits_forEach
    intro q hq
    rw [List.getD_eq_getElem?_getD, List.getElem?_map, List.getElem?_range hq, Option.map_some,
      Option.getD_some]
    apply emits_forEach_send

end Processes

/-! ### The output is zero -/

theorem apShr_zero (w : ℕ) (c : ℤ) :
  apShr (w + 1) 0 c = 0
  := by
  rw [apShr]
  split
  · rw [Int.zero_mul, apInt_succ_zero]
  · rw [Int.zero_shiftRight]

/-- A position leaves an accumulator of zero at zero. -/
theorem softmaxStep_zero (bank : KVCacheHead) (qRow : List ℤ) (mNew rescale : ℤ) (pos : ℕ)
    {s : ℤ × (ℕ → ℤ)} (hs : s.2 = fun _ => 0) :
  (softmaxStep bank qRow mNew rescale pos s).2 = fun _ => 0
  := by
  funext d
  simp only [softmaxStep, hs, Int.zero_mul]
  rw [apShr_zero, apInt_succ_zero]

theorem softmax_zero (bank : KVCacheHead) (qRow : List ℤ) (mNew rescale : ℤ)
    (positions : List ℕ) {s : ℤ × (ℕ → ℤ)} (hs : s.2 = fun _ => 0) :
  (positions.foldl (fun s pos => softmaxStep bank qRow mNew rescale pos s) s).2 = fun _ => 0
  := by
  induction positions generalizing s with
  | nil => apply hs
  | cons pos positions ih =>
      apply ih
      apply softmaxStep_zero bank qRow mNew rescale pos hs

theorem flashQuery_o (bank : KVCacheHead) (kvLen : ℕ) (qRow : List ℤ) :
  (flashQuery bank kvLen qRow).o = fun _ => 0
  := by
  have hfold : ∀ (tiles : List ℕ) (st : QueryState), (st.o = fun _ => 0) →
      ((tiles.foldl (kvTileStep bank kvLen qRow) st).o = fun _ => 0) := by
    intro tiles
    induction tiles with
    | nil =>
        intro st hst
        apply hst
    | cons kvt tiles ih =>
        intro st hst
        apply ih
        apply softmax_zero
        apply hst
  apply hfold
  rfl

/-- Every output of the attention is zero. -/
theorem flashRow_eq_zero (bank : KVCacheHead) (kvLen : ℕ) (qRow : List ℤ) (d : ℕ) :
  flashRow bank kvLen qRow d = 0
  := by
  simp only [flashRow, flashQuery_o, Int.zero_tdiv, apInt_succ_zero]
  split <;> rfl

/-! ### The positions that are read -/

/-- The positions of the bank that `flash_attention_head` reads, in the order of its loops. -/
def flashReads (kvLen qLen : ℕ) : List ℕ :=
  (List.range (tileCount qTile qLen)).flatMap fun qt =>
    (List.range (tileCount kvTile kvLen)).flatMap fun kvt =>
      (List.range (tileLen qTile qLen qt * gqaRatio)).flatMap fun _ => tilePositions kvLen kvt

/-- With a query, all positions below `kvLen` are read, and no others. -/
theorem mem_flashReads {kvLen qLen p : ℕ} :
  p ∈ flashReads kvLen qLen ↔ 1 ≤ qLen ∧ p < kvLen
  := by
  rw [lt_iff_exists_tile (n := kvLen) kvTile_pos]
  simp only [flashReads, tilePositions, List.mem_flatMap, List.mem_map, List.mem_range]
  constructor
  · rintro ⟨qt, hqt, kvt, hkvt, _, _, kv, hkv, hp⟩
    constructor
    · have h := lt_of_lt_tileCount qTile_pos hqt
      omega
    · use kvt, hkvt, kv, hkv
  · rintro ⟨hq, kvt, hkvt, kv, hkv, hp⟩
    have hqt : 0 < tileCount qTile qLen := by
      simp only [tileCount, qTile]
      omega
    have hlen : 0 < tileLen qTile qLen 0 := by
      simp only [tileLen, qTile]
      split <;> omega
    use 0, hqt, kvt, hkvt, 0, Nat.mul_pos hlen (by decide), kv, hkv

/-- Two banks hold the same packs for a position. -/
def KVCacheHead.AgreesAt (bank bank' : KVCacheHead) (p : ℕ) : Prop :=
  ∀ g < dHead / grp, bank.kPack (bufIdx p g) = bank'.kPack (bufIdx p g)
    ∧ bank.vPack (bufIdx p g) = bank'.vPack (bufIdx p g)

theorem dequantNibble_congr {pack pack' : ℕ → BitVec 128} {pos : ℕ}
    (h : ∀ g < dHead / grp, pack (bufIdx pos g) = pack' (bufIdx pos g)) {d : ℕ} (hd : d < dHead) :
  dequantNibble pack pos d = dequantNibble pack' pos d
  := by
  simp only [dequantNibble, h (d / grp) (Nat.div_lt_of_lt_mul hd)]

theorem score_congr {bank bank' : KVCacheHead} {pos : ℕ} (h : bank.AgreesAt bank' pos)
    (qRow : List ℤ) :
  score bank.kPack qRow pos = score bank'.kPack qRow pos
  := by
  have hstep : ∀ (dot : ℤ), ∀ d ∈ List.range dHead,
      apInt 32 (dot + apInt 32 (apInt 16 (qRow.getD d 0) * dequantNibble bank.kPack pos d))
        = apInt 32
          (dot + apInt 32 (apInt 16 (qRow.getD d 0) * dequantNibble bank'.kPack pos d)) := by
    intro dot d hd
    rw [dequantNibble_congr (fun g hg => (h g hg).1) (List.mem_range.mp hd)]
  rw [score, score, List.foldl_ext _ _ 0 hstep]

theorem maxScore_congr {kPack kPack' : ℕ → BitVec 128} {qRow : List ℤ} {positions : List ℕ}
    (h : ∀ pos ∈ positions, score kPack qRow pos = score kPack' qRow pos) :
  maxScore kPack qRow positions = maxScore kPack' qRow positions
  := by
  apply List.foldl_ext
  intro sMax pos hpos
  rw [h pos hpos]

/-- The denominator does not depend on the accumulator. -/
theorem softmax_l (bank : KVCacheHead) (qRow : List ℤ) (mNew rescale : ℤ)
    (positions : List ℕ) (s : ℤ × (ℕ → ℤ)) :
  (positions.foldl (fun s pos => softmaxStep bank qRow mNew rescale pos s) s).1
    = positions.foldl (fun l pos =>
        apInt 32 (l + approxExpQ15 (apInt 32 (score bank.kPack qRow pos - mNew)))) s.1
  := by
  induction positions generalizing s with
  | nil => rfl
  | cons pos positions ih => apply ih

/-- Maximum and denominator after a tile depend on those before and on the positions of the
tile. -/
theorem kvTileStep_congr {bank bank' : KVCacheHead} {kvLen : ℕ}
    (h : ∀ p < kvLen, bank.AgreesAt bank' p) (qRow : List ℤ) {st st' : QueryState}
    (hm : st.m = st'.m) (hl : st.l = st'.l) (kvt : ℕ) :
  (kvTileStep bank kvLen qRow st kvt).m = (kvTileStep bank' kvLen qRow st' kvt).m
    ∧ (kvTileStep bank kvLen qRow st kvt).l = (kvTileStep bank' kvLen qRow st' kvt).l
  := by
  have hscore : ∀ pos ∈ tilePositions kvLen kvt,
      score bank.kPack qRow pos = score bank'.kPack qRow pos := by
    simp only [tilePositions, List.mem_map, List.mem_range]
    rintro _ ⟨kv, hkv, rfl⟩
    apply score_congr (h _ (tile_lt hkv))
  constructor
  · simp only [kvTileStep, hm, maxScore_congr hscore]
  · simp only [kvTileStep, softmax_l, hm, hl, maxScore_congr hscore]
    apply List.foldl_ext
    intro l pos hpos
    rw [hscore pos hpos]

/-- A query depends only on the positions that are read. -/
theorem flashQuery_congr {bank bank' : KVCacheHead} {kvLen : ℕ}
    (h : ∀ p < kvLen, bank.AgreesAt bank' p) (qRow : List ℤ) :
  flashQuery bank kvLen qRow = flashQuery bank' kvLen qRow
  := by
  have hfold : ∀ (tiles : List ℕ) (st st' : QueryState), st.m = st'.m → st.l = st'.l →
      (tiles.foldl (kvTileStep bank kvLen qRow) st).m
          = (tiles.foldl (kvTileStep bank' kvLen qRow) st').m
        ∧ (tiles.foldl (kvTileStep bank kvLen qRow) st).l
          = (tiles.foldl (kvTileStep bank' kvLen qRow) st').l := by
    intro tiles
    induction tiles with
    | nil =>
        intro st st' hm hl
        exact ⟨hm, hl⟩
    | cons kvt tiles ih =>
        intro st st' hm hl
        obtain ⟨hm', hl'⟩ := kvTileStep_congr h qRow hm hl kvt
        apply ih _ _ hm' hl'
  obtain ⟨hm, hl⟩ := hfold (List.range (tileCount kvTile kvLen)) .init .init rfl rfl
  have ho := (flashQuery_o bank kvLen qRow).trans (flashQuery_o bank' kvLen qRow).symm
  rw [flashQuery, flashQuery] at ho ⊢
  rcases hst : List.foldl (kvTileStep bank kvLen qRow) .init _ with ⟨m, l, o⟩
  rcases hst' : List.foldl (kvTileStep bank' kvLen qRow) .init _ with ⟨m', l', o'⟩
  rw [hst, hst'] at hm hl ho
  cases hm
  cases hl
  cases ho
  rfl

/-! ### Causality -/

/-- The streams of `flash_attention_head`. -/
inductive FlashChan where
  | q
  | o
  deriving DecidableEq

/-- The streams before the attention starts. -/
def flashStore (queries : List ℤ) : Store FlashChan ℤ
  | .q => queries
  | .o => []

/-- The values on the output stream for the `i`-th query token. -/
def tokenOutputs (out : List ℤ) (i : ℕ) : List ℤ :=
  (out.drop (i * (gqaRatio * dHead))).take (gqaRatio * dHead)

/-- On any stream of queries, `flash_attention_head` writes `qLen * 3 * 64` zeros. -/
theorem run_flashAttentionHead (kvLen qLen : ℕ) (q : ℕ → ℤ) (bank : KVCacheHead) :
  ∃ τ, (flashAttentionHead .q .o bank kvLen qLen).run
      (flashStore ((List.range (qLen * gqaRatio * dHead)).map q)) = some ((), τ)
    ∧ τ .o = List.replicate (qLen * gqaRatio * dHead) 0
  := by
  have hrow : ∀ i, ((List.range dHead).map fun d => q (i * dHead + d)).length = dHead := by
    intro i
    rw [List.length_map, List.length_range]
  have htransfers := transfers_flashAttentionHeadWith flashRow (show FlashChan.q ≠ .o by decide)
    bank kvLen qLen hrow
  rw [map_range_mul] at htransfers
  have hrun := htransfers (flashStore _) [] (List.append_nil _).symm
  refine ⟨_, hrun, ?_⟩
  rw [Function.update_self, flashStore, List.nil_append]
  apply List.eq_replicate_iff.mpr
  constructor
  · apply length_flatMap_range
    intro i _
    rw [List.length_map, List.length_range]
  · simp only [List.mem_flatMap, List.mem_map, flashRow_eq_zero]
    rintro _ ⟨_, _, _, _, rfl⟩
    rfl

/-- No query depends on a later position: when two banks agree on the positions up to that
of the `i`-th query token, the outputs for this token are the same. -/
theorem flashAttentionHead_causal (kvLen qLen i : ℕ) (q : ℕ → ℤ) (bank bank' : KVCacheHead) :
  1 ≤ qLen → qLen ≤ kvLen → i < qLen → (∀ p ≤ kvLen - qLen + i, bank.AgreesAt bank' p) →
  ∃ τ τ', (flashAttentionHead .q .o bank kvLen qLen).run
      (flashStore ((List.range (qLen * gqaRatio * dHead)).map q)) = some ((), τ)
    ∧ (flashAttentionHead .q .o bank' kvLen qLen).run
      (flashStore ((List.range (qLen * gqaRatio * dHead)).map q)) = some ((), τ')
    ∧ (tokenOutputs (τ .o) i).length = gqaRatio * dHead
    ∧ tokenOutputs (τ .o) i = tokenOutputs (τ' .o) i
  := by
  intro _ _ hi _
  obtain ⟨τ, hτ, hout⟩ := run_flashAttentionHead kvLen qLen q bank
  obtain ⟨τ', hτ', hout'⟩ := run_flashAttentionHead kvLen qLen q bank'
  use τ, τ', hτ, hτ'
  rw [hout, hout']
  constructor
  · rw [tokenOutputs, List.length_take, List.length_drop, List.length_replicate, Nat.mul_assoc,
      ← Nat.sub_mul]
    apply Nat.min_eq_left
    apply Nat.le_mul_of_pos_left
    apply Nat.sub_pos_of_lt hi
  · rfl

/-- A bank whose packs are zero at the positions below `p`, and `value` from there on. -/
def bankFrom (p : ℕ) (value : BitVec 128) : KVCacheHead where
  kPack c := if c < bufIdx p 0 then 0 else value
  vPack c := if c < bufIdx p 0 then 0 else value

/-- The first of two query tokens, against banks that differ at the second position. -/
theorem flashAttentionHead_causal_two_tokens :
  ∃ τ τ', (flashAttentionHead .q .o (bankFrom 1 0) 2 2).run
      (flashStore ((List.range (2 * gqaRatio * dHead)).map fun _ => 1)) = some ((), τ)
    ∧ (flashAttentionHead .q .o (bankFrom 1 1) 2 2).run
      (flashStore ((List.range (2 * gqaRatio * dHead)).map fun _ => 1)) = some ((), τ')
    ∧ (tokenOutputs (τ .o) 0).length = gqaRatio * dHead
    ∧ tokenOutputs (τ .o) 0 = tokenOutputs (τ' .o) 0
  := by
  apply flashAttentionHead_causal 2 2 0 (fun _ => 1) (bankFrom 1 0) (bankFrom 1 1)
    (by decide) (by decide) (by decide)
  intro p hp g hg
  change g < 2 at hg
  have hcell : bufIdx p g < bufIdx 1 0 := by
    rw [bufIdx_eq, bufIdx_eq]
    omega
  simp only [bankFrom, hcell, if_true, and_self]

end Kv260
