import SmolVlm2Kv260.Kernel.Attention
import SmolVlm2Kv260.Kernel.Rope

/-!
# Multi-head attention

`multi_head_attention` of `attention.h` goes through the KV heads.  For each of them it
loads the positions before `curPos` from the cache into a bank, quantises the keys and
values of the new positions into the bank and the cache, and runs the attention of the head
against the bank; then it changes the bank.
-/

set_option autoImplicit false

namespace Kv260

open Proc Blocks

/-! ### The process -/

section Processes

variable {ι : Type}

/-- What happens to a head before its attention: its bank is loaded and written. -/
def loadWriteHead (kS vS : ι) (curPos qLen layerId h : ℕ) (bank : Fin 2) (st : KvState) :
    Proc ι ℤ KvState :=
  let st := if 0 < curPos then kvCacheLoadHead curPos layerId h bank st else st
  kvCacheWrite kS vS curPos qLen layerId h bank st

/-- One iteration over the KV heads, with `attend` as the output of a query. -/
def mhaHeadWith (attend : KVCacheHead → ℕ → List ℤ → ℕ → ℤ) (qS kS vS oS : ι)
    (curPos kvLen qLen layerId h : ℕ) (s : KvState × Fin 2) : Proc ι ℤ (KvState × Fin 2) := do
  let st ← loadWriteHead kS vS curPos qLen layerId h s.2 s.1
  flashAttentionHeadWith attend qS oS (st.kvBuf s.2) kvLen qLen
  return (st, s.2 + 1)

/-- The first `n` iterations. -/
def mhaHeadsWith (attend : KVCacheHead → ℕ → List ℤ → ℕ → ℤ) (qS kS vS oS : ι)
    (curPos kvLen qLen layerId n : ℕ) (st : KvState) : Proc ι ℤ (KvState × Fin 2) :=
  forLoop n (st, 0) (mhaHeadWith attend qS kS vS oS curPos kvLen qLen layerId)

/-- The loops of `multi_head_attention`, with `attend` as the output of a query. -/
def multiHeadAttentionWith (attend : KVCacheHead → ℕ → List ℤ → ℕ → ℤ) (qS kS vS oS : ι)
    (curPos kvLen qLen layerId : ℕ) (st : KvState) : Proc ι ℤ KvState := do
  let s ← mhaHeadsWith attend qS kS vS oS curPos kvLen qLen layerId hKv st
  return s.1

/-- `multi_head_attention`. -/
def multiHeadAttention (qS kS vS oS : ι) (curPos kvLen qLen layerId : ℕ) (st : KvState) :
    Proc ι ℤ KvState :=
  multiHeadAttentionWith flashRow qS kS vS oS curPos kvLen qLen layerId st

/-- `multi_head_attention` up to the attention of head `h`. -/
def mhaUntilFlash (qS kS vS oS : ι) (curPos kvLen qLen layerId h : ℕ) (st : KvState) :
    Proc ι ℤ KvState := do
  let s ← mhaHeadsWith flashRow qS kS vS oS curPos kvLen qLen layerId h st
  loadWriteHead kS vS curPos qLen layerId h s.2 s.1

/-- `o_scatter`. -/
def oScatter (oHeadS oFlatS : ι) (seqLen : ℕ) : Proc ι ℤ Unit :=
  forEach seqLen fun _ =>
    forEach (hQ * dHead) fun _ => recv oHeadS >>= send oFlatS

end Processes

/-! ### The streams -/

/-- The streams from the QKV projection to the O projection. -/
inductive AttnChan where
  | qkvIn
  | qPre
  | kPre
  | qRot
  | kRot
  | vPass
  | attnO
  | oFlat
  deriving DecidableEq

/-- The contents of these streams. -/
structure AttnStreams where
  qkvIn : List ℤ := []
  qPre : List ℤ := []
  kPre : List ℤ := []
  qRot : List ℤ := []
  kRot : List ℤ := []
  vPass : List ℤ := []
  attnO : List ℤ := []
  oFlat : List ℤ := []

namespace AttnStreams

def store (s : AttnStreams) : Store AttnChan ℤ
  | .qkvIn => s.qkvIn
  | .qPre => s.qPre
  | .kPre => s.kPre
  | .qRot => s.qRot
  | .kRot => s.kRot
  | .vPass => s.vPass
  | .attnO => s.attnO
  | .oFlat => s.oFlat

/-- The contents with one stream replaced. -/
def set (s : AttnStreams) (c : AttnChan) (xs : List ℤ) : AttnStreams :=
  match c with
  | .qkvIn => { s with qkvIn := xs }
  | .qPre => { s with qPre := xs }
  | .kPre => { s with kPre := xs }
  | .qRot => { s with qRot := xs }
  | .kRot => { s with kRot := xs }
  | .vPass => { s with vPass := xs }
  | .attnO => { s with attnO := xs }
  | .oFlat => { s with oFlat := xs }

theorem update_store (s : AttnStreams) (c : AttnChan) (xs : List ℤ) :
  Function.update s.store c xs = (s.set c xs).store
  := by
  funext d
  cases c <;> cases d <;> rfl

end AttnStreams

/-! ### What a launch does to the cache -/

section Heads

variable (curPos qLen layerId : ℕ) (kVec vVec : ℕ → List ℤ)

/-- The state when the attention of head `h` starts: the bank is loaded and the heads
`kVec t` and `vVec t` of the new tokens are written. -/
def preparedHead (h : ℕ) (bank : Fin 2) (kVec vVec : ℕ → List ℤ) (st : KvState) : KvState where
  k := st.k.prepare curPos layerId h bank kVec qLen
  v := st.v.prepare curPos layerId h bank vVec qLen

/-- The bank of head `h`. -/
def headBank (h : ℕ) : Fin 2 := Fin.ofNat 2 h

/-- The state after the first heads, when the `i`-th keys and values on the streams are
`kVec i` and `vVec i`: head `h` takes those from `h * qLen` on. -/
def stateAfterHeads (st : KvState) : ℕ → KvState
  | 0 => st
  | h + 1 => preparedHead curPos qLen layerId h (headBank h) (fun t => kVec (h * qLen + t))
      (fun t => vVec (h * qLen + t)) (stateAfterHeads st h)

/-- The outputs of the first heads, when the `i`-th query on the stream is `row i`: head `h`
takes those from `h * (qLen * 3)` on. -/
def headOutputs (attend : KVCacheHead → ℕ → List ℤ → ℕ → ℤ) (kvLen : ℕ) (st : KvState)
    (row : ℕ → List ℤ) (n : ℕ) : List ℤ :=
  (List.range n).flatMap fun h =>
    (List.range (qLen * gqaRatio)).flatMap fun r =>
      (List.range dHead).map (attend
        ((stateAfterHeads curPos qLen layerId kVec vVec st (h + 1)).kvBuf (headBank h)) kvLen
        (row (h * (qLen * gqaRatio) + r)))

theorem headOutputs_succ (attend : KVCacheHead → ℕ → List ℤ → ℕ → ℤ) (kvLen : ℕ) (st : KvState)
    (row : ℕ → List ℤ) (n : ℕ) :
  headOutputs curPos qLen layerId kVec vVec attend kvLen st row (n + 1)
    = headOutputs curPos qLen layerId kVec vVec attend kvLen st row n
      ++ (List.range (qLen * gqaRatio)).flatMap fun r =>
        (List.range dHead).map (attend
          ((stateAfterHeads curPos qLen layerId kVec vVec st (n + 1)).kvBuf (headBank n)) kvLen
          (row (n * (qLen * gqaRatio) + r)))
  := by
  unfold headOutputs
  rw [List.range_succ (n := n), List.flatMap_append, List.flatMap_singleton]

variable {kVec vVec}

theorem run_loadWriteHead (h : ℕ) (bank : Fin 2) (st : KvState)
    (hk : ∀ t, (kVec t).length = dHead) (hv : ∀ t, (vVec t).length = dHead) (s : AttnStreams)
    {restK restV : List ℤ} (hkS : s.kRot = (List.range qLen).flatMap kVec ++ restK)
    (hvS : s.vPass = (List.range qLen).flatMap vVec ++ restV) :
  (loadWriteHead .kRot .vPass curPos qLen layerId h bank st).run s.store
    = some (preparedHead curPos qLen layerId h bank kVec vVec st,
      { s with kRot := restK, vPass := restV : AttnStreams }.store)
  := by
  have hwrite := fun st => run_kvCacheWrite (show AttnChan.kRot ≠ .vPass by decide) curPos qLen
    layerId h bank st hk hv (show s.store .kRot = _ from hkS) (show s.store .vPass = _ from hvS)
  simp only [AttnStreams.update_store] at hwrite
  rw [loadWriteHead, hwrite]
  rcases Nat.eq_zero_or_pos curPos with rfl | hpos
  · rfl
  · rw [if_pos hpos]
    rfl

/-- A head takes its keys, values and queries from the streams and writes its outputs. -/
theorem run_mhaHeadWith (attend : KVCacheHead → ℕ → List ℤ → ℕ → ℤ) (kvLen h : ℕ)
    (bank : Fin 2) (st : KvState) {row : ℕ → List ℤ} (hk : ∀ i, (kVec i).length = dHead)
    (hv : ∀ i, (vVec i).length = dHead) (hrow : ∀ i, (row i).length = dHead) (s : AttnStreams)
    {restK restV restQ : List ℤ} (hkS : s.kRot = (List.range qLen).flatMap kVec ++ restK)
    (hvS : s.vPass = (List.range qLen).flatMap vVec ++ restV)
    (hqS : s.qRot = (List.range (qLen * gqaRatio)).flatMap row ++ restQ) :
  (mhaHeadWith attend .qRot .kRot .vPass .attnO curPos kvLen qLen layerId h (st, bank)).run s.store
    = some ((preparedHead curPos qLen layerId h bank kVec vVec st, bank + 1),
      { s with
        kRot := restK, vPass := restV, qRot := restQ,
        attnO := s.attnO ++ (List.range (qLen * gqaRatio)).flatMap fun r =>
          (List.range dHead).map (attend
            ((preparedHead curPos qLen layerId h bank kVec vVec st).kvBuf bank) kvLen (row r))
        : AttnStreams }.store)
  := by
  have hwrite := run_loadWriteHead curPos qLen layerId h bank st hk hv s hkS hvS
  have hflash := transfers_flashAttentionHeadWith attend (show AttnChan.qRot ≠ .attnO by decide)
    ((preparedHead curPos qLen layerId h bank kVec vVec st).kvBuf bank) kvLen qLen hrow
    { s with kRot := restK, vPass := restV : AttnStreams }.store restQ hqS
  rw [AttnStreams.update_store, AttnStreams.update_store] at hflash
  rw [mhaHeadWith, run_bind_of_run hwrite, run_bind_of_run hflash]
  rfl

/-- The first heads take their keys, values and queries from the streams in turn, and write
their outputs one after the other. -/
theorem run_mhaHeadsWith (attend : KVCacheHead → ℕ → List ℤ → ℕ → ℤ) (kvLen : ℕ) (st : KvState)
    {row : ℕ → List ℤ} (hk : ∀ i, (kVec i).length = dHead) (hv : ∀ i, (vVec i).length = dHead)
    (hrow : ∀ i, (row i).length = dHead) (n : ℕ) (s : AttnStreams) {restK restV restQ : List ℤ}
    (hkS : s.kRot = (List.range (n * qLen)).flatMap kVec ++ restK)
    (hvS : s.vPass = (List.range (n * qLen)).flatMap vVec ++ restV)
    (hqS : s.qRot = (List.range (n * (qLen * gqaRatio))).flatMap row ++ restQ) :
  (mhaHeadsWith attend .qRot .kRot .vPass .attnO curPos kvLen qLen layerId n st).run s.store
    = some ((stateAfterHeads curPos qLen layerId kVec vVec st n, headBank n),
      { s with
        kRot := restK, vPass := restV, qRot := restQ,
        attnO := s.attnO ++ headOutputs curPos qLen layerId kVec vVec attend kvLen st row n
        : AttnStreams }.store)
  := by
  induction n generalizing restK restV restQ with
  | zero =>
      simp only [Nat.zero_mul, List.range_zero, List.flatMap_nil, List.nil_append] at hkS hvS hqS
      subst hkS hvS hqS
      rw [headOutputs, List.range_zero, List.flatMap_nil, List.append_nil]
      rfl
  | succ n ih =>
      rw [Nat.succ_mul, List.range_add, List.flatMap_append, List.flatMap_map,
        List.append_assoc] at hkS hvS hqS
      have hfirst := ih hkS hvS hqS
      have hbank : headBank n + 1 = headBank (n + 1) := by
        simp [headBank, Fin.ext_iff, Fin.val_add]
      rw [mhaHeadsWith] at hfirst
      rw [mhaHeadsWith, forLoop, run_bind_of_run hfirst]
      have hlast := run_mhaHeadWith curPos qLen layerId attend kvLen n (headBank n)
        (stateAfterHeads curPos qLen layerId kVec vVec st n) (fun t => hk (n * qLen + t))
        (fun t => hv (n * qLen + t)) (fun r => hrow (n * (qLen * gqaRatio) + r))
      refine Eq.trans (hlast _ (by rfl) (by rfl) (by rfl)) ?_
      rw [hbank, headOutputs_succ, ← List.append_assoc]
      rfl

/-- A launch goes through all KV heads. -/
theorem run_multiHeadAttentionWith (attend : KVCacheHead → ℕ → List ℤ → ℕ → ℤ) (kvLen : ℕ)
    (st : KvState) {row : ℕ → List ℤ} (hk : ∀ i, (kVec i).length = dHead)
    (hv : ∀ i, (vVec i).length = dHead) (hrow : ∀ i, (row i).length = dHead) (s : AttnStreams)
    (hkS : s.kRot = (List.range (hKv * qLen)).flatMap kVec)
    (hvS : s.vPass = (List.range (hKv * qLen)).flatMap vVec)
    (hqS : s.qRot = (List.range (hKv * (qLen * gqaRatio))).flatMap row) :
  (multiHeadAttentionWith attend .qRot .kRot .vPass .attnO curPos kvLen qLen layerId st).run s.store
    = some (stateAfterHeads curPos qLen layerId kVec vVec st hKv,
      { s with
        kRot := [], vPass := [], qRot := [],
        attnO := s.attnO ++ headOutputs curPos qLen layerId kVec vVec attend kvLen st row hKv
        : AttnStreams }.store)
  := by
  rw [← List.append_nil (List.flatMap _ _)] at hkS hvS hqS
  rw [multiHeadAttentionWith, run_bind_of_run
    (run_mhaHeadsWith curPos qLen layerId attend kvLen st hk hv hrow hKv s hkS hvS hqS)]
  rfl

/-- When the attention of head `h` starts, its queries are next on their stream. -/
theorem run_mhaUntilFlash (kvLen : ℕ) (st : KvState) {row : ℕ → List ℤ}
    (hk : ∀ i, (kVec i).length = dHead) (hv : ∀ i, (vVec i).length = dHead)
    (hrow : ∀ i, (row i).length = dHead) (h : ℕ) (s : AttnStreams) {restK restV restQ : List ℤ}
    (hkS : s.kRot = (List.range ((h + 1) * qLen)).flatMap kVec ++ restK)
    (hvS : s.vPass = (List.range ((h + 1) * qLen)).flatMap vVec ++ restV)
    (hqS : s.qRot = (List.range (h * (qLen * gqaRatio))).flatMap row ++ restQ) :
  (mhaUntilFlash .qRot .kRot .vPass .attnO curPos kvLen qLen layerId h st).run s.store
    = some (stateAfterHeads curPos qLen layerId kVec vVec st (h + 1),
      { s with
        kRot := restK, vPass := restV, qRot := restQ,
        attnO := s.attnO ++ headOutputs curPos qLen layerId kVec vVec flashRow kvLen st row h
        : AttnStreams }.store)
  := by
  rw [Nat.succ_mul, List.range_add, List.flatMap_append, List.flatMap_map,
    List.append_assoc] at hkS hvS
  have hheads := run_mhaHeadsWith curPos qLen layerId flashRow kvLen st hk hv hrow h s hkS hvS hqS
  have hwrite := run_loadWriteHead curPos qLen layerId h (headBank h)
    (stateAfterHeads curPos qLen layerId kVec vVec st h)
    (fun t => hk (h * qLen + t)) (fun t => hv (h * qLen + t))
  rw [mhaUntilFlash, run_bind_of_run hheads]
  apply hwrite
  · rfl
  · rfl

end Heads

end Kv260
