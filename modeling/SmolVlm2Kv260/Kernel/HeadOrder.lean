import SmolVlm2Kv260.Kernel.MultiHead

/-!
# Heads and tokens through the attention

The QKV projection delivers its results token by token, and `rope_split_qk` keeps this
order.  `multi_head_attention` takes keys, values and queries head by head: with `n` tokens,
head `h` takes the heads number `h * n, …, h * n + n - 1` of the stream.  The two orders
agree for a single token only.
-/

set_option autoImplicit false

namespace Kv260

open Proc Blocks

/-! ### The vectors of a token -/

section Vectors

variable (qkv : ℕ → ℕ → ℤ) (curPos : ℕ)

/-- The `j`-th vector of `D_HEAD` values from column `base` on, of token `t`. -/
def qkvVec (base t j : ℕ) : List ℤ := (List.range dHead).map fun d => qkv t (base + (j * dHead + d))

/-- The rotated query of head `j` of token `t`. -/
def qHead (t j : ℕ) : List ℤ := ropeVec (curPos + t) (qkvVec qkv 0 t j)

/-- The rotated key of KV head `h` of token `t`. -/
def kHead (t h : ℕ) : List ℤ := ropeVec (curPos + t) (qkvVec qkv C t h)

/-- The value of KV head `h` of token `t`. -/
def vHead (t h : ℕ) : List ℤ := qkvVec qkv (C + hKv * dHead) t h

/-- The token-major stream of `n` tokens. -/
def qkvStream (n : ℕ) : List ℤ := (List.range n).flatMap fun t => (List.range nQkv).map (qkv t)

theorem length_qkvVec (base t j : ℕ) :
  (qkvVec qkv base t j).length = dHead
  := by
  rw [qkvVec, List.length_map, List.length_range]

/-- The columns from `base` on are those of `nHeads` vectors. -/
theorem map_range_columns (base t nHeads : ℕ) :
  ((List.range (nHeads * dHead)).map fun i => qkv t (base + i))
    = (List.range nHeads).flatMap fun j => qkvVec qkv base t j
  := (map_range_mul nHeads dHead fun i => qkv t (base + i)).symm

/-- A token on the stream is its queries, its keys and its values. -/
theorem map_range_nQkv (t : ℕ) :
  (List.range nQkv).map (qkv t)
    = ((List.range (hQ * dHead)).map fun i => qkv t (0 + i))
      ++ (((List.range (hKv * dHead)).map fun i => qkv t (C + i))
        ++ (List.range (hKv * dHead)).map fun i => qkv t (C + hKv * dHead + i))
  := by
  have hsum : nQkv = hQ * dHead + (hKv * dHead + hKv * dHead) := rfl
  rw [hsum, List.range_add, List.range_add]
  simp only [List.map_append, List.map_map, Function.comp_def, Nat.zero_add, Nat.add_assoc]
  rfl

end Vectors

/-! ### Splitting and rotating -/

section Split

variable (qkv : ℕ → ℕ → ℤ)

/-- The vectors of `n` tokens with `nHeads` heads each, token by token. -/
def headVecs (vec : ℕ → ℕ → List ℤ) (nHeads n : ℕ) : List ℤ :=
  (List.range n).flatMap fun t => (List.range nHeads).flatMap (vec t)

/-- The `i`-th of these vectors is head `i % nHeads` of token `i / nHeads`. -/
theorem headVecs_eq (vec : ℕ → ℕ → List ℤ) (nHeads n : ℕ) :
  headVecs vec nHeads n = (List.range (n * nHeads)).flatMap fun i => vec (i / nHeads) (i % nHeads)
  := flatMap_range_div_mod nHeads n vec

theorem headVecs_succ (vec : ℕ → ℕ → List ℤ) (nHeads n : ℕ) :
  headVecs vec nHeads (n + 1) = headVecs vec nHeads n ++ (List.range nHeads).flatMap (vec n)
  := by
  unfold headVecs
  rw [List.range_succ (n := n), List.flatMap_append, List.flatMap_singleton]

/-- One token is split. -/
theorem run_splitToken (t : ℕ) (s : AttnStreams) {rest : List ℤ}
    (hs : s.qkvIn = (List.range nQkv).map (qkv t) ++ rest) :
  (do forEach (hQ * dHead) fun _ => recv .qkvIn >>= send .qPre
      forEach (hKv * dHead) fun _ => recv .qkvIn >>= send .kPre
      forEach (hKv * dHead) fun _ => recv .qkvIn >>= send .vPass : Proc AttnChan ℤ Unit).run s.store
    = some ((), { s with
        qkvIn := rest
        qPre := s.qPre ++ (List.range hQ).flatMap (qkvVec qkv 0 t)
        kPre := s.kPre ++ (List.range hKv).flatMap (qkvVec qkv C t)
        vPass := s.vPass ++ (List.range hKv).flatMap (vHead qkv t) : AttnStreams }.store)
  := by
  rw [map_range_nQkv, List.append_assoc, List.append_assoc] at hs
  refine Eq.trans (run_bind_of_run (transfers_copy (by decide) (hQ * dHead)
    (fun i => qkv t (0 + i)) _ _ hs)) ?_
  refine Eq.trans (run_bind_of_run (transfers_copy (by decide) (hKv * dHead)
    (fun i => qkv t (C + i)) _ _ (by rfl))) ?_
  refine Eq.trans (transfers_copy (by decide) (hKv * dHead)
    (fun i => qkv t (C + hKv * dHead + i)) _ _ (by rfl)) ?_
  simp only [AttnStreams.update_store, map_range_columns]
  rfl

theorem run_split (n : ℕ) (s : AttnStreams) {rest : List ℤ}
    (hs : s.qkvIn = qkvStream qkv n ++ rest) :
  (split .qkvIn .qPre .kPre .vPass n).run s.store
    = some ((), { s with
        qkvIn := rest
        qPre := s.qPre ++ headVecs (qkvVec qkv 0) hQ n
        kPre := s.kPre ++ headVecs (qkvVec qkv C) hKv n
        vPass := s.vPass ++ headVecs (vHead qkv) hKv n : AttnStreams }.store)
  := by
  induction n generalizing rest with
  | zero =>
      rw [qkvStream, List.range_zero, List.flatMap_nil, List.nil_append] at hs
      subst hs
      simp only [headVecs, List.range_zero, List.flatMap_nil, List.append_nil]
      rfl
  | succ n ih =>
      rw [qkvStream, List.range_succ, List.flatMap_append, List.flatMap_singleton,
        List.append_assoc] at hs
      have hfirst := ih hs
      rw [split] at hfirst
      rw [split, forEach_succ, run_bind_of_run hfirst]
      refine Eq.trans (run_splitToken qkv n _ (by rfl)) ?_
      simp only [headVecs_succ, List.append_assoc]

/-- The `i`-th rotated query, rotated key and value on the streams. -/
def qVec (curPos i : ℕ) : List ℤ := qHead qkv curPos (i / hQ) (i % hQ)

def kVec (curPos i : ℕ) : List ℤ := kHead qkv curPos (i / hKv) (i % hKv)

def vVec (i : ℕ) : List ℤ := vHead qkv (i / hKv) (i % hKv)

theorem length_qVec (curPos i : ℕ) :
  (qVec qkv curPos i).length = dHead
  := length_ropeVec _ _

theorem length_kVec (curPos i : ℕ) :
  (kVec qkv curPos i).length = dHead
  := length_ropeVec _ _

theorem length_vVec (i : ℕ) :
  (vVec qkv i).length = dHead
  := length_qkvVec qkv _ _ _

/-- The streams between the rotary embedding and the attention. -/
def rotated (curPos n : ℕ) : AttnStreams where
  qRot := (List.range (n * hQ)).flatMap (qVec qkv curPos)
  kRot := (List.range (n * hKv)).flatMap (kVec qkv curPos)
  vPass := (List.range (n * hKv)).flatMap (vVec qkv)

theorem run_ropeSplitQk (curPos n : ℕ) :
  (ropeSplitQk .qkvIn .qPre .kPre .qRot .kRot .vPass curPos n).run
      { qkvIn := qkvStream qkv n : AttnStreams }.store
    = some ((), (rotated qkv curPos n).store)
  := by
  have hsplit := run_split qkv n { qkvIn := qkvStream qkv n } (List.append_nil _).symm
  rw [headVecs_eq, headVecs_eq, headVecs_eq] at hsplit
  rw [ropeSplitQk, run_bind_of_run hsplit]
  refine Eq.trans (run_bind_of_run (transfers_ropeApplyStream (by decide) curPos hQ n
    (fun i => length_qkvVec qkv 0 (i / hQ) (i % hQ)) _ [] (by rw [List.append_nil]; rfl))) ?_
  refine Eq.trans (transfers_ropeApplyStream (by decide) curPos hKv n
    (fun i => length_qkvVec qkv C (i / hKv) (i % hKv)) _ [] (by rw [List.append_nil]; rfl)) ?_
  simp only [AttnStreams.update_store]
  rfl

end Split

/-! ### The attention part of a layer -/

section Chain

variable (attend : KVCacheHead → ℕ → List ℤ → ℕ → ℤ) (qkv : ℕ → ℕ → ℤ)
variable (curPos kvLen n layerId : ℕ) (st : KvState)

/-- From the QKV projection to the O projection, with `attend` as the output of a query. -/
def attentionPartWith : Proc AttnChan ℤ KvState := do
  ropeSplitQk .qkvIn .qPre .kPre .qRot .kRot .vPass curPos n
  let st ← multiHeadAttentionWith attend .qRot .kRot .vPass .attnO curPos kvLen n layerId st
  oScatter .attnO .oFlat n
  return st

/-- The attention part up to the attention of head `h`. -/
def untilFlash (h : ℕ) : Proc AttnChan ℤ KvState := do
  ropeSplitQk .qkvIn .qPre .kPre .qRot .kRot .vPass curPos n
  mhaUntilFlash .qRot .kRot .vPass .attnO curPos kvLen n layerId h st

/-- The state when the attention of head `h` starts. -/
def preparedState (h : ℕ) : KvState :=
  stateAfterHeads curPos n layerId (kVec qkv curPos) (vVec qkv) st (h + 1)

/-- The values on the stream to the O projection. -/
def attentionOut : List ℤ :=
  headOutputs curPos n layerId (kVec qkv curPos) (vVec qkv) attend kvLen st (qVec qkv curPos) hKv

theorem length_attentionOut :
  (attentionOut attend qkv curPos kvLen n layerId st).length = n * (hQ * dHead)
  := by
  have hlen : (attentionOut attend qkv curPos kvLen n layerId st).length
      = hKv * (n * gqaRatio * dHead) := by
    apply length_flatMap_range
    intro h _
    apply length_flatMap_range
    intro r _
    rw [List.length_map, List.length_range]
  rw [hlen]
  change 5 * (n * 3 * 64) = n * (15 * 64)
  omega

/-- All queries of the tokens, head by head. -/
theorem mul_hQ :
  n * hQ = hKv * (n * gqaRatio)
  := by
  change n * 15 = 5 * (n * 3)
  omega

/-- `o_scatter` passes the values on. -/
theorem transfers_oScatter {xs : List ℤ} (hxs : xs.length = n * (hQ * dHead)) :
  Transfers (oScatter AttnChan.attnO .oFlat n) .attnO .oFlat xs xs
  := by
  have hflat := map_range_mul n (hQ * dHead) fun i => xs.getD i 0
  rw [map_range_getD hxs] at hflat
  rw [← hflat]
  apply transfers_forEach (by decide)
  intro t _
  apply transfers_copy (by decide)

theorem run_oScatter (s : AttnStreams) {xs : List ℤ} (hs : s.attnO = xs)
    (hxs : xs.length = n * (hQ * dHead)) :
  (oScatter .attnO .oFlat n).run s.store
    = some ((), { s with attnO := [], oFlat := s.oFlat ++ xs : AttnStreams }.store)
  := by
  have hrun := transfers_oScatter n hxs s.store [] (by rw [List.append_nil, ← hs]; rfl)
  rw [hrun, AttnStreams.update_store, AttnStreams.update_store]
  rfl

theorem rotated_kRot :
  (rotated qkv curPos n).kRot = (List.range (hKv * n)).flatMap (kVec qkv curPos)
  := by
  rw [Nat.mul_comm]
  rfl

theorem rotated_vPass :
  (rotated qkv curPos n).vPass = (List.range (hKv * n)).flatMap (vVec qkv)
  := by
  rw [Nat.mul_comm]
  rfl

theorem rotated_qRot :
  (rotated qkv curPos n).qRot = (List.range (hKv * (n * gqaRatio))).flatMap (qVec qkv curPos)
  := by
  rw [← mul_hQ]
  rfl

theorem run_attentionPartWith :
  (attentionPartWith attend curPos kvLen n layerId st).run
      { qkvIn := qkvStream qkv n : AttnStreams }.store
    = some (stateAfterHeads curPos n layerId (kVec qkv curPos) (vVec qkv) st hKv,
      { oFlat := attentionOut attend qkv curPos kvLen n layerId st : AttnStreams }.store)
  := by
  have hheads := run_multiHeadAttentionWith curPos n layerId attend kvLen st
    (length_kVec qkv curPos) (length_vVec qkv) (length_qVec qkv curPos) _
    (rotated_kRot qkv curPos n) (rotated_vPass qkv curPos n) (rotated_qRot qkv curPos n)
  rw [attentionPartWith, run_bind_of_run (run_ropeSplitQk qkv curPos n), run_bind_of_run hheads]
  have hlen : (headOutputs curPos n layerId (kVec qkv curPos) (vVec qkv) attend kvLen st
      (qVec qkv curPos) hKv).length = n * (hQ * dHead) :=
    length_attentionOut attend qkv curPos kvLen n layerId st
  rw [attentionOut]
  generalize headOutputs curPos n layerId (kVec qkv curPos) (vVec qkv) attend kvLen st
    (qVec qkv curPos) hKv = xs at hlen ⊢
  have hattn : (rotated qkv curPos n).attnO = [] := rfl
  have hflat : (rotated qkv curPos n).oFlat = [] := rfl
  rw [hattn, List.nil_append, run_bind_of_run (run_oScatter n _ rfl hlen), hflat, List.nil_append]
  rfl

/-- When the attention of head `h` starts, the next queries on their stream are those from
`h * n * 3` on. -/
theorem run_untilFlash {h : ℕ} (hh : h < hKv) :
  ∃ τ, (untilFlash curPos kvLen n layerId st h).run { qkvIn := qkvStream qkv n : AttnStreams }.store
      = some (preparedState qkv curPos n layerId st h, τ)
    ∧ τ .qRot = (List.range ((hKv - h) * (n * gqaRatio))).flatMap fun r =>
      qVec qkv curPos (h * (n * gqaRatio) + r)
  := by
  have hkv : (h + 1) * n ≤ hKv * n := Nat.mul_le_mul_right n hh
  have hq : h * (n * gqaRatio) ≤ hKv * (n * gqaRatio) := Nat.mul_le_mul_right _ hh.le
  have hkS := (rotated_kRot qkv curPos n).trans (flatMap_range_split (kVec qkv curPos) hkv)
  have hvS := (rotated_vPass qkv curPos n).trans (flatMap_range_split (vVec qkv) hkv)
  have hqS := (rotated_qRot qkv curPos n).trans (flatMap_range_split (qVec qkv curPos) hq)
  have hflash := run_mhaUntilFlash curPos n layerId kvLen st (length_kVec qkv curPos)
    (length_vVec qkv) (length_qVec qkv curPos) h _ hkS hvS hqS
  rw [untilFlash, run_bind_of_run (run_ropeSplitQk qkv curPos n), Nat.sub_mul]
  exact ⟨_, hflash, rfl⟩

/-! ### What the chain does with the heads -/

/-- The state of the prepared head, from the state of the head before. -/
theorem preparedState_eq (h : ℕ) :
  preparedState qkv curPos n layerId st h
    = preparedHead curPos n layerId h (headBank h) (fun t => kVec qkv curPos (h * n + t))
      (fun t => vVec qkv (h * n + t))
      (stateAfterHeads curPos n layerId (kVec qkv curPos) (vVec qkv) st h)
  := rfl

/-- Position `curPos + t` of head `h` gets the key number `h * n + t`. -/
theorem preparedState_k {h t g : ℕ} (ht : t < n) (hg : g < 2) :
  axiRead128Half (preparedState qkv curPos n layerId st h).k.cache
      (cacheIndex layerId h (curPos + t) g)
    = quantPack (kVec qkv curPos (h * n + t)) g
  := by
  rw [preparedState_eq]
  apply KvSide.prepare_cache_written _ _ _ _ _ _ _ ht hg

/-- Position `curPos + t` of head `h` gets the value number `h * n + t`. -/
theorem preparedState_v {h t g : ℕ} (ht : t < n) (hg : g < 2) :
  axiRead128Half (preparedState qkv curPos n layerId st h).v.cache
      (cacheIndex layerId h (curPos + t) g)
    = quantPack (vVec qkv (h * n + t)) g
  := by
  rw [preparedState_eq]
  apply KvSide.prepare_cache_written _ _ _ _ _ _ _ ht hg

/-- The values for the O projection are those of the queries in the order of the stream. -/
theorem attentionOut_getElem? {h r d : ℕ} (hh : h < hKv) (hr : r < n * gqaRatio)
    (hd : d < dHead) :
  (attentionOut attend qkv curPos kvLen n layerId st)[h * (n * gqaRatio * dHead)
      + (r * dHead + d)]?
    = some (attend ((preparedState qkv curPos n layerId st h).kvBuf (headBank h)) kvLen
      (qVec qkv curPos (h * (n * gqaRatio) + r)) d)
  := by
  have hrow : ∀ h r, ((List.range dHead).map (attend
      ((preparedState qkv curPos n layerId st h).kvBuf (headBank h)) kvLen
      (qVec qkv curPos (h * (n * gqaRatio) + r)))).length = dHead := by
    intro h r
    rw [List.length_map, List.length_range]
  have hidx : r * dHead + d < n * gqaRatio * dHead := by
    change r < n * 3 at hr
    change d < 64 at hd
    change r * 64 + d < n * 3 * 64
    omega
  have hhead := getElem?_flatMap_range
    (fun h _ => length_flatMap_range fun r (_ : r < n * gqaRatio) => hrow h r) hh hidx
  refine Eq.trans hhead ?_
  rw [getElem?_flatMap_range (fun r _ => hrow h r) hr hd, List.getElem?_map,
    List.getElem?_range hd]
  rfl

end Chain

/-! ### Token order -/

section Order

variable (qkv : ℕ → ℕ → ℤ) (curPos n layerId h : ℕ)

/-- The cache holds the keys and values of the tokens for head `h`. -/
def StoresHead (st : KvState) : Prop :=
  ∀ t < n, ∀ g < dHead / grp,
    axiRead128Half st.k.cache (cacheIndex layerId h (curPos + t) g)
        = quantPack (kHead qkv curPos t h) g
      ∧ axiRead128Half st.v.cache (cacheIndex layerId h (curPos + t) g)
        = quantPack (vHead qkv t h) g

/-- The next queries on their stream are, token by token, those of the heads `3 * h`,
`3 * h + 1` and `3 * h + 2`. -/
def QueriesOfHead (queries : List ℤ) : Prop :=
  ∀ t < n, ∀ j < gqaRatio,
    (queries.drop ((t * gqaRatio + j) * dHead)).take dHead = qHead qkv curPos t (gqaRatio * h + j)

/-- The outputs of these queries against `buf` are where the O projection expects them. -/
def OutputsOfHead (attend : KVCacheHead → ℕ → List ℤ → ℕ → ℤ) (kvLen : ℕ) (buf : KVCacheHead)
    (out : List ℤ) : Prop :=
  ∀ t < n, ∀ j < gqaRatio, ∀ d < dHead,
    out[t * (hQ * dHead) + (gqaRatio * h + j) * dHead + d]?
      = some (attend buf kvLen (qHead qkv curPos t (gqaRatio * h + j)) d)

end Order

/-- Every head of every token stays with its token on the way from the QKV projection to the
cache, to the attention and to the O projection. -/
def HeadsInOrder (n : ℕ) : Prop :=
  ∀ (attend : KVCacheHead → ℕ → List ℤ → ℕ → ℤ) (qkv : ℕ → ℕ → ℤ)
    (curPos kvLen layerId : ℕ) (st : KvState),
    ∃ st' σ, (attentionPartWith attend curPos kvLen n layerId st).run
        { qkvIn := qkvStream qkv n : AttnStreams }.store = some (st', σ)
      ∧ ∀ h < hKv, ∃ stH τ, (untilFlash curPos kvLen n layerId st h).run
          { qkvIn := qkvStream qkv n : AttnStreams }.store = some (stH, τ)
        ∧ StoresHead qkv curPos n layerId h stH
        ∧ QueriesOfHead qkv curPos n h (τ .qRot)
        ∧ OutputsOfHead qkv curPos n h attend kvLen (stH.kvBuf (headBank h)) (σ .oFlat)

section Order

variable (qkv : ℕ → ℕ → ℤ) (curPos layerId : ℕ) (st : KvState)

theorem storesHead_one {h : ℕ} (hh : h < hKv) :
  StoresHead qkv curPos 1 layerId h (preparedState qkv curPos 1 layerId st h)
  := by
  intro t ht g hg
  obtain rfl := Nat.lt_one_iff.mp ht
  have hdiv : (h * 1 + 0) / hKv = 0 := Nat.div_eq_of_lt (by omega)
  have hmod : (h * 1 + 0) % hKv = h := by rw [Nat.mod_eq_of_lt (by omega)]; omega
  rw [preparedState_k qkv curPos 1 layerId st ht hg, preparedState_v qkv curPos 1 layerId st ht hg,
    kVec, vVec, hdiv, hmod]
  exact ⟨rfl, rfl⟩

/-- The queries of the only token. -/
theorem qVec_one {h j : ℕ} (hh : h < hKv) (hj : j < gqaRatio) :
  qVec qkv curPos (h * (1 * gqaRatio) + (0 * gqaRatio + j)) = qHead qkv curPos 0 (gqaRatio * h + j)
  := by
  change h < 5 at hh
  change j < 3 at hj
  have hlt : h * (1 * 3) + (0 * 3 + j) < 15 := by omega
  rw [qVec]
  change qHead qkv curPos ((h * (1 * 3) + (0 * 3 + j)) / 15) ((h * (1 * 3) + (0 * 3 + j)) % 15)
    = qHead qkv curPos 0 (3 * h + j)
  have hhead : h * (1 * 3) + (0 * 3 + j) = 3 * h + j := by omega
  rw [Nat.div_eq_of_lt hlt, Nat.mod_eq_of_lt hlt, hhead]

theorem queriesOfHead_one {h : ℕ} (hh : h < hKv) :
  QueriesOfHead qkv curPos 1 h ((List.range ((hKv - h) * (1 * gqaRatio))).flatMap fun r =>
    qVec qkv curPos (h * (1 * gqaRatio) + r))
  := by
  intro t ht j hj
  obtain rfl := Nat.lt_one_iff.mp ht
  have hidx : 0 * gqaRatio + j < (hKv - h) * (1 * gqaRatio) := by
    change h < 5 at hh
    change j < 3 at hj
    change 0 * 3 + j < (5 - h) * (1 * 3)
    omega
  rw [take_drop_flatMap_range (fun r _ => length_qVec qkv curPos _) hidx, qVec_one qkv curPos hh hj]

theorem outputsOfHead_one (attend : KVCacheHead → ℕ → List ℤ → ℕ → ℤ) (kvLen : ℕ) {h : ℕ}
    (hh : h < hKv) :
  OutputsOfHead qkv curPos 1 h attend kvLen
    ((preparedState qkv curPos 1 layerId st h).kvBuf (headBank h))
    (attentionOut attend qkv curPos kvLen 1 layerId st)
  := by
  intro t ht j hj d hd
  obtain rfl := Nat.lt_one_iff.mp ht
  have hidx : 0 * (hQ * dHead) + (gqaRatio * h + j) * dHead + d
      = h * (1 * gqaRatio * dHead) + ((0 * gqaRatio + j) * dHead + d) := by
    change 0 * (15 * 64) + (3 * h + j) * 64 + d = h * (1 * 3 * 64) + ((0 * 3 + j) * 64 + d)
    omega
  rw [hidx, attentionOut_getElem? attend qkv curPos kvLen 1 layerId st hh (by omega) hd,
    qVec_one qkv curPos hh hj]

end Order

/-- With one token, the two orders agree. -/
theorem headsInOrder_one_token :
  HeadsInOrder 1
  := by
  intro attend qkv curPos kvLen layerId st
  refine ⟨_, _, run_attentionPartWith attend qkv curPos kvLen 1 layerId st, ?_⟩
  intro h hh
  obtain ⟨τ, hrun, hq⟩ := run_untilFlash qkv curPos kvLen 1 layerId st hh
  refine ⟨_, τ, hrun, ?_, ?_, ?_⟩
  · apply storesHead_one qkv curPos layerId st hh
  · rw [hq]
    apply queriesOfHead_one qkv curPos hh
  · apply outputsOfHead_one qkv curPos layerId st attend kvLen hh

/-! ### More than one token -/

/-- All values of token 1 are 8, those of the other tokens are 0. -/
def secondTokenOnly (t _c : ℕ) : ℤ := if t = 1 then 8 else 0

/-- A value of 0 is stored as 8, a value of 8 as 15. -/
theorem quantPack_secondToken :
  quantPack (vHead secondTokenOnly 0 1) 0 ≠ quantPack (vHead secondTokenOnly 1 0) 0
  := by
  intro heq
  have hlane := congrArg (BitVec.extractLsb' (0 * 4) 4) heq
  rw [quantPack, quantPack, extractLsb'_packLanes _ (by decide) (by decide),
    extractLsb'_packLanes _ (by decide) (by decide)] at hlane
  revert hlane
  decide +kernel

/-- With more than one token, slot 1 of head 0 gets the value of head 1 of token 0. -/
theorem not_headsInOrder {n : ℕ} (hn : 1 < n) :
  ¬ HeadsInOrder n
  := by
  intro hord
  obtain ⟨_, _, _, hheads⟩ := hord flashRow secondTokenOnly 0 n 0 KvState.init
  obtain ⟨stH, τ, hrun, hstored, -, -⟩ := hheads 0 (by decide)
  obtain ⟨τ', hrun', -⟩ := run_untilFlash secondTokenOnly 0 n n 0 KvState.init (h := 0) (by decide)
  rw [hrun'] at hrun
  obtain ⟨rfl, -⟩ := Prod.mk.inj (Option.some.inj hrun)
  have hv := (hstored 1 hn 0 (by decide)).2
  rw [preparedState_v _ _ _ _ _ hn (by decide), vVec, Nat.zero_mul] at hv
  apply quantPack_secondToken hv

/-- Heads and tokens stay together for a single token only. -/
theorem headsInOrder_iff {n : ℕ} (hn : 1 ≤ n) :
  HeadsInOrder n ↔ n = 1
  := by
  constructor
  · intro hord
    by_contra hne
    apply not_headsInOrder (by omega) hord
  · rintro rfl
    apply headsInOrder_one_token

/-- The condition leaves one case, the single token of a decode step; two tokens are on the other
side. -/
theorem headsInOrder_decode :
  (1 ≤ 1 ∧ HeadsInOrder 1) ∧ 1 ≤ 2 ∧ (HeadsInOrder 2 ↔ 2 = 1)
  := ⟨⟨le_refl 1, (headsInOrder_iff (le_refl 1)).mpr rfl⟩, by decide, headsInOrder_iff (by decide)⟩

theorem not_headsInOrder_two_tokens :
  ¬ HeadsInOrder 2
  := not_headsInOrder (by decide)

end Kv260
