import SmolVlm2Kv260.Kernel.Decoder
import SmolVlm2Kv260.Kernel.MultiHead
import SmolVlm2Kv260.Process.Balance

/-!
# The decoder kernel as one process

`smolvlm2_decoder_layer` runs its stages in program order over streams that live as long as
the device, and over memory: the residual buffers on the chip, the KV cache, and the buffers
behind its ports.  Each stage takes from the streams what the stage before it put there, so a
launch leaves them empty, whatever its arguments are.
-/

set_option autoImplicit false

namespace Kv260

open Proc Blocks

/-! ### Streams and memory -/

/-- The streams of the kernel, with those of `rope_split_qk`. -/
inductive DecoderChan where
  | rawAct
  | norm1Q
  | norm1Sc
  | qkvOut
  | qPre
  | kPre
  | qRot
  | kRot
  | vPass
  | attnO
  | oFlat
  | oQ
  | oSc
  | oprojOut
  | rawAct2
  | norm2Q
  | norm2Sc
  | gateupOut
  | ffnAct
  | ffnSc
  | downOut
  | lmRaw
  | lmQ
  | lmSc
  | lmOut
  deriving DecidableEq

/-- What a launch only reads: the weights and the vectors of the normalisations, and the
registers that its multiplications leave uninitialised. -/
structure DecoderPorts where
  weights : WeightPorts
  gammaAttn : ℕ → AXI256
  gammaFfn : ℕ → AXI256
  lmheadWgt : ℕ → AXI256
  lmheadMeta : ℕ → AXI256
  uninit : LayerMatrix → ℕ → ℕ → ℕ → TileRegisters
  lmheadUninit : ℕ → ℕ → ℕ → TileRegisters

/-- What a launch writes: the residual buffers, the KV cache and its banks, the activation
buffers and the logits. -/
structure DecoderMemory where
  resBuf0 : ResBuf
  resBuf1 : ResBuf
  kv : KvState
  act : ActBuffer → ℕ → AXI256
  lmheadOut : ℕ → AXI256

/-! ### Residual buffers -/

section Residual

variable {ι : Type}

/-- `res_to_stream`. -/
def resToStream (src : ResBuf) (outS : ι) (tokenOffset tokenCount : ℕ) : Proc ι ℤ Unit :=
  forEach tokenCount fun t => forEach C fun c => send outS (src (tokenOffset + t) c)

/-- `residual_add_range`. -/
def residualAddRange (deltaS : ι) (res : ResBuf) (tokenOffset tokenCount : ℕ) :
    Proc ι ℤ ResBuf :=
  forLoop tokenCount res fun t res =>
    forLoop C res fun c res => do
      let d ← recv deltaS
      return res.set (tokenOffset + t) c (apInt 32 (res (tokenOffset + t) c + d))

/-- The loop that copies the rows of the work tokens from `res_buf_0` to `res_buf_1`. -/
def copyRows (src dst : ResBuf) (tokenOffset tokenCount : ℕ) : ResBuf :=
  (List.range tokenCount).foldl (fun dst t =>
    (List.range C).foldl (fun dst c =>
      dst.set (tokenOffset + t) c (src (tokenOffset + t) c)) dst) dst

/-- `store_act`. -/
def storeAct (resBuf1 : ResBuf) (tokenOffset tokenCount : ℕ) (actOut : ℕ → AXI256) :
    ℕ → AXI256 :=
  (List.range tokenCount).foldl (fun actOut t =>
    (List.range (C / 32)).foldl (fun actOut v =>
      Function.update actOut (((tokenOffset + t) * C + v * 32) / 32)
        (packLanes 256 32 fun b =>
          BitVec.ofInt 8 (resBuf1 (tokenOffset + t) (v * 32 + b) >>> (8 : ℕ)))) actOut) actOut

end Residual

/-! ### The stages -/

namespace Launch

variable (l : Launch) (P : DecoderPorts)

/-- The multiplication with a matrix of the layer. -/
def layerGemm (m : LayerMatrix) (actS actScaleS outS : DecoderChan) : Proc DecoderChan ℤ Unit :=
  w4a8Gemm actS actScaleS outS (l.gemmPorts P.weights m) l.workTokenCount m.inCols m.outCols
    (P.uninit m)

/-- From the first normalisation to the output of the attention. -/
def attentionStages (resBuf0 : ResBuf) (kv : KvState) : Proc DecoderChan ℤ KvState := do
  resToStream resBuf0 .rawAct l.workTokenOffset l.workTokenCount
  rmsnormQuant .rawAct .norm1Q .norm1Sc (loadGamma P.gammaAttn) l.workTokenCount
  l.layerGemm P .qkv .norm1Q .norm1Sc .qkvOut
  ropeSplitQk .qkvOut .qPre .kPre .qRot .kRot .vPass l.curPos l.workTokenCount
  multiHeadAttention .qRot .kRot .vPass .attnO l.curPos l.kvLen l.workTokenCount l.layerId kv

/-- From the output of the attention to the first residual. -/
def projectionStages (resBuf0 : ResBuf) : Proc DecoderChan ℤ ResBuf := do
  oScatter .attnO .oFlat l.workTokenCount
  actQuant .oFlat .oQ .oSc l.workTokenCount C
  l.layerGemm P .o .oQ .oSc .oprojOut
  residualAddRange .oprojOut resBuf0 l.workTokenOffset l.workTokenCount

/-- The feed-forward part, up to the second residual. -/
def ffnStages (resBuf1 : ResBuf) : Proc DecoderChan ℤ ResBuf := do
  resToStream resBuf1 .rawAct2 l.workTokenOffset l.workTokenCount
  rmsnormQuant .rawAct2 .norm2Q .norm2Sc (loadGamma P.gammaFfn) l.workTokenCount
  l.layerGemm P .gateUp .norm2Q .norm2Sc .gateupOut
  siluGateFuseQuant .gateupOut .ffnAct .ffnSc l.workTokenCount
  l.layerGemm P .down .ffnAct .ffnSc .downOut
  residualAddRange .downOut resBuf1 l.workTokenOffset l.workTokenCount

/-- The loop that packs the logits, eight to a word. -/
def storeLogits (lmheadOut : ℕ → AXI256) : Proc DecoderChan ℤ (ℕ → AXI256) :=
  forLoop (vocab / 8) lmheadOut fun v lmheadOut => do
    let vals ← readVec .lmOut 8
    return Function.update lmheadOut v
      (packLanes 256 8 fun b => BitVec.ofInt 32 (vals.getD b 0))

/-- The branch `run_lmhead`, on row `seq_len - 1`. -/
def lmheadStages (resBuf1 : ResBuf) (lmheadOut : ℕ → AXI256) :
    Proc DecoderChan ℤ (ℕ → AXI256) := do
  forEach C fun c => send .lmRaw (resBuf1 (l.seqLen - 1) c)
  rmsnormQuant .lmRaw .lmQ .lmSc (loadGamma P.gammaFfn) 1
  w4a8Gemm .lmQ .lmSc .lmOut (lmheadPorts P.lmheadWgt P.lmheadMeta) 1 C vocab P.lmheadUninit
  storeLogits lmheadOut

/-- The logits are computed when `run_lmhead` is set. -/
def logitsStage (resBuf1 : ResBuf) (lmheadOut : ℕ → AXI256) :
    Proc DecoderChan ℤ (ℕ → AXI256) :=
  if l.runLmhead ≠ 0 then l.lmheadStages P resBuf1 lmheadOut else ret lmheadOut

/-- `smolvlm2_decoder_layer`. -/
def smolvlm2DecoderLayer (mem : DecoderMemory) : Proc DecoderChan ℤ DecoderMemory := do
  let resBuf0 := loadAct (mem.act l.src) l.workTokenOffset l.workTokenCount mem.resBuf0
  let kv ← l.attentionStages P resBuf0 mem.kv
  let resBuf0 ← l.projectionStages P resBuf0
  let resBuf1 := copyRows resBuf0 mem.resBuf1 l.workTokenOffset l.workTokenCount
  let resBuf1 ← l.ffnStages P resBuf1
  let actOut := storeAct resBuf1 l.workTokenOffset l.workTokenCount (mem.act l.actOut)
  let lmheadOut ← l.logitsStage P resBuf1 mem.lmheadOut
  return { resBuf0, resBuf1, kv, act := Function.update mem.act l.actOut actOut, lmheadOut }

end Launch

/-- Launches one after the other, each with its own ports. -/
def runDecoderLaunches : List (Launch × DecoderPorts) → DecoderMemory →
    Proc DecoderChan ℤ DecoderMemory
  | [], mem => ret mem
  | (l, P) :: ls, mem => do
      let mem ← l.smolvlm2DecoderLayer P mem
      runDecoderLaunches ls mem

/-! ### Counts of the stages -/

section Stages

variable {ι : Type} [DecidableEq ι]

theorem moves_resToStream (src : ResBuf) (outS : ι) (tokenOffset tokenCount : ℕ) :
  (resToStream src outS tokenOffset tokenCount).Moves 0 (tokens outS (tokenCount * C))
  := by
  have h := moves_forEach_const (n := tokenCount) fun t _ =>
    moves_forEach_send outS C fun c => src (tokenOffset + t) c
  rw [smul_zero, smul_tokens] at h
  apply h

theorem moves_residualAddRange (deltaS : ι) (res : ResBuf) (tokenOffset tokenCount : ℕ) :
  (residualAddRange deltaS res tokenOffset tokenCount).Moves
    (tokens deltaS (tokenCount * C)) 0
  := by
  rw [← smul_tokens, ← smul_zero tokenCount]
  apply moves_forLoop_const
  intro t _ res
  have hrow : tokens deltaS C = C • tokens deltaS 1 := by rw [smul_tokens, Nat.mul_one]
  rw [hrow, ← smul_zero C]
  apply moves_forLoop_const
  intro c _ res
  apply (moves_recv deltaS).bind
  intro d
  apply moves_ret

/-- The scale of a row and its values are written. -/
theorem moves_quantizeRow (outS scaleS : ι) (cols : ℕ) (row : List ℤ) :
  (quantizeRow outS scaleS cols row).Moves 0 (tokens outS cols + tokens scaleS 1)
  := by
  rw [← add_zero (0 : ι → ℕ), add_comm (tokens outS cols)]
  apply (moves_send scaleS _).add
  intro _
  apply moves_forEach_send

/-- A quantiser takes a row for each token, and leaves its results and its scale. -/
theorem moves_quantiser {inS outS scaleS : ι} {inCols cols n : ℕ} {row : ℕ → Proc ι ℤ Unit}
    (h : ∀ t < n, (row t).Moves (tokens inS inCols) (tokens outS cols + tokens scaleS 1)) :
  (forEach n row).Moves (tokens inS (n * inCols))
    (tokens outS (n * cols) + tokens scaleS n)
  := by
  have hloop := moves_forEach_const h
  rw [smul_add, smul_tokens, smul_tokens, smul_tokens, Nat.mul_one] at hloop
  apply hloop

theorem moves_rmsnormQuant (inS outS scaleS : ι) (gamma : List ℤ) (seqLen : ℕ) :
  (rmsnormQuant inS outS scaleS gamma seqLen).Moves (tokens inS (seqLen * C))
    (tokens outS (seqLen * C) + tokens scaleS seqLen)
  := by
  apply moves_quantiser
  intro _ _
  apply (moves_readVec inS C).bind
  intro buf
  apply moves_quantizeRow

theorem moves_actQuant (inS outS scaleS : ι) (rows cols : ℕ) :
  (actQuant inS outS scaleS rows cols).Moves (tokens inS (rows * cols))
    (tokens outS (rows * cols) + tokens scaleS rows)
  := by
  apply moves_quantiser
  intro _ _
  apply (moves_readVec inS cols).bind
  intro rowBuf
  apply moves_quantizeRow

theorem moves_siluGateFuseQuant (gateUpS ffnActS ffnScaleS : ι) (nTokens : ℕ) :
  (siluGateFuseQuant gateUpS ffnActS ffnScaleS nTokens).Moves
    (tokens gateUpS (nTokens * nFfnGateup))
    (tokens ffnActS (nTokens * ffnDim) + tokens ffnScaleS nTokens)
  := by
  apply moves_quantiser
  intro _ _
  have hrow : tokens gateUpS nFfnGateup = tokens gateUpS ffnDim + tokens gateUpS ffnDim :=
    tokens_add gateUpS ffnDim ffnDim
  rw [hrow, ← zero_add (tokens ffnActS ffnDim + tokens ffnScaleS 1)]
  apply (moves_readVec gateUpS ffnDim).add
  intro gate
  apply (moves_readVec gateUpS ffnDim).bind
  intro up
  apply moves_quantizeRow

/-- The tile loops write a value for each row and column. -/
theorem moves_gemmTiles (outS : ι) (P : WeightPorts) (M K N : ℕ)
    (uninit : ℕ → ℕ → ℕ → TileRegisters) (actBuf : List (List ℤ)) (tokScales : List ℤ) :
  (gemmTiles outS P M K N uninit actBuf tokScales).Moves 0 (tokens outS (M * N))
  := by
  refine Moves.of_eq (r := N • 0) (w := N • tokens outS M) ?_ (smul_zero N)
    (by rw [smul_tokens, Nat.mul_comm])
  apply moves_forEach_tiles tileN_pos
  intro nt _
  refine Moves.of_eq (r := M • 0) (w := M • tokens outS (tileLen tileN N nt)) ?_
    (by rw [smul_zero, smul_zero]) (by rw [smul_tokens, smul_tokens, Nat.mul_comm])
  apply moves_forEach_tiles tileM_pos
  intro i _
  apply moves_forEach_const
  intro m _
  apply moves_forEach_send

/-- A multiplication takes `M` rows and their scales, and leaves `M * N` results. -/
theorem moves_w4a8Gemm (actS actScaleS outS : ι) (P : WeightPorts) (M K N : ℕ)
    (uninit : ℕ → ℕ → ℕ → TileRegisters) :
  (w4a8Gemm actS actScaleS outS P M K N uninit).Moves
    (tokens actS (M * K) + tokens actScaleS M) (tokens outS (M * N))
  := by
  rw [← zero_add (tokens outS (M * N))]
  apply (moves_readRows actS K M).add
  intro actBuf
  apply (moves_readVec actScaleS M).bind
  intro tokScales
  apply moves_gemmTiles

theorem moves_ropeApplyStream (inS outS : ι) (posStart nHeads nTokens : ℕ) :
  (ropeApplyStream inS outS posStart nHeads nTokens).Moves
    (tokens inS (nTokens * (nHeads * dHead))) (tokens outS (nTokens * (nHeads * dHead)))
  := by
  rw [← smul_tokens nTokens inS, ← smul_tokens nTokens outS]
  apply moves_forEach_const
  intro t _
  rw [← smul_tokens nHeads inS, ← smul_tokens nHeads outS]
  apply moves_forEach_const
  intro _ _
  apply (moves_readVec inS dHead).bind
  intro vec
  apply moves_forEach_send

/-- The split takes the row of a token and leaves its queries, keys and values. -/
theorem moves_split (qkvIn qPre kPre vOut : ι) (nTokens : ℕ) :
  (split qkvIn qPre kPre vOut nTokens).Moves (tokens qkvIn (nTokens * nQkv))
    (tokens qPre (nTokens * (hQ * dHead))
      + (tokens kPre (nTokens * (hKv * dHead)) + tokens vOut (nTokens * (hKv * dHead))))
  := by
  have hrow : tokens qkvIn nQkv
      = tokens qkvIn (hQ * dHead) + (tokens qkvIn (hKv * dHead) + tokens qkvIn (hKv * dHead)) := by
    rw [← tokens_add, ← tokens_add]
    rfl
  rw [← smul_tokens nTokens qkvIn, ← smul_tokens nTokens qPre, ← smul_tokens nTokens kPre,
    ← smul_tokens nTokens vOut, ← smul_add, ← smul_add, hrow]
  apply moves_forEach_const
  intro _ _
  apply (moves_forEach_copy qkvIn qPre _).add
  intro _
  apply (moves_forEach_copy qkvIn kPre _).add
  intro _
  apply moves_forEach_copy

/-- The rotation leaves the rotated queries and keys, and the values, and nothing on the
streams between its processes. -/
theorem moves_ropeSplitQk (qkvIn qPre kPre qRotOut kRotOut vOut : ι) (posStart nTokens : ℕ) :
  (ropeSplitQk qkvIn qPre kPre qRotOut kRotOut vOut posStart nTokens).Moves
    (tokens qkvIn (nTokens * nQkv))
    (tokens qRotOut (nTokens * (hQ * dHead))
      + (tokens kRotOut (nTokens * (hKv * dHead)) + tokens vOut (nTokens * (hKv * dHead))))
  := by
  apply (moves_split qkvIn qPre kPre vOut nTokens).bind
  intro _
  apply ((moves_ropeApplyStream qPre qRotOut posStart hQ nTokens).frame _).bind
  intro _
  rw [add_left_comm, add_left_comm (tokens qRotOut _)]
  apply (moves_ropeApplyStream kPre kRotOut posStart hKv nTokens).frame

theorem moves_kvCacheWrite (kS vS : ι) (curPos nTokens layerId headId : ℕ) (bank : Fin 2)
    (st : KvState) :
  (kvCacheWrite kS vS curPos nTokens layerId headId bank st).Moves
    (nTokens • (tokens kS dHead + tokens vS dHead)) 0
  := by
  rw [← smul_zero nTokens]
  apply moves_forLoop_const
  intro t _ st
  apply (moves_readPairs kS vS dHead).bind
  intro _
  apply moves_ret

/-- The attention of a head leaves as much as it takes. -/
theorem moves_flashAttentionHeadWith (attend : KVCacheHead → ℕ → List ℤ → ℕ → ℤ) (qS oS : ι)
    (bank : KVCacheHead) (kvLen qLen : ℕ) :
  (flashAttentionHeadWith attend qS oS bank kvLen qLen).Moves
    (qLen • tokens qS (gqaRatio * dHead)) (qLen • tokens oS (gqaRatio * dHead))
  := by
  apply moves_forEach_tiles qTile_pos
  intro qt _
  rw [smul_tokens, smul_tokens, ← Nat.mul_assoc]
  apply (moves_readRows qS dHead _).bind
  intro qBuf
  have h := moves_forEach_const (n := tileLen qTile qLen qt * gqaRatio) fun q _ =>
    moves_forEach_send oS dHead fun d => attend bank kvLen (qBuf.getD q []) d
  rw [smul_zero, smul_tokens] at h
  apply h

/-- A KV head takes its keys and values and the queries of its heads. -/
theorem moves_mhaHead (qS kS vS oS : ι) (curPos kvLen qLen layerId h : ℕ)
    (s : KvState × Fin 2) :
  (mhaHeadWith flashRow qS kS vS oS curPos kvLen qLen layerId h s).Moves
    (qLen • (tokens kS dHead + tokens vS dHead) + qLen • tokens qS (gqaRatio * dHead))
    (qLen • tokens oS (gqaRatio * dHead))
  := by
  rw [← zero_add (qLen • tokens oS (gqaRatio * dHead))]
  apply (moves_kvCacheWrite kS vS curPos qLen layerId h s.2 _).add
  intro st
  apply (moves_flashAttentionHeadWith flashRow qS oS (st.kvBuf s.2) kvLen qLen).bind
  intro _
  apply moves_ret

/-- The attention takes the queries, keys and values of all heads. -/
theorem moves_multiHeadAttention (qS kS vS oS : ι) (curPos kvLen qLen layerId : ℕ)
    (st : KvState) :
  (multiHeadAttention qS kS vS oS curPos kvLen qLen layerId st).Moves
    (tokens qS (qLen * C)
      + (tokens kS (qLen * (hKv * dHead)) + tokens vS (qLen * (hKv * dHead))))
    (tokens oS (qLen * C))
  := by
  have hheads := moves_forLoop_const (n := hKv)
    (fun h _ => moves_mhaHead qS kS vS oS curPos kvLen qLen layerId h) (st, 0)
  refine Moves.bind (hheads.of_eq ?_ ?_) fun s => moves_ret s.1 _
  · have hq : hKv * (qLen * (gqaRatio * dHead)) = qLen * C := by
      change 5 * (qLen * 192) = qLen * 960
      omega
    have hkv : hKv * (qLen * dHead) = qLen * (hKv * dHead) := Nat.mul_left_comm _ _ _
    rw [smul_add, smul_add, smul_add, smul_tokens, smul_tokens, smul_tokens, smul_tokens,
      smul_tokens, smul_tokens, hq, hkv, add_comm]
  · rw [smul_tokens, smul_tokens]
    congr 1
    change 5 * (qLen * 192) = qLen * 960
    omega

theorem moves_oScatter (oHeadS oFlatS : ι) (seqLen : ℕ) :
  (oScatter oHeadS oFlatS seqLen).Moves (tokens oHeadS (seqLen * C)) (tokens oFlatS (seqLen * C))
  := by
  rw [← smul_tokens seqLen oHeadS, ← smul_tokens seqLen oFlatS]
  apply moves_forEach_const
  intro _ _
  apply moves_forEach_copy

end Stages

/-! ### Balance of a launch -/

section Launch

variable (l : Launch) (P : DecoderPorts)

theorem moves_layerGemm {m : LayerMatrix} {K N : ℕ} (hK : m.inCols = K) (hN : m.outCols = N)
    (actS actScaleS outS : DecoderChan) :
  (l.layerGemm P m actS actScaleS outS).Moves
    (tokens actS (l.workTokenCount * K) + tokens actScaleS l.workTokenCount)
    (tokens outS (l.workTokenCount * N))
  := by
  rw [← hK, ← hN]
  apply moves_w4a8Gemm

theorem moves_attentionStages (resBuf0 : ResBuf) (kv : KvState) :
  (l.attentionStages P resBuf0 kv).Moves 0 (tokens .attnO (l.workTokenCount * C))
  := by
  apply (moves_resToStream resBuf0 DecoderChan.rawAct l.workTokenOffset l.workTokenCount).bind
  intro _
  apply (moves_rmsnormQuant DecoderChan.rawAct .norm1Q .norm1Sc _ l.workTokenCount).bind
  intro _
  apply (moves_layerGemm l P (m := .qkv) (K := C) (N := nQkv) rfl rfl .norm1Q .norm1Sc .qkvOut).bind
  intro _
  apply (moves_ropeSplitQk DecoderChan.qkvOut .qPre .kPre .qRot .kRot .vPass l.curPos
    l.workTokenCount).bind
  intro _
  apply moves_multiHeadAttention

theorem moves_projectionStages (resBuf0 : ResBuf) :
  (l.projectionStages P resBuf0).Moves (tokens .attnO (l.workTokenCount * C)) 0
  := by
  apply (moves_oScatter DecoderChan.attnO .oFlat l.workTokenCount).bind
  intro _
  apply (moves_actQuant DecoderChan.oFlat .oQ .oSc l.workTokenCount C).bind
  intro _
  apply (moves_layerGemm l P (m := .o) (K := C) (N := C) rfl rfl .oQ .oSc .oprojOut).bind
  intro _
  apply moves_residualAddRange

theorem moves_ffnStages (resBuf1 : ResBuf) :
  (l.ffnStages P resBuf1).Moves 0 0
  := by
  apply (moves_resToStream resBuf1 DecoderChan.rawAct2 l.workTokenOffset l.workTokenCount).bind
  intro _
  apply (moves_rmsnormQuant DecoderChan.rawAct2 .norm2Q .norm2Sc _ l.workTokenCount).bind
  intro _
  apply (moves_layerGemm l P (m := .gateUp) (K := C) (N := nFfnGateup) rfl rfl .norm2Q .norm2Sc
    .gateupOut).bind
  intro _
  apply (moves_siluGateFuseQuant DecoderChan.gateupOut .ffnAct .ffnSc l.workTokenCount).bind
  intro _
  apply (moves_layerGemm l P (m := .down) (K := ffnDim) (N := C) rfl rfl .ffnAct .ffnSc
    .downOut).bind
  intro _
  apply moves_residualAddRange

/-- The packing loop takes all logits. -/
theorem moves_storeLogits (lmheadOut : ℕ → AXI256) :
  (Launch.storeLogits lmheadOut).Moves (tokens .lmOut vocab) 0
  := by
  have hvocab : vocab = vocab / 8 * 8 := by decide
  rw [hvocab, ← smul_tokens, ← smul_zero (vocab / 8)]
  apply moves_forLoop_const
  intro v _ lmheadOut
  apply (moves_readVec DecoderChan.lmOut 8).bind
  intro vals
  apply moves_ret

theorem moves_lmheadStages (resBuf1 : ResBuf) (lmheadOut : ℕ → AXI256) :
  (l.lmheadStages P resBuf1 lmheadOut).Moves 0 0
  := by
  apply (moves_forEach_send DecoderChan.lmRaw C fun c => resBuf1 (l.seqLen - 1) c).bind
  intro _
  rw [← Nat.one_mul C]
  apply (moves_rmsnormQuant DecoderChan.lmRaw .lmQ .lmSc _ 1).bind
  intro _
  apply (moves_w4a8Gemm DecoderChan.lmQ .lmSc .lmOut _ 1 C vocab P.lmheadUninit).bind
  intro _
  rw [Nat.one_mul]
  apply moves_storeLogits

theorem moves_logitsStage (resBuf1 : ResBuf) (lmheadOut : ℕ → AXI256) :
  (l.logitsStage P resBuf1 lmheadOut).Moves 0 0
  := by
  rw [Launch.logitsStage]
  split_ifs
  · apply moves_lmheadStages
  · apply moves_ret

/-- A launch takes nothing from the streams and leaves nothing on them. -/
theorem moves_smolvlm2DecoderLayer (mem : DecoderMemory) :
  (l.smolvlm2DecoderLayer P mem).Moves 0 0
  := by
  apply (moves_attentionStages l P _ mem.kv).bind
  intro kv
  apply (moves_projectionStages l P _).bind
  intro resBuf0
  apply (moves_ffnStages l P _).bind
  intro resBuf1
  apply (moves_logitsStage l P resBuf1 mem.lmheadOut).bind
  intro lmheadOut
  apply moves_ret

end Launch

/-- So does any number of launches. -/
theorem moves_runDecoderLaunches (ls : List (Launch × DecoderPorts)) (mem : DecoderMemory) :
  (runDecoderLaunches ls mem).Moves 0 0
  := by
  induction ls generalizing mem with
  | nil => apply moves_ret
  | cons lP ls ih =>
      apply (moves_smolvlm2DecoderLayer lP.1 lP.2 mem).bind
      apply ih

/-- From empty streams, a launch with any arguments reads no empty stream and leaves all of
them empty; so does every launch of a run. -/
theorem smolvlm2DecoderLayer_balanced (l : Launch) (P : DecoderPorts) (mem : DecoderMemory) :
  (∃ mem', (l.smolvlm2DecoderLayer P mem).run (fun _ => []) = some (mem', fun _ => []))
  ∧ ∀ ls : List (Launch × DecoderPorts), ∃ mem',
      (runDecoderLaunches ls mem).run (fun _ => []) = some (mem', fun _ => [])
        ∧ ∃ mem'', (l.smolvlm2DecoderLayer P mem').run (fun _ => []) = some (mem'', fun _ => [])
  := by
  have hlaunch : ∀ mem, ∃ mem',
      (l.smolvlm2DecoderLayer P mem).run (fun _ => []) = some (mem', fun _ => []) :=
    fun mem => (moves_smolvlm2DecoderLayer l P mem).run_empty
  constructor
  · apply hlaunch
  · intro ls
    obtain ⟨mem', hrun⟩ := (moves_runDecoderLaunches ls mem).run_empty
    exact ⟨mem', hrun, hlaunch mem'⟩

end Kv260
