import SmolVlm2Kv260.Dataflow.DecoderLayer
import SmolVlm2Kv260.Dataflow.SoundQuant
import SmolVlm2Kv260.Kernel.HeadOrder
import SmolVlm2Kv260.Process.Pipeline

/-!
# What a launch of the decoder kernel computes

`Launch.layerFunction` is the function that a launch computes on the memory of the device:
the residual buffers, the KV cache, the activation buffers and the logits after the launch,
from those before.  Values are taken from a stream in the order in which they were put
there, so the function follows the streams: what a stage reads as column `c` of token `t` is
the value number `t * k + c` of those that the stage before has written.

The quantisers and the multiplications they feed are one stage, on five sets of streams of
the kernel; the attention part is another.  The function is that of the kernel as long as no
scale is zero: a quantiser divides by its scales, and `quantizeRow` gives codes of zero then.
-/

set_option autoImplicit false

namespace Kv260

open Proc Blocks

/-! ### Streams of tokens -/

/-- The values of `n` tokens with `k` columns each, token by token. -/
def tokenStream (n k : ℕ) (x : ℕ → ℕ → ℤ) : List ℤ :=
  (List.range n).flatMap fun t => (List.range k).map (x t)

/-- What is read as column `c` of token `t`, with `k` columns each. -/
def streamEntry (k : ℕ) (xs : List ℤ) (t c : ℕ) : ℤ := xs.getD (t * k + c) 0

theorem tokenStream_streamEntry {n k : ℕ} {xs : List ℤ} (h : xs.length = n * k) :
  tokenStream n k (streamEntry k xs) = xs
  := by
  have hmul := map_range_mul n k fun i => xs.getD i 0
  rw [map_range_getD h] at hmul
  exact hmul

theorem tokenStream_one (k : ℕ) (x : ℕ → ℕ → ℤ) :
  tokenStream 1 k x = (List.range k).map (x 0)
  := by
  rw [tokenStream, List.range_one, List.flatMap_singleton]

/-! ### A quantiser and its multiplication -/

namespace DynamicQuantiser

variable (q : DynamicQuantiser) (hq : q.WellFormed) (P : WeightPorts) (n : ℕ)

/-- The values that are quantised for token `t`. -/
def tokenRow (x : ℕ → ℕ → ℤ) (t : ℕ) : List ℤ := q.row ((List.range q.inCols).map (x t))

theorem length_tokenRow (hq : q.WellFormed) (x : ℕ → ℕ → ℤ) (t : ℕ) :
  (q.tokenRow x t).length = q.cols
  := by
  apply length_row hq
  rw [List.length_map, List.length_range]

/-- The operands of the multiplication: the codes and the scales of the tokens. -/
def operands (x : ℕ → ℕ → ℤ) : GemmOperands n q.cols where
  acts := (List.range n).map fun t => quantCodes (q.tokenRow x t)
  scales := (List.range n).map fun t => tokScale (q.tokenRow x t)
  ports := P
  length_acts := by rw [List.length_map, List.length_range]
  length_row := by
    intro r hr
    obtain ⟨t, -, rfl⟩ := List.mem_map.mp hr
    rw [quantCodes, List.length_map, q.length_tokenRow hq]
  length_scales := by rw [List.length_map, List.length_range]
  int8_acts := by
    intro r hr a ha
    obtain ⟨t, -, rfl⟩ := List.mem_map.mp hr
    obtain ⟨x, -, rfl⟩ := List.mem_map.mp ha
    apply isApInt_apInt (by decide)
  int8_scales := by
    intro s hs
    obtain ⟨t, -, rfl⟩ := List.mem_map.mp hs
    apply isApInt_apInt (by decide)

/-- What the next stage reads as column `c` of token `t`, of `N` columns. -/
def product (N : ℕ) (x : ℕ → ℕ → ℤ) : ℕ → ℕ → ℤ :=
  streamEntry N ((q.operands hq P n x).outList N)

/-- The quantiser and the multiplication, one after the other. -/
def thenGemm (N : ℕ) (uninit : ℕ → ℕ → ℕ → TileRegisters) : Proc QuantGemmChan ℤ Unit := do
  q.proc n
  w4a8Gemm .act .actScale .out P n q.cols N uninit

theorem pipes_thenGemm (N : ℕ) (uninit : ℕ → ℕ → ℕ → TileRegisters) (x : ℕ → ℕ → ℤ) :
  (q.thenGemm P n N uninit).Pipes .input (tokenStream n q.inCols x)
    .out (tokenStream n N (q.product hq P n N x)) ()
  := by
  have htokens : ∀ data ∈ (List.range n).map (fun t => (List.range q.inCols).map (x t)),
      data.length = q.inCols := by
    intro data hdata
    obtain ⟨t, -, rfl⟩ := List.mem_map.mp hdata
    rw [List.length_map, List.length_range]
  have hquant := run_proc hq htokens
  rw [List.length_map, List.length_range, List.flatMap_map, List.map_map,
    ← List.flatMap_def] at hquant
  have hflat : ((q.operands hq P n x).acts).flatten
      = (List.range n).flatMap fun t => quantCodes (q.tokenRow x t) := (List.flatMap_def ..).symm
  have hrows := run_readRows (q.operands hq P n x).length_acts (q.operands hq P n x).length_row
    (σ := streams [] (q.operands hq P n x).acts.flatten (q.operands hq P n x).scales)
    (c := .act) (List.append_nil _).symm
  have hscales := run_readVec (q.operands hq P n x).length_scales (c := .actScale)
    (σ := Function.update (streams [] (q.operands hq P n x).acts.flatten
      (q.operands hq P n x).scales) .act []) (List.append_nil _).symm
  have hin : only .input (tokenStream n q.inCols x) = streams (tokenStream n q.inCols x) [] [] := by
    funext c
    cases c with
    | input => rfl
    | act => rfl
    | actScale => rfl
    | out => rfl
  rw [Pipes, thenGemm, hin]
  refine Eq.trans (run_bind_of_run hquant) ?_
  rw [w4a8Gemm]
  refine Eq.trans (run_bind_of_run hrows) ?_
  refine Eq.trans (run_bind_of_run hscales) ?_
  refine Eq.trans ((q.operands hq P n x).emits_gemmTiles QuantGemmChan.out N uninit _) ?_
  rw [product, tokenStream_streamEntry ((q.operands hq P n x).length_outList N)]
  congr 2
  funext c
  cases c with
  | input => rfl
  | act => rfl
  | actScale => rfl
  | out => rfl

end DynamicQuantiser

/-! ### The stages on the streams of the kernel -/

/-- The multiplications of a launch. -/
inductive GemmStage where
  | layer (m : LayerMatrix)
  | lmhead

/-- The streams of a quantiser and its multiplication. -/
def GemmStage.chan : GemmStage → QuantGemmChan → DecoderChan
  | layer .qkv, .input => .rawAct
  | layer .qkv, .act => .norm1Q
  | layer .qkv, .actScale => .norm1Sc
  | layer .qkv, .out => .qkvOut
  | layer .o, .input => .oFlat
  | layer .o, .act => .oQ
  | layer .o, .actScale => .oSc
  | layer .o, .out => .oprojOut
  | layer .gateUp, .input => .rawAct2
  | layer .gateUp, .act => .norm2Q
  | layer .gateUp, .actScale => .norm2Sc
  | layer .gateUp, .out => .gateupOut
  | layer .down, .input => .gateupOut
  | layer .down, .act => .ffnAct
  | layer .down, .actScale => .ffnSc
  | layer .down, .out => .downOut
  | lmhead, .input => .lmRaw
  | lmhead, .act => .lmQ
  | lmhead, .actScale => .lmSc
  | lmhead, .out => .lmOut

theorem GemmStage.chan_injective (s : GemmStage) :
  Function.Injective s.chan
  := by
  intro c d h
  cases s with
  | layer m => cases m <;> cases c <;> cases d <;> first | rfl | cases h
  | lmhead => cases c <;> cases d <;> first | rfl | cases h

/-- The streams of the attention part. -/
def attnChan : AttnChan → DecoderChan
  | .qkvIn => .qkvOut
  | .qPre => .qPre
  | .kPre => .kPre
  | .qRot => .qRot
  | .kRot => .kRot
  | .vPass => .vPass
  | .attnO => .attnO
  | .oFlat => .oFlat

theorem attnChan_injective :
  Function.Injective attnChan
  := by
  intro c d h
  cases c <;> cases d <;> first | rfl | cases h

section Rename

variable {ι κ : Type} (e : ι → κ)

@[simp]
theorem rename_quantizeRow (outS scaleS : ι) (cols : ℕ) (row : List ℤ) :
  (quantizeRow outS scaleS cols row).rename e = quantizeRow (e outS) (e scaleS) cols row
  := by simp only [quantizeRow, rename_bind, rename_send, rename_forEach]

@[simp]
theorem rename_rmsnormQuant (inS outS scaleS : ι) (gamma : List ℤ) (n : ℕ) :
  (rmsnormQuant inS outS scaleS gamma n).rename e
    = rmsnormQuant (e inS) (e outS) (e scaleS) gamma n
  := by
  simp only [rmsnormQuant, rename_forEach, rename_bind, rename_readVec, rename_quantizeRow]

@[simp]
theorem rename_actQuant (inS outS scaleS : ι) (n cols : ℕ) :
  (actQuant inS outS scaleS n cols).rename e = actQuant (e inS) (e outS) (e scaleS) n cols
  := by
  simp only [actQuant, rename_forEach, rename_bind, rename_readVec, rename_quantizeRow]

@[simp]
theorem rename_siluGateFuseQuant (gateUpS ffnActS ffnScaleS : ι) (n : ℕ) :
  (siluGateFuseQuant gateUpS ffnActS ffnScaleS n).rename e
    = siluGateFuseQuant (e gateUpS) (e ffnActS) (e ffnScaleS) n
  := by
  simp only [siluGateFuseQuant, rename_forEach, rename_bind, rename_readVec, rename_quantizeRow]

@[simp]
theorem rename_w4a8Gemm (actS actScaleS outS : ι) (P : WeightPorts) (M K N : ℕ)
    (uninit : ℕ → ℕ → ℕ → TileRegisters) :
  (w4a8Gemm actS actScaleS outS P M K N uninit).rename e
    = w4a8Gemm (e actS) (e actScaleS) (e outS) P M K N uninit
  := by
  simp only [w4a8Gemm, gemmTiles, rename_bind, rename_readRows, rename_readVec, rename_forEach,
    rename_send]

@[simp]
theorem rename_ropeSplitQk (qkvIn qPre kPre qRotOut kRotOut vOut : ι) (posStart nTokens : ℕ) :
  (ropeSplitQk qkvIn qPre kPre qRotOut kRotOut vOut posStart nTokens).rename e
    = ropeSplitQk (e qkvIn) (e qPre) (e kPre) (e qRotOut) (e kRotOut) (e vOut) posStart nTokens
  := by
  simp only [ropeSplitQk, split, ropeApplyStream, rename_bind, rename_forEach, rename_recv,
    rename_readVec, rename_send]

@[simp]
theorem rename_multiHeadAttention (qS kS vS oS : ι) (curPos kvLen qLen layerId : ℕ)
    (st : KvState) :
  (multiHeadAttention qS kS vS oS curPos kvLen qLen layerId st).rename e
    = multiHeadAttention (e qS) (e kS) (e vS) (e oS) curPos kvLen qLen layerId st
  := by
  simp only [multiHeadAttention, multiHeadAttentionWith, mhaHeadsWith, mhaHeadWith, loadWriteHead,
    kvCacheWrite, flashAttentionHeadWith, rename_bind, rename_forLoop, rename_forEach,
    rename_readPairs, rename_readRows, rename_send, rename_pure]
  rfl

@[simp]
theorem rename_oScatter (oHeadS oFlatS : ι) (seqLen : ℕ) :
  (oScatter oHeadS oFlatS seqLen).rename e = oScatter (e oHeadS) (e oFlatS) seqLen
  := by
  simp only [oScatter, rename_bind, rename_forEach, rename_recv, rename_send]

end Rename

/-! ### Residual buffers -/

theorem copyRows_eq (src dst : ResBuf) (off n : ℕ) :
  copyRows src dst off n = dst.mapRows off n fun t c _ => src (off + t) c
  := dst.foldl_set_rows off n fun t c _ => src (off + t) c

theorem pipes_resToStream (src : ResBuf) (outS c : DecoderChan) (off n : ℕ) :
  (resToStream src outS off n).Pipes c [] outS (tokenStream n C fun t c => src (off + t) c) ()
  := by
  apply Emits.pipes
  apply emits_forEach
  intro t _
  apply emits_forEach_send

/-- The loop over the columns of a row. -/
theorem consumes_addColumns (deltaS : DecoderChan) (res : ResBuf) (r k : ℕ) (d : ℕ → ℤ) :
  (forLoop k res fun c res => do
      let v ← recv deltaS
      return res.set r c (apInt 32 (res r c + v)) : Proc DecoderChan ℤ ResBuf).Consumes deltaS
    ((List.range k).map d)
    ((List.range k).foldl (fun res c => res.set r c (apInt 32 (res r c + d c))) res)
  := by
  rw [List.map_eq_flatMap]
  apply consumes_forLoop_fold (g := fun c v (res : ResBuf) =>
    res.set r c (apInt 32 (res r c + v)))
  intro c _
  apply consumes_recv

/-- `residual_add_range` takes the values of the work tokens and adds them to their rows. -/
theorem pipes_residualAddRange (deltaS d' : DecoderChan) (res : ResBuf) (off n : ℕ)
    (x : ℕ → ℕ → ℤ) :
  (residualAddRange deltaS res off n).Pipes deltaS (tokenStream n C x) d' []
    (res.mapRows off n fun t c v => apInt 32 (v + x t c))
  := by
  have hstep : ∀ t, (List.range (t + 1)).foldl (fun res t =>
      (List.range C).foldl (fun (res : ResBuf) c =>
        res.set (off + t) c (apInt 32 (res (off + t) c + x t c))) res) res
      = (List.range C).foldl (fun (res : ResBuf) c =>
        res.set (off + t) c (apInt 32 (res (off + t) c + x t c)))
          ((List.range t).foldl (fun res t =>
            (List.range C).foldl (fun (res : ResBuf) c =>
              res.set (off + t) c (apInt 32 (res (off + t) c + x t c))) res) res) := by
    intro t
    rw [List.range_succ (n := t), List.foldl_append, List.foldl_cons, List.foldl_nil]
  have hloop : (residualAddRange deltaS res off n).Consumes deltaS (tokenStream n C x)
      ((List.range n).foldl (fun res t =>
        (List.range C).foldl (fun (res : ResBuf) c =>
          res.set (off + t) c (apInt 32 (res (off + t) c + x t c))) res) res) := by
    apply consumes_forLoop fun t => (List.range t).foldl (fun res t =>
      (List.range C).foldl (fun (res : ResBuf) c =>
        res.set (off + t) c (apInt 32 (res (off + t) c + x t c))) res) res
    intro t _
    rw [hstep]
    apply consumes_addColumns
  rw [Memory.Grid.foldl_set_rows res off n fun t c v => apInt 32 (v + x t c)] at hloop
  apply Consumes.pipes hloop

/-! ### The function of a launch -/

theorem DynamicQuantiser.wellFormed_rmsnorm (gammaDdr : ℕ → AXI256) :
  (DynamicQuantiser.rmsnorm (loadGamma gammaDdr)).WellFormed
  := (GammaVector.ofBuffer gammaDdr).length_vals

theorem DynamicQuantiser.wellFormed_act (cols : ℕ) :
  (DynamicQuantiser.act cols).WellFormed
  := trivial

theorem DynamicQuantiser.wellFormed_silu :
  DynamicQuantiser.silu.WellFormed
  := trivial

/-- The words of the logits, eight to a word. -/
def writeLogits (logits : ℕ → ℤ) (lmheadOut : ℕ → AXI256) (v : ℕ) : AXI256 :=
  if v < vocab / 8 then packLanes 256 8 fun b => BitVec.ofInt 32 (logits (v * 8 + b))
  else lmheadOut v

/-- The logits of a row. -/
def lmheadLogits (gammaFfn lmheadWgt lmheadMeta : ℕ → AXI256) (x : ℕ → ℤ) : ℕ → ℤ :=
  (DynamicQuantiser.rmsnorm (loadGamma gammaFfn)).product (DynamicQuantiser.wellFormed_rmsnorm _)
    (lmheadPorts lmheadWgt lmheadMeta) 1 vocab (fun _ => x) 0

/-- The logits of a row, with the ports of a launch. -/
def DecoderPorts.logitsOf (P : DecoderPorts) : (ℕ → ℤ) → ℕ → ℤ :=
  lmheadLogits P.gammaFfn P.lmheadWgt P.lmheadMeta

namespace Launch

variable (l : Launch) (P : DecoderPorts)

/-- The rows after the QKV projection. -/
def qkvRows (x : ℕ → ℕ → ℤ) : ℕ → ℕ → ℤ :=
  (DynamicQuantiser.rmsnorm (loadGamma P.gammaAttn)).product (DynamicQuantiser.wellFormed_rmsnorm _)
    (l.gemmPorts P.weights .qkv) l.workTokenCount nQkv x

/-- The rows after the attention. -/
def attnRows (kv : KvState) (qkv : ℕ → ℕ → ℤ) : ℕ → ℕ → ℤ :=
  streamEntry C (attentionOut flashRow qkv l.curPos l.kvLen l.workTokenCount l.layerId kv)

/-- The cache and its banks after the attention. -/
def kvAfter (kv : KvState) (qkv : ℕ → ℕ → ℤ) : KvState :=
  stateAfterHeads l.curPos l.workTokenCount l.layerId (kVec qkv l.curPos) (vVec qkv) kv hKv

/-- The rows after the O projection. -/
def oprojRows (attn : ℕ → ℕ → ℤ) : ℕ → ℕ → ℤ :=
  (DynamicQuantiser.act C).product (DynamicQuantiser.wellFormed_act C) (l.gemmPorts P.weights .o)
    l.workTokenCount C attn

/-- The rows after the gate and up projection. -/
def gateupRows (x : ℕ → ℕ → ℤ) : ℕ → ℕ → ℤ :=
  (DynamicQuantiser.rmsnorm (loadGamma P.gammaFfn)).product (DynamicQuantiser.wellFormed_rmsnorm _)
    (l.gemmPorts P.weights .gateUp) l.workTokenCount nFfnGateup x

/-- The rows after the down projection. -/
def downRows (gateup : ℕ → ℕ → ℤ) : ℕ → ℕ → ℤ :=
  DynamicQuantiser.silu.product DynamicQuantiser.wellFormed_silu (l.gemmPorts P.weights .down)
    l.workTokenCount C gateup

/-- The rows of the work tokens of a residual buffer. -/
def work (res : ResBuf) (t c : ℕ) : ℤ := res (l.workTokenOffset + t) c

/-- A residual buffer with `d` added to the rows of the work tokens. -/
def addWork (res : ResBuf) (d : ℕ → ℕ → ℤ) : ResBuf :=
  res.mapRows l.workTokenOffset l.workTokenCount fun t c v => apInt 32 (v + d t c)

/-- The memory after a launch. -/
def layerFunction (mem : DecoderMemory) : DecoderMemory :=
  let resBuf0 := loadAct (mem.act l.src) l.workTokenOffset l.workTokenCount mem.resBuf0
  let qkv := l.qkvRows P (l.work resBuf0)
  let resBuf0 := l.addWork resBuf0 (l.oprojRows P (l.attnRows mem.kv qkv))
  let resBuf1 := copyRows resBuf0 mem.resBuf1 l.workTokenOffset l.workTokenCount
  let resBuf1 := l.addWork resBuf1 (l.downRows P (l.gateupRows P (l.work resBuf1)))
  { resBuf0
    resBuf1
    kv := l.kvAfter mem.kv qkv
    act := Function.update mem.act l.actOut
      (storeAct resBuf1 l.workTokenOffset l.workTokenCount (mem.act l.actOut))
    lmheadOut :=
      if l.runLmhead ≠ 0 then writeLogits (P.logitsOf (resBuf1 (l.seqLen - 1))) mem.lmheadOut
      else mem.lmheadOut }

/-! ### The stages compute it -/

theorem pipes_layerGemm (q : DynamicQuantiser) (hq : q.WellFormed) (m : LayerMatrix)
    (hcols : q.cols = m.inCols) (x : ℕ → ℕ → ℤ) :
  (do (q.proc l.workTokenCount).rename (GemmStage.layer m).chan
      l.layerGemm P m ((GemmStage.layer m).chan .act) ((GemmStage.layer m).chan .actScale)
        ((GemmStage.layer m).chan .out) : Proc DecoderChan ℤ Unit).Pipes
    ((GemmStage.layer m).chan .input) (tokenStream l.workTokenCount q.inCols x)
    ((GemmStage.layer m).chan .out) (tokenStream l.workTokenCount m.outCols
      (q.product hq (l.gemmPorts P.weights m) l.workTokenCount m.outCols x)) ()
  := by
  have h := (q.pipes_thenGemm hq (l.gemmPorts P.weights m) l.workTokenCount m.outCols (P.uninit m)
    x).rename (GemmStage.layer m).chan_injective
  rw [DynamicQuantiser.thenGemm, rename_bind] at h
  simp only [rename_w4a8Gemm, hcols] at h
  exact h

/-- Rotary embedding and attention, on their own streams. -/
theorem pipes_attention (kv : KvState) (qkv : ℕ → ℕ → ℤ) :
  (do ropeSplitQk .qkvIn .qPre .kPre .qRot .kRot .vPass l.curPos l.workTokenCount
      multiHeadAttention .qRot .kRot .vPass .attnO l.curPos l.kvLen l.workTokenCount l.layerId
        kv : Proc AttnChan ℤ KvState).Pipes
    .qkvIn (tokenStream l.workTokenCount nQkv qkv)
    .attnO (tokenStream l.workTokenCount C (l.attnRows kv qkv)) (l.kvAfter kv qkv)
  := by
  have hin : only .qkvIn (tokenStream l.workTokenCount nQkv qkv)
      = { qkvIn := qkvStream qkv l.workTokenCount : AttnStreams }.store := by
    funext c
    cases c <;> rfl
  have hheads := run_multiHeadAttentionWith l.curPos l.workTokenCount l.layerId flashRow l.kvLen kv
    (length_kVec qkv l.curPos) (length_vVec qkv) (length_qVec qkv l.curPos) _
    (rotated_kRot qkv l.curPos l.workTokenCount) (rotated_vPass qkv l.curPos l.workTokenCount)
    (rotated_qRot qkv l.curPos l.workTokenCount)
  have hout : tokenStream l.workTokenCount C (l.attnRows kv qkv)
      = attentionOut flashRow qkv l.curPos l.kvLen l.workTokenCount l.layerId kv :=
    tokenStream_streamEntry (length_attentionOut flashRow qkv l.curPos l.kvLen l.workTokenCount
      l.layerId kv)
  rw [Pipes, hin, run_bind_of_run (run_ropeSplitQk qkv l.curPos l.workTokenCount), hout]
  refine Eq.trans hheads ?_
  congr 2
  funext c
  cases c <;> rfl

theorem pipes_attentionStages (resBuf0 : ResBuf) (kv : KvState) (c : DecoderChan) :
  (l.attentionStages P resBuf0 kv).Pipes c [] .attnO
    (tokenStream l.workTokenCount C (l.attnRows kv (l.qkvRows P (l.work resBuf0))))
    (l.kvAfter kv (l.qkvRows P (l.work resBuf0)))
  := by
  have hattn := (l.pipes_attention kv (l.qkvRows P (l.work resBuf0))).rename attnChan_injective
  simp only [rename_bind, rename_ropeSplitQk, rename_multiHeadAttention, attnChan] at hattn
  have hqkv := l.pipes_layerGemm P (.rmsnorm (loadGamma P.gammaAttn))
    (DynamicQuantiser.wellFormed_rmsnorm _) .qkv rfl (l.work resBuf0)
  apply (pipes_resToStream resBuf0 .rawAct c l.workTokenOffset l.workTokenCount).bind
  rw [← then_assoc]
  refine Pipes.bind (d := .qkvOut) (a := ()) ?_ hattn
  rw [DynamicQuantiser.proc, rename_rmsnormQuant] at hqkv
  exact hqkv

theorem pipes_projectionStages (resBuf0 : ResBuf) (attn : ℕ → ℕ → ℤ) (c : DecoderChan) :
  (l.projectionStages P resBuf0).Pipes .attnO (tokenStream l.workTokenCount C attn) c []
    (l.addWork resBuf0 (l.oprojRows P attn))
  := by
  have hlen : (tokenStream l.workTokenCount C attn).length = l.workTokenCount * C := by
    apply length_flatMap_range
    intro t _
    rw [List.length_map, List.length_range]
  have hscatter := ((transfers_oScatter l.workTokenCount hlen).pipes (by decide)).rename
    attnChan_injective
  simp only [rename_oScatter, attnChan] at hscatter
  have ho := l.pipes_layerGemm P (.act C) (DynamicQuantiser.wellFormed_act C) .o rfl attn
  apply hscatter.bind
  rw [← then_assoc]
  refine Pipes.bind (d := .oprojOut) (a := ()) ?_ (pipes_residualAddRange .oprojOut c resBuf0
    l.workTokenOffset l.workTokenCount (l.oprojRows P attn))
  rw [DynamicQuantiser.proc, rename_actQuant] at ho
  exact ho

theorem pipes_ffnStages (resBuf1 : ResBuf) (c d : DecoderChan) :
  (l.ffnStages P resBuf1).Pipes c [] d []
    (l.addWork resBuf1 (l.downRows P (l.gateupRows P (l.work resBuf1))))
  := by
  have hgateup := l.pipes_layerGemm P (.rmsnorm (loadGamma P.gammaFfn))
    (DynamicQuantiser.wellFormed_rmsnorm _) .gateUp rfl (l.work resBuf1)
  have hdown := l.pipes_layerGemm P .silu DynamicQuantiser.wellFormed_silu .down rfl
    (l.gateupRows P (l.work resBuf1))
  apply (pipes_resToStream resBuf1 .rawAct2 c l.workTokenOffset l.workTokenCount).bind
  rw [DynamicQuantiser.proc, rename_rmsnormQuant] at hgateup
  rw [DynamicQuantiser.proc, rename_siluGateFuseQuant] at hdown
  rw [← then_assoc]
  apply Pipes.bind hgateup
  rw [← then_assoc]
  exact Pipes.bind hdown (pipes_residualAddRange .downOut d resBuf1 l.workTokenOffset
    l.workTokenCount (l.downRows P (l.gateupRows P (l.work resBuf1))))

/-- The words that the packing loop writes. -/
theorem foldl_packLogits (logits : ℕ → ℤ) (lmheadOut : ℕ → AXI256) (n : ℕ) :
  (List.range n).foldl (fun out v => Function.update out v
      (packLanes 256 8 fun b =>
        BitVec.ofInt 32 (((List.range 8).map fun b => logits (v * 8 + b)).getD b 0))) lmheadOut
    = fun v => if v < n then packLanes 256 8 fun b => BitVec.ofInt 32 (logits (v * 8 + b))
      else lmheadOut v
  := by
  have hword : ∀ v, packLanes 256 8 (fun b =>
      BitVec.ofInt 32 (((List.range 8).map fun b => logits (v * 8 + b)).getD b 0))
      = packLanes 256 8 fun b => BitVec.ofInt 32 (logits (v * 8 + b)) := by
    intro v
    apply List.foldl_ext
    intro w b hb
    dsimp only
    rw [List.getD_eq_getElem?_getD, List.getElem?_map, List.getElem?_range (List.mem_range.mp hb),
      Option.map_some, Option.getD_some]
  induction n with
  | zero =>
      funext v
      rw [List.range_zero, List.foldl_nil, if_neg (Nat.not_lt_zero v)]
  | succ n ih =>
      rw [List.range_succ (n := n), List.foldl_append, List.foldl_cons, List.foldl_nil, ih, hword]
      funext v
      rcases eq_or_ne v n with rfl | hv
      · rw [Function.update_self, if_pos (Nat.lt_succ_self v)]
      · have hlt : v < n ↔ v < n + 1 := by omega
        simp only [Function.update_of_ne hv, hlt]

theorem pipes_storeLogits (lmheadOut : ℕ → AXI256) (logits : ℕ → ℤ) (d : DecoderChan) :
  (storeLogits lmheadOut).Pipes .lmOut ((List.range vocab).map logits) d []
    (writeLogits logits lmheadOut)
  := by
  have hvocab : vocab / 8 * 8 = vocab := by decide
  have hblocks := map_range_mul (vocab / 8) 8 logits
  rw [hvocab] at hblocks
  have hloop := consumes_forLoop_fold (n := vocab / 8) (s := lmheadOut) (c := DecoderChan.lmOut)
    (p := fun _ => readVec .lmOut 8)
    (g := fun v vals out => Function.update out v
      (packLanes 256 8 fun b => BitVec.ofInt 32 (vals.getD b 0)))
    (a := fun v => (List.range 8).map fun b => logits (v * 8 + b))
    fun v _ => consumes_readVec (by rw [List.length_map, List.length_range])
  rw [foldl_packLogits] at hloop
  rw [← hblocks]
  apply hloop.pipes

theorem pipes_lmheadStages (resBuf1 : ResBuf) (lmheadOut : ℕ → AXI256) (c d : DecoderChan) :
  (l.lmheadStages P resBuf1 lmheadOut).Pipes c [] d []
    (writeLogits (P.logitsOf (resBuf1 (l.seqLen - 1))) lmheadOut)
  := by
  have hsend : (forEach C fun c => send .lmRaw (resBuf1 (l.seqLen - 1) c)
      : Proc DecoderChan ℤ Unit).Pipes c [] .lmRaw
      (tokenStream 1 C fun _ => resBuf1 (l.seqLen - 1)) () := by
    rw [tokenStream_one]
    apply Emits.pipes
    apply emits_forEach_send
  have hgemm := ((DynamicQuantiser.rmsnorm (loadGamma P.gammaFfn)).pipes_thenGemm
    (DynamicQuantiser.wellFormed_rmsnorm _) (lmheadPorts P.lmheadWgt P.lmheadMeta) 1 vocab
    P.lmheadUninit
    fun _ => resBuf1 (l.seqLen - 1)).rename GemmStage.lmhead.chan_injective
  simp only [DynamicQuantiser.thenGemm, DynamicQuantiser.proc, rename_bind, rename_rmsnormQuant,
    rename_w4a8Gemm] at hgemm
  rw [tokenStream_one vocab] at hgemm
  apply hsend.bind
  rw [← then_assoc]
  exact Pipes.bind hgemm (pipes_storeLogits lmheadOut _ d)

theorem pipes_logitsStage (resBuf1 : ResBuf) (lmheadOut : ℕ → AXI256) (c d : DecoderChan) :
  (l.logitsStage P resBuf1 lmheadOut).Pipes c [] d []
    (if l.runLmhead ≠ 0 then writeLogits (P.logitsOf (resBuf1 (l.seqLen - 1))) lmheadOut
      else lmheadOut)
  := by
  rw [logitsStage]
  split_ifs
  · apply l.pipes_lmheadStages
  · apply (pipes_ret c [] lmheadOut).to_nil

/-- From empty streams, a launch leaves its function of the memory. -/
theorem run_smolvlm2DecoderLayer (mem : DecoderMemory) :
  (l.smolvlm2DecoderLayer P mem).run (fun _ => []) = some (l.layerFunction P mem, fun _ => [])
  := by
  have hpipes : (l.smolvlm2DecoderLayer P mem).Pipes .rawAct [] .rawAct []
      (l.layerFunction P mem) := by
    apply (l.pipes_attentionStages P _ mem.kv .rawAct).bind
    apply (l.pipes_projectionStages P _ _ .rawAct).bind
    apply (l.pipes_ffnStages P _ .rawAct .rawAct).bind
    apply (l.pipes_logitsStage P _ mem.lmheadOut .rawAct .rawAct).bind
    apply pipes_ret
  rw [Pipes, only_nil] at hpipes
  exact hpipes

end Launch

/-- The memory after some launches. -/
def launchesFunction (ls : List (Launch × DecoderPorts)) (mem : DecoderMemory) : DecoderMemory :=
  ls.foldl (fun mem lP => lP.1.layerFunction lP.2 mem) mem

theorem run_runDecoderLaunches (ls : List (Launch × DecoderPorts)) (mem : DecoderMemory) :
  (runDecoderLaunches ls mem).run (fun _ => []) = some (launchesFunction ls mem, fun _ => [])
  := by
  induction ls generalizing mem with
  | nil => rfl
  | cons lP ls ih =>
      obtain ⟨l, P⟩ := lP
      rw [runDecoderLaunches, run_bind_of_run (l.run_smolvlm2DecoderLayer P mem)]
      apply ih

end Kv260
