import SmolVlm2Kv260.Kernel.Gemm
import SmolVlm2Kv260.Memory.Grid

/-!
# The decoder kernel

The arguments of `smolvlm2_decoder_layer`, and what the kernel derives from them before its
dataflow region starts: the tokens to work on, their first position, the buffer `load_act`
reads, and where the weights of the four matrices of a layer begin.
-/

set_option autoImplicit false

namespace Kv260

/-! ### Launches -/

/-- The buffer objects for activations that the host keeps for the layers. -/
inductive ActBuffer where
  | ping
  | pong
  deriving DecidableEq

abbrev execModeTtftDecode : ℕ := 0
abbrev execModeThroughputPrefill : ℕ := 1
abbrev execModeThroughputDecode : ℕ := 2

/-- The arguments of a launch of `smolvlm2_decoder_layer`: the buffers bound to its three
activation ports, and its scalars. -/
structure Launch where
  actPing : ActBuffer
  actPong : ActBuffer
  actOut : ActBuffer
  seqLen : ℕ
  kvLen : ℕ
  posStart : ℕ
  execMode : ℕ
  tokenTileOffset : ℕ
  tokenTileSize : ℕ
  runLmhead : ℕ
  layerId : ℕ
  usePing : ℕ
  wgtOffset : ℕ
  metaOffset : ℕ

namespace Launch

variable (l : Launch)

/-- `work_token_offset`. -/
def workTokenOffset : ℕ :=
  if l.execMode = execModeThroughputPrefill then l.tokenTileOffset else 0

/-- `work_token_count`. -/
def workTokenCount : ℕ :=
  if l.execMode = execModeThroughputPrefill then l.tokenTileSize else l.seqLen

/-- The position of the first token, for the rotary embedding and the attention. -/
def curPos : ℕ := l.posStart + l.workTokenOffset

/-- The buffer that `load_act` selects. -/
def src : ActBuffer := if l.usePing ≠ 0 then l.actPing else l.actPong

/-- The work tokens are rows of the residual buffers. -/
def WorkFits : Prop := l.workTokenOffset + l.workTokenCount ≤ maxL

end Launch

/-! ### Loading activations -/

/-- The value of column `c` of row `r` of an activation buffer, as an `INT8` in Q8.8. -/
def actValue (src : ℕ → AXI256) (r c : ℕ) : ℤ :=
  let word := src ((r * C + c / 32 * 32) / 32)
  (word.extractLsb' (c % 32 * 8) 8).toInt <<< (8 : ℕ)

/-- A residual buffer: `INT32 res_buf_0[MAX_L][C]`. -/
abbrev ResBuf : Type := Memory.Grid maxL C ℤ

/-- `load_act`: the rows of the work tokens of `res_buf_0` are replaced. -/
def loadAct (src : ℕ → AXI256) (tokenOffset tokenCount : ℕ) (resBuf : ResBuf) : ResBuf :=
  resBuf.mapRows tokenOffset tokenCount fun t c _ => actValue src (tokenOffset + t) c

/-- A value of a row is the byte of its column. -/
theorem actValue_axiWord (bytes : ℕ → BitVec 8) (r c : ℕ) :
  actValue (axiWord bytes) r c = (bytes (r * C + c)).toInt <<< (8 : ℕ)
  := by
  have hlane := extractLsb'_axiWord bytes ((r * C + c / 32 * 32) / 32) (Nat.mod_lt c grp_pos)
  have hindex : 32 * ((r * C + c / 32 * 32) / 32) + c % 32 = r * C + c := by
    change 32 * ((r * 960 + c / 32 * 32) / 32) + c % 32 = r * 960 + c
    omega
  rw [actValue, hlane, hindex]

/-- `load_gamma`. -/
def loadGamma (gammaDdr : ℕ → AXI256) : List ℤ :=
  (List.range (C / 32)).flatMap fun v =>
    (List.range 32).map fun b => ((gammaDdr v).extractLsb' (b * 8) 8).toInt

/-! ### Weights -/

/-- The four matrices of a layer. -/
inductive LayerMatrix where
  | qkv
  | o
  | gateUp
  | down
  deriving DecidableEq

namespace LayerMatrix

/-- The columns `N` of the multiplication. -/
def outCols : LayerMatrix → ℕ
  | qkv => nQkv
  | o => C
  | gateUp => nFfnGateup
  | down => C

/-- The values `K` that are summed up for a column. -/
def inCols : LayerMatrix → ℕ
  | qkv => C
  | o => C
  | gateUp => C
  | down => ffnDim

/-- `FFN_WGT_OFFSET`. -/
def ffnWgtOffset : ℕ := (C * nQkv + C * C) / (8 * 32)

/-- `DOWN_WGT_OFFSET`. -/
def downWgtOffset : ℕ := ffnWgtOffset + C * nFfnGateup / (8 * 32)

/-- The words between the first weights of the layer and those of the matrix. -/
def wgtBase : LayerMatrix → ℕ
  | qkv => 0
  | o => C * nQkv / (8 * 32)
  | gateUp => ffnWgtOffset
  | down => downWgtOffset

/-- The words between the first metadata of the layer and those of the matrix. -/
def metaBase : LayerMatrix → ℕ
  | qkv => 0
  | o => C * nQkv / (grp * 16)
  | gateUp => ffnWgtOffset * grp / 32
  | down => downWgtOffset * grp / 32

end LayerMatrix

/-- The ports as the multiplication with a matrix sees them. -/
def Launch.gemmPorts (l : Launch) (P : WeightPorts) (m : LayerMatrix) : WeightPorts :=
  (P.advance l.wgtOffset l.metaOffset).advance m.wgtBase m.metaBase

/-- `VOCAB`. -/
abbrev vocab : ℕ := 49280

/-- The ports of the multiplication in the branch `run_lmhead`. -/
def lmheadPorts (lmheadWgt lmheadMeta : ℕ → AXI256) : WeightPorts where
  wgtHalf0 := lmheadWgt
  wgtHalf1 i := lmheadWgt (vocab / 2 / 32 + i)
  metaHalf0 := lmheadMeta
  metaHalf1 i := lmheadMeta (vocab / (grp * 16) + i)

end Kv260
