import SmolVlm2Kv260.Dataflow.InertAttention
import SmolVlm2Kv260.Dataflow.Requant
import SmolVlm2Kv260.Host.CallBounds
import SmolVlm2Kv260.Host.LayerChain
import SmolVlm2Kv260.Host.Prefill

/-!
# Runs of the kernel under the runner

`Launch.apply` describes what a launch does to the rows of the activation buffers, for any
functions that the layers compute.  With `ffnLayer` for these functions it describes the
decoder kernel: its dataflow region, run for the launches of a call of the runner that stays in
the arrays on the chip, leaves the rows that `Launch.apply` gives.

A scale of zero, by which the quantisers of the source would divide, gives codes of zero here.
-/

set_option autoImplicit false

namespace Kv260

open Proc Blocks Memory

/-! ### Rows of the activation buffers -/

/-- Row `r` of an activation buffer. -/
def actRow (words : ℕ → AXI256) (r : ℕ) : ActRow := fun c =>
  (words ((r * C + c) / 32)).extractLsb' ((r * C + c) % 32 * 8) 8

/-- The rows of both buffers. -/
def DecoderMemory.rows (mem : DecoderMemory) : ActRows ActRow := fun b r => actRow (mem.act b) r

theorem toInt_actRow (words : ℕ → AXI256) (r : ℕ) (c : Fin C) :
  (actRow words r c).toInt = axiReadI8Linear words (r * C + c)
  := rfl

theorem actValue_eq_actRow (words : ℕ → AXI256) (r : ℕ) {c : ℕ} (hc : c < C) :
  actValue words r c = (actRow words r ⟨c, hc⟩).toInt <<< (8 : ℕ)
  := by
  have hword : (r * 960 + c / 32 * 32) / 32 = (r * 960 + c) / 32 := by omega
  have hlane : c % 32 = (r * 960 + c) % 32 := by omega
  simp only [actValue, actRow, hword, hlane]

/-- The values of some rows in Q8.8. -/
def rowValues (rows : List ActRow) (t c : ℕ) : ℤ :=
  if h : c < C then ((rows.getD t fun _ => 0) ⟨c, h⟩).toInt <<< (8 : ℕ) else 0

/-- `store_act` leaves the other rows alone. -/
theorem actRow_storeAct_of_not_mem (resBuf1 : ResBuf) {off n r : ℕ} (actOut : ℕ → AXI256)
    (h : ¬(off ≤ r ∧ r < off + n)) :
  actRow (storeAct resBuf1 off n actOut) r = actRow actOut r
  := by
  funext c
  have hc : (c : ℕ) < 960 := c.isLt
  have hnone : latest (storeActLog resBuf1 off n) ((r * C + c) / 32) = none := by
    apply latest_eq_none
    intro w hw hword
    obtain ⟨t, ht, v, hv, rfl⟩ := (mem_storeActLog _ _ _).mp hw
    change ((off + t) * 960 + v * 32) / 32 = (r * 960 + c) / 32 at hword
    omega
  have hword := axiWords.read_writeAll actOut (storeActLog resBuf1 off n) ((r * C + c) / 32)
  rw [hnone, Option.getD_none, ← storeAct_eq] at hword
  exact congrArg (BitVec.extractLsb' ((r * C + c) % 32 * 8) 8) hword

/-- The rows of the work tokens, requantised. -/
theorem actRow_storeAct (resBuf1 : ResBuf) {off n t : ℕ} (actOut : ℕ → AXI256) (ht : t < n) :
  actRow (storeAct resBuf1 off n actOut) (off + t)
    = fun c : Fin C => requantInt8 (resBuf1 (off + t) c)
  := by
  funext c
  apply BitVec.eq_of_toInt_eq
  rw [toInt_actRow, axiReadI8Linear_storeAct _ _ _ _ ht c.isLt, toInt_requantInt8]

/-! ### A launch on the rows -/

/-- What the layers compute: the feed-forward part, requantised. -/
def ffnLayer (W : WeightPorts) (gammaFfn : ℕ → AXI256) (offsets : List WeightOffsets) :
    LayerFns ActRow := fun layer tile rows t c =>
  requantInt8 (ffnRows (W.advance (offsets.getD layer {}).wgtAxi (offsets.getD layer {}).metaAxi)
    gammaFfn tile.2 (rowValues rows) t c)

/-- The weights of the layer of a launch begin where the manifest says. -/
structure Launch.UsesOffsets (l : Launch) (offsets : List WeightOffsets) : Prop where
  wgt : l.wgtOffset = (offsets.getD l.layerId {}).wgtAxi
  metadata : l.metaOffset = (offsets.getD l.layerId {}).metaAxi

theorem RunnerCall.usesOffsets {call : RunnerCall} {offsets : List WeightOffsets} {l : Launch}
    (hl : l ∈ call.launches offsets) :
  l.UsesOffsets offsets
  := by
  obtain ⟨layer, -, tile, -, rfl⟩ := RunnerCall.mem_launches.mp hl
  cases call with
  | _ => exact ⟨rfl, rfl⟩

namespace Launch

variable {l : Launch} {P : DecoderPorts} {offsets : List WeightOffsets}

/-- The loaded rows are those of the tile. -/
theorem loaded_eq_rowValues (mem : DecoderMemory) {t c : ℕ} (ht : t < l.workTokenCount)
    (hc : c < C) :
  l.loaded mem t c = rowValues (tileRows (mem.rows l.src) l.workTile) t c
  := by
  have hrow : (tileRows (mem.rows l.src) l.workTile).getD t (fun _ => 0)
      = actRow (mem.act l.src) (l.workTokenOffset + t) := by
    change ((List.range l.workTokenCount).map _).getD t _ = _
    rw [List.getD_eq_getElem?_getD, List.getElem?_map, List.getElem?_range ht]
    rfl
  rw [loaded, actValue_eq_actRow _ _ hc, rowValues, dif_pos hc, hrow]

theorem ffnRows_loaded (mem : DecoderMemory) {t c : ℕ} (ht : t < l.workTokenCount) (hc : c < C)
    (W : WeightPorts) (gammaFfn : ℕ → AXI256) :
  ffnRows W gammaFfn l.workTokenCount (l.loaded mem) t c
    = ffnRows W gammaFfn l.workTokenCount
      (rowValues (tileRows (mem.rows l.src) l.workTile)) t c
  := by
  rw [ffnRows, ffnRows, loaded_eq_rowValues mem ht hc,
    ffnDelta_congr W gammaFfn fun _ ht _ hc => loaded_eq_rowValues mem ht hc]

/-- The kernel does to the rows what `Launch.apply` does, with the feed-forward parts. -/
theorem rows_layerFunction (hl : l.UsesOffsets offsets) (hfits : l.WorkFits)
    (mem : DecoderMemory) :
  (l.layerFunction P mem).rows = l.apply (ffnLayer P.weights P.gammaFfn offsets) mem.rows
  := by
  have hweights : l.layerWeights P.weights = P.weights.advance (offsets.getD l.layerId {}).wgtAxi
      (offsets.getD l.layerId {}).metaAxi := by
    rw [layerWeights, hl.wgt, hl.metadata]
  funext b r
  rw [DecoderMemory.rows, layerFunction_act l P hfits, Launch.apply]
  rcases eq_or_ne b l.actOut with rfl | hb
  · rw [Function.update_self, Function.update_self]
    split_ifs with h
    · obtain ⟨t, rfl⟩ := Nat.exists_eq_add_of_le h.1
      have ht : t < l.workTokenCount := by omega
      rw [actRow_storeAct _ _ ht, Nat.add_sub_cancel_left]
      funext c
      rw [ffnResidual_work l P hfits mem ht c.isLt, ffnRows_loaded mem ht c.isLt, hweights]
      rfl
    · apply actRow_storeAct_of_not_mem _ _ h
  · rw [Function.update_of_ne hb, Function.update_of_ne hb]
    rfl

end Launch

/-! ### Rows of the residual buffers -/

/-- The buffers agree in the rows that the residual buffers have too. -/
def SameBelow (m m' : ActRows ActRow) : Prop := ∀ b, ∀ r < maxL, m b r = m' b r

namespace Launch

variable {l : Launch} {P : DecoderPorts} {offsets : List WeightOffsets} {m m' : ActRows ActRow}

/-- The work tokens are rows of the residual buffers, or all behind their end. -/
def WorkFitsOrBeyond (l : Launch) : Prop := l.WorkFits ∨ maxL ≤ l.workTokenOffset

theorem apply_sameBelow (f : LayerFns ActRow) (h : SameBelow m m') (hfits : l.WorkFitsOrBeyond) :
  SameBelow (l.apply f m) (l.apply f m')
  := by
  intro b r hr
  rw [Launch.apply, Launch.apply]
  rcases eq_or_ne b l.actOut with rfl | hb
  · rw [Function.update_self, Function.update_self, h _ r hr]
    split_ifs with hrow
    · have hin : l.WorkFits := by
        rcases hfits with hin | hbeyond
        · exact hin
        · omega
      have htile : tileRows (m l.src) l.workTile = tileRows (m' l.src) l.workTile := by
        apply List.map_congr_left
        intro t ht
        apply h
        exact Nat.lt_of_lt_of_le (Nat.add_lt_add_left (List.mem_range.mp ht) _) hin
      rw [htile]
    · rfl
  · rw [Function.update_of_ne hb, Function.update_of_ne hb, h b r hr]

/-- A launch whose work tokens lie behind the end leaves the rows of the residual buffers alone. -/
theorem rows_layerFunction_below (hl : l.UsesOffsets offsets) (hfits : l.WorkFitsOrBeyond)
    {mem : DecoderMemory} (h : SameBelow mem.rows m) :
  SameBelow (l.layerFunction P mem).rows (l.apply (ffnLayer P.weights P.gammaFfn offsets) m)
  := by
  have hsame := apply_sameBelow (ffnLayer P.weights P.gammaFfn offsets) h hfits
  rcases hfits with hin | hbeyond
  · rw [rows_layerFunction hl hin]
    exact hsame
  · intro b r hr
    have hout : ¬ (l.workTokenOffset ≤ r ∧ r < l.workTokenOffset + l.workTokenCount) := by omega
    rw [← hsame b r hr, Launch.apply]
    rcases eq_or_ne b l.actOut with rfl | hb
    · rw [Function.update_self, if_neg hout]
      simp only [DecoderMemory.rows, layerFunction, Function.update_self]
      apply actRow_storeAct_of_not_mem _ _ hout
    · rw [Function.update_of_ne hb]
      simp only [DecoderMemory.rows, layerFunction, Function.update_of_ne hb]

end Launch

/-! ### A call of the runner -/

/-- The buffer objects that the runner binds to the ports that a launch only reads. -/
structure RunnerPorts where
  weights : WeightPorts
  gammaAttn : ℕ → AXI256
  gammaFfn : ℕ → AXI256
  lmheadWgt : ℕ → AXI256
  lmheadMeta : ℕ → AXI256

/-- The registers that the multiplications of a launch leave uninitialised. -/
structure GemmRegisters where
  uninit : LayerMatrix → ℕ → ℕ → ℕ → TileRegisters
  lmheadUninit : ℕ → ℕ → ℕ → TileRegisters

/-- The ports of a launch. -/
def RunnerPorts.forLaunch (B : RunnerPorts) (u : GemmRegisters) : DecoderPorts where
  weights := B.weights
  gammaAttn := B.gammaAttn
  gammaFfn := B.gammaFfn
  lmheadWgt := B.lmheadWgt
  lmheadMeta := B.lmheadMeta
  uninit := u.uninit
  lmheadUninit := u.lmheadUninit

/-- What the layers of the model compute on the device. -/
def RunnerPorts.layers (B : RunnerPorts) (offsets : List WeightOffsets) : LayerFns ActRow :=
  ffnLayer B.weights B.gammaFfn offsets

namespace RunnerCall

variable (call : RunnerCall) (offsets : List WeightOffsets) (B : RunnerPorts)
variable (u : Launch → GemmRegisters)

/-- The launches of a call with their ports. -/
def kernelLaunches : List (Launch × DecoderPorts) :=
  (call.launches offsets).map fun l => (l, B.forLaunch (u l))

/-- The kernel, launched for a call of the runner. -/
def kernelRun (mem : DecoderMemory) : Proc DecoderChan ℤ DecoderMemory :=
  runDecoderLaunches (call.kernelLaunches offsets B u) mem

/-- The memory after the launches of a call. -/
def memoryAfter (mem : DecoderMemory) : DecoderMemory :=
  launchesFunction (call.kernelLaunches offsets B u) mem

theorem run_kernelRun (mem : DecoderMemory) :
  (call.kernelRun offsets B u mem).run (fun _ => [])
    = some (call.memoryAfter offsets B u mem, fun _ => [])
  := run_runDecoderLaunches _ mem

/-- The rows of the residual buffers after some launches. -/
theorem rows_launchesFunction_below {ls : List Launch}
    (hls : ∀ l ∈ ls, l.UsesOffsets offsets ∧ l.WorkFitsOrBeyond) {mem : DecoderMemory}
    {m : ActRows ActRow} (h : SameBelow mem.rows m) :
  SameBelow (launchesFunction (ls.map fun l => (l, B.forLaunch (u l))) mem).rows
    (ls.foldl (Launch.apply (B.layers offsets)) m)
  := by
  induction ls generalizing mem m with
  | nil => exact h
  | cons l ls ih =>
      obtain ⟨hl, hls⟩ := List.forall_mem_cons.mp hls
      exact ih hls (Launch.rows_layerFunction_below (P := B.forLaunch (u l)) hl.1 hl.2 h)

/-- The rows after some launches that use the offsets and stay in the residual buffers. -/
theorem rows_launchesFunction {ls : List Launch}
    (hls : ∀ l ∈ ls, l.UsesOffsets offsets ∧ l.WorkFits) (mem : DecoderMemory) :
  (launchesFunction (ls.map fun l => (l, B.forLaunch (u l))) mem).rows
    = ls.foldl (Launch.apply (B.layers offsets)) mem.rows
  := by
  induction ls generalizing mem with
  | nil => rfl
  | cons l ls ih =>
      obtain ⟨hl, hls⟩ := List.forall_mem_cons.mp hls
      have hrows := Launch.rows_layerFunction (P := B.forLaunch (u l)) hl.1 hl.2 mem
      rw [List.foldl_cons]
      refine (ih hls _).trans ?_
      rw [hrows]
      rfl

/-- A tile of a prompt ends before the end of the residual buffers, or begins behind it. -/
theorem workFitsOrBeyond_prefill {seqLen : ℕ} {l : Launch}
    (hl : l ∈ (RunnerCall.prefillThroughput seqLen).launches offsets) :
  l.WorkFitsOrBeyond
  := by
  obtain ⟨-, i, hoffset, hcount⟩ := mem_prefill_launches hl
  have hlen := tileLen_le prefillTokenTile seqLen i
  rw [Launch.WorkFitsOrBeyond, Launch.WorkFits, hoffset, hcount]
  change tileLen 32 seqLen i ≤ 32 at hlen
  change i * 32 + tileLen 32 seqLen i ≤ 512 ∨ 512 ≤ i * 32
  omega

variable {call} in
theorem rows_memoryAfter (hcall : call.InBounds) (mem : DecoderMemory) :
  (call.memoryAfter offsets B u mem).rows
    = (call.launches offsets).foldl (Launch.apply (B.layers offsets)) mem.rows
  := by
  apply rows_launchesFunction
  intro l hl
  exact ⟨usesOffsets hl, hcall.workFits hl⟩

variable {call} in
/-- For any call of the runner in bounds, any weights and any memory, all launches stay in the
arrays on the chip, and the dataflow region of the kernel ends with its streams empty and with the
rows of the activation buffers that the feed-forward parts of the layers give.  A scale of zero
stands for codes of zero on both sides. -/
theorem kernelRun_refines_layers (hcall : call.InBounds) (mem : DecoderMemory) :
  (∀ l ∈ call.launches offsets, l.InBounds)
    ∧ ∃ mem', (call.kernelRun offsets B u mem).run (fun _ => []) = some (mem', fun _ => [])
      ∧ mem'.rows = (call.launches offsets).foldl (Launch.apply (B.layers offsets)) mem.rows
  := by
  refine ⟨fun l hl => hcall.launch hl, _, call.run_kernelRun offsets B u mem, ?_⟩
  apply rows_memoryAfter offsets B u hcall

end RunnerCall

/-- A word whose bytes are all one. -/
def oneBytes : AXI256 := 0x0101010101010101010101010101010101010101010101010101010101010101

def onePorts : RunnerPorts where
  weights := ⟨fun _ => oneBytes, fun _ => oneBytes, fun _ => oneBytes, fun _ => oneBytes⟩
  gammaAttn := fun _ => oneBytes
  gammaFfn := fun _ => oneBytes
  lmheadWgt := fun _ => oneBytes
  lmheadMeta := fun _ => oneBytes

def blankRegisters (_ : Launch) : GemmRegisters where
  uninit := fun _ _ _ _ => ⟨fun _ _ => 0, fun _ _ => 0⟩
  lmheadUninit := fun _ _ _ => ⟨fun _ _ => 0, fun _ _ => 0⟩

/-- A device whose activation buffers hold the numbers of their words. -/
def countingMemory : DecoderMemory where
  resBuf0 := ⟨fun _ _ => 0⟩
  resBuf1 := ⟨fun _ _ => 0⟩
  kv := KvState.init
  act := fun _ i => BitVec.ofNat 256 i
  lmheadOut := fun _ => 0

/-- The prefill of a prompt of 100 tokens, which has four tiles. -/
theorem RunnerCall.kernelRun_refines_layers_prefill :
  (∀ l ∈ (RunnerCall.prefillThroughput 100).launches HostDriver.layers, l.InBounds)
    ∧ ∃ mem', ((RunnerCall.prefillThroughput 100).kernelRun HostDriver.layers onePorts
          blankRegisters countingMemory).run (fun _ => []) = some (mem', fun _ => [])
      ∧ mem'.rows = ((RunnerCall.prefillThroughput 100).launches HostDriver.layers).foldl
          (Launch.apply (onePorts.layers HostDriver.layers)) countingMemory.rows
  := kernelRun_refines_layers HostDriver.layers onePorts blankRegisters
    (by decide : (RunnerCall.prefillThroughput 100).InBounds) countingMemory

end Kv260
