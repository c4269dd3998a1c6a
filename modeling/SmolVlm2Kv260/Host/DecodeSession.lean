import SmolVlm2Kv260.Host.KernelRuns

/-!
# Decode steps of a session

After the prefill the host alternates decode launches, reading the logits, and writing the
embedding of the sampled token.  Every decode launch works on row 0 of `act_ping_`, and the
embeddings go to the rows of their positions.  As long as these are not row 0, the `k`-th logits
are a function of row 0 alone, which each step replaces by a function of itself: neither the
sampled tokens, nor the positions of the steps, nor the KV cache have any influence on them.

This is about prompts and positions that the arrays on the chip have: at most `MAX_L` rows, and
positions below `MAX_SEQ`.
-/

set_option autoImplicit false

namespace Kv260

open Proc Blocks

/-! ### One step -/

namespace RunnerPorts

variable (B : RunnerPorts) (offsets : List WeightOffsets)

/-- Row 0 of `act_ping_` before layer `n` of a decode step, when it was `row` at first. -/
def rowBefore (row : ActRow) (n : ℕ) : List ActRow :=
  oddLayerChain (B.layers offsets) (0, 1) [row] n

/-- Row 0 of `act_ping_` after a decode step. -/
def stepRow (row : ActRow) : ActRow := (B.rowBefore offsets row numLayers).getD 0 fun _ => 0

/-- The values of row 0 in the last layer of a decode step. -/
def lastRow (row : ActRow) : ℕ → ℤ :=
  ffnRows (B.weights.advance (offsets.getD (numLayers - 1) {}).wgtAxi
      (offsets.getD (numLayers - 1) {}).metaAxi)
    B.gammaFfn 1 (rowValues (B.rowBefore offsets row (numLayers - 1))) 0

/-- The logits of a decode step. -/
def stepLogits (row : ActRow) : ℕ → ℤ :=
  lmheadLogits B.gammaFfn B.lmheadWgt B.lmheadMeta (B.lastRow offsets row)

end RunnerPorts

/-- `read_logits`. -/
def readLogits (lmheadOut : ℕ → AXI256) : List ℤ :=
  (List.range vocab).map fun i => axiReadI32Linear lmheadOut i

theorem lmheadLogits_isApInt (gammaFfn lmheadWgt lmheadMeta : ℕ → AXI256) (x : ℕ → ℤ) (i : ℕ) :
  IsApInt 32 (lmheadLogits gammaFfn lmheadWgt lmheadMeta x i)
  := DynamicQuantiser.product_isApInt _ _ _ _ _ _ _

/-- The logits are read as they were written. -/
theorem readLogits_writeLogits {logits : ℕ → ℤ} (h : ∀ i, IsApInt 32 (logits i))
    (lmheadOut : ℕ → AXI256) :
  readLogits (writeLogits logits lmheadOut) = (List.range vocab).map logits
  := by
  apply List.map_congr_left
  intro i hi
  have hlt : i / 8 < vocab / 8 := by
    have hi' : i < 49280 := List.mem_range.mp hi
    change i / 8 < 6160
    omega
  have hindex : i / 8 * 8 + i % 8 = i := by omega
  obtain ⟨hlo, hhi⟩ := (isApInt_iff (by decide)).mp (h i)
  rw [axiReadI32Linear, writeLogits, if_pos hlt,
    extractLsb'_packLanes _ (by decide) (Nat.mod_lt i (by decide)), hindex, BitVec.toInt_ofInt]
  apply Int.bmod_eq_of_le <;> omega

/-- Only the columns of the row matter. -/
theorem lmheadLogits_congr (gammaFfn lmheadWgt lmheadMeta : ℕ → AXI256) {x y : ℕ → ℤ}
    (h : ∀ c < C, x c = y c) :
  lmheadLogits gammaFfn lmheadWgt lmheadMeta x = lmheadLogits gammaFfn lmheadWgt lmheadMeta y
  := by
  have hproduct := DynamicQuantiser.product_congr (q := .rmsnorm (loadGamma gammaFfn))
    (DynamicQuantiser.wellFormed_rmsnorm gammaFfn) (lmheadPorts lmheadWgt lmheadMeta) 1 vocab
    (x := fun _ => x) (y := fun _ => y) fun _ _ => h
  exact congrFun hproduct 0

section Step

variable {call : RunnerCall} {pos kvLen : ℕ} (hcall : call ∈ decodeStepCalls pos kvLen)
variable (offsets : List WeightOffsets) (B : RunnerPorts) (u : Launch → GemmRegisters)

include hcall in
theorem tiles_decodeStep :
  call.tiles = [(0, 1)]
  := by
  rcases List.mem_pair.mp hcall with rfl | rfl
  · rfl
  · rfl

include hcall in
/-- A decode step works on one row. -/
theorem workFits_decodeStep {l : Launch} (hl : l ∈ call.launches offsets) :
  l.WorkFits
  := by
  obtain ⟨layer, -, tile, ht, rfl⟩ := RunnerCall.mem_launches.mp hl
  rw [Launch.WorkFits, call.workTokenOffset_launch offsets layer ht,
    call.workTokenCount_launch offsets layer ht]
  rw [tiles_decodeStep hcall] at ht
  obtain rfl := List.mem_singleton.mp ht
  exact (by decide : 0 + 1 ≤ maxL)

include hcall in
/-- The logits are computed for one token, in the last layer. -/
theorem launch_decodeStep (layer : ℕ) :
  (call.launch offsets layer (0, 1)).seqLen = 1
    ∧ (call.launch offsets layer (0, 1)).runLmhead = runLmheadOf layer
  := by
  rcases List.mem_pair.mp hcall with rfl | rfl
  · exact ⟨rfl, rfl⟩
  · exact ⟨rfl, rfl⟩

include hcall in
/-- The launches before those of the last layer, and the last one. -/
theorem launches_decodeStep :
  call.launches offsets
    = (List.range (numLayers - 1)).flatMap (call.layerLaunches offsets)
      ++ [call.launch offsets (numLayers - 1) (0, 1)]
  := by
  have hlast : call.layerLaunches offsets (numLayers - 1)
      = [call.launch offsets (numLayers - 1) (0, 1)] := by
    rw [RunnerCall.layerLaunches, tiles_decodeStep hcall]
    rfl
  rw [← hlast, ← List.flatMap_singleton (call.layerLaunches offsets) (numLayers - 1),
    ← List.flatMap_append, ← List.range_succ]
  rfl

/-- Launches without `run_lmhead` leave the logits alone. -/
theorem lmheadOut_launchesFunction {ls : List (Launch × DecoderPorts)}
    (h : ∀ lP ∈ ls, lP.1.runLmhead = 0) (mem : DecoderMemory) :
  (launchesFunction ls mem).lmheadOut = mem.lmheadOut
  := by
  induction ls generalizing mem with
  | nil => rfl
  | cons lP ls ih =>
      obtain ⟨hl, hls⟩ := List.forall_mem_cons.mp h
      exact (ih hls _).trans (if_neg (not_not.mpr hl))

/-- Row 0 of `act_ping_` before a layer of a decode step. -/
theorem rows_beforeLayer (hcall : call ∈ decodeStepCalls pos kvLen) (mem : DecoderMemory) (n : ℕ) :
  tileRows (runLayers (B.layers offsets) call offsets n mem.rows .ping) (0, 1)
    = B.rowBefore offsets (actRow (mem.act .ping) 0) n
  := by
  have htile : (0, 1) ∈ call.tiles := by
    rw [tiles_decodeStep hcall]
    apply List.mem_singleton_self
  rw [tileRows_runLayers (B.layers offsets) call offsets htile]
  rfl

/-- A decode step replaces row 0 of `act_ping_` by a function of it. -/
theorem row_memoryAfter (hcall : call ∈ decodeStepCalls pos kvLen) (mem : DecoderMemory) :
  actRow ((call.memoryAfter offsets B u mem).act .ping) 0
    = B.stepRow offsets (actRow (mem.act .ping) 0)
  := by
  have hrows : (call.memoryAfter offsets B u mem).rows
      = runLayers (B.layers offsets) call offsets numLayers mem.rows :=
    RunnerCall.rows_launchesFunction offsets B u
      (fun _ hl => ⟨RunnerCall.usesOffsets hl, workFits_decodeStep hcall offsets hl⟩) mem
  have htile := rows_beforeLayer offsets B hcall mem numLayers
  rw [← hrows] at htile
  rw [RunnerPorts.stepRow, ← htile]
  rfl

/-- The launch of the last layer computes the logits of row 0. -/
theorem lmheadOut_lastLaunch {l : Launch} (hl : l.UsesOffsets offsets)
    (hid : l.layerId = numLayers - 1) (hsrc : l.src = .ping) (htile : l.workTile = (0, 1))
    (hseq : l.seqLen = 1) (hrun : l.runLmhead ≠ 0) (v : GemmRegisters) {mem : DecoderMemory}
    {row : ActRow}
    (hrow : tileRows (mem.rows .ping) (0, 1) = B.rowBefore offsets row (numLayers - 1)) :
  (l.layerFunction (B.forLaunch v) mem).lmheadOut
    = writeLogits (B.stepLogits offsets row) mem.lmheadOut
  := by
  have hoffset : l.workTokenOffset = 0 := congrArg Prod.fst htile
  have hcount : l.workTokenCount = 1 := congrArg Prod.snd htile
  have hfits : l.WorkFits := by
    rw [Launch.WorkFits, hoffset, hcount]
    decide
  have hweights : l.layerWeights B.weights = B.weights.advance
      (offsets.getD (numLayers - 1) {}).wgtAxi (offsets.getD (numLayers - 1) {}).metaAxi := by
    rw [Launch.layerWeights, hl.wgt, hl.metadata, hid]
  have hcolumns : ∀ c < C, l.ffnResidual (B.forLaunch v) mem (l.seqLen - 1) c
      = B.lastRow offsets row c := by
    intro c hc
    have hvalues := Launch.ffnRows_loaded (l := l) mem (t := 0) (by omega) hc
      (l.layerWeights B.weights) B.gammaFfn
    rw [hsrc, htile, hrow, hcount, hweights] at hvalues
    have hwork := l.ffnResidual_work (B.forLaunch v) hfits mem (t := 0) (by omega) hc
    rw [hoffset, hcount] at hwork
    rw [hseq, Nat.sub_self]
    refine hwork.trans ?_
    change ffnRows (l.layerWeights B.weights) B.gammaFfn 1 (l.loaded mem) 0 c = _
    rw [hweights]
    exact hvalues
  rw [Launch.layerFunction_lmheadOut l _ hfits, if_pos hrun]
  exact congrArg (writeLogits · _) (lmheadLogits_congr _ _ _ hcolumns)

/-- The logits of a decode step are a function of row 0 of `act_ping_`. -/
theorem lmheadOut_memoryAfter (hcall : call ∈ decodeStepCalls pos kvLen) (mem : DecoderMemory) :
  (call.memoryAfter offsets B u mem).lmheadOut
    = writeLogits (B.stepLogits offsets (actRow (mem.act .ping) 0)) mem.lmheadOut
  := by
  have hmem : (0, 1) ∈ call.tiles := by
    rw [tiles_decodeStep hcall]
    apply List.mem_singleton_self
  have hsplit := launches_decodeStep hcall offsets
  obtain ⟨first, hfirst⟩ : ∃ first, first
      = (List.range (numLayers - 1)).flatMap (call.layerLaunches offsets) := ⟨_, rfl⟩
  rw [← hfirst] at hsplit
  have huses : ∀ l ∈ first ++ [call.launch offsets (numLayers - 1) (0, 1)],
      l.UsesOffsets offsets ∧ l.WorkFits := by
    rw [← hsplit]
    intro l hl
    exact ⟨RunnerCall.usesOffsets hl, workFits_decodeStep hcall offsets hl⟩
  have hafter : call.memoryAfter offsets B u mem
      = (call.launch offsets (numLayers - 1) (0, 1)).layerFunction
        (B.forLaunch (u (call.launch offsets (numLayers - 1) (0, 1))))
        (launchesFunction (first.map fun l => (l, B.forLaunch (u l))) mem) := by
    rw [RunnerCall.memoryAfter, RunnerCall.kernelLaunches, hsplit, List.map_append,
      launchesFunction, List.foldl_append]
    rfl
  have hrows : (launchesFunction (first.map fun l => (l, B.forLaunch (u l))) mem).rows
      = runLayers (B.layers offsets) call offsets (numLayers - 1) mem.rows := by
    rw [RunnerCall.rows_launchesFunction offsets B u
      (fun l hl => huses l (List.mem_append_left _ hl)), hfirst]
    rfl
  have hout : (launchesFunction (first.map fun l => (l, B.forLaunch (u l))) mem).lmheadOut
      = mem.lmheadOut := by
    apply lmheadOut_launchesFunction
    intro lP hlP
    obtain ⟨l, hl, rfl⟩ := List.mem_map.mp hlP
    rw [hfirst] at hl
    obtain ⟨layer, hlayer, hl⟩ := List.mem_flatMap.mp hl
    rw [RunnerCall.layerLaunches, tiles_decodeStep hcall] at hl
    obtain rfl := List.mem_singleton.mp hl
    rw [(launch_decodeStep hcall offsets layer).2, runLmheadOf,
      if_neg (List.mem_range.mp hlayer).ne]
  obtain ⟨hseq, hrun⟩ := launch_decodeStep hcall offsets (numLayers - 1)
  rw [hafter, ← hout]
  apply lmheadOut_lastLaunch offsets B
    (huses _ (List.mem_append_right _ (List.mem_singleton_self _))).1
    (call.layerId_launch offsets _ _) (call.src_launch offsets _ _)
    (workTile_launch call offsets _ hmem) hseq
  · rw [hrun]
    decide
  · rw [hrows]
    apply rows_beforeLayer offsets B hcall

end Step

/-! ### The events of a session -/

/-- The device and the mapping of `act_ping_`. -/
structure RunnerState where
  mem : DecoderMemory
  pingHost : ℕ → BitVec 8

/-- `act_ping_`, as the host sees it. -/
def RunnerState.actPing (st : RunnerState) : FpgaBuffer where
  host := st.pingHost
  device i := (st.mem.act .ping (i / 32)).extractLsb' (i % 32 * 8) 8

/-- What the host does after the prefill: a decode step, after which it reads the logits, or
writing the embedding of a token. -/
inductive HostEvent where
  | decode (call : RunnerCall) (u : Launch → GemmRegisters)
  | write (pos : ℤ) (embedding : Option (ℕ → BitVec 8)) (stride : ℕ)

namespace HostEvent

/-- The event is a decode step at a position of the KV cache, or concerns the embedding of another
row than row 0. -/
def OfDecodeLoop : HostEvent → Prop
  | decode call _ => call.InBounds ∧ ∃ pos kvLen, call ∈ decodeStepCalls pos kvLen
  | write pos _ _ => pos ≠ 0

/-- The launches of an event. -/
def launches (offsets : List WeightOffsets) : HostEvent → List Launch
  | decode call _ => call.launches offsets
  | write _ _ _ => []

/-- The number of decode steps among some events. -/
def decodes (events : List HostEvent) : ℕ :=
  events.countP fun | decode _ _ => true | write _ _ _ => false

variable (maxSeq : ℕ) (offsets : List WeightOffsets) (B : RunnerPorts)

/-- The state after an event, and the logits that are read. -/
def step : HostEvent → RunnerState → Option (RunnerState × List (List ℤ))
  | decode call u, st =>
      ((call.kernelRun offsets B u st.mem).run fun _ => []).map fun r =>
        ({ st with mem := r.1 }, [readLogits r.1.lmheadOut])
  | write pos embedding stride, st =>
      match writeDecodeTokenActivation maxSeq pos embedding stride st.actPing with
      | .error _ => some (st, [])
      | .ok b => some (
          { mem := { st.mem with act := Function.update st.mem.act .ping (axiWord b.device) }
            pingHost := b.host }, [])

/-- The state after some events, and all logits that are read. -/
def runAll : List HostEvent → RunnerState → Option (RunnerState × List (List ℤ))
  | [], st => some (st, [])
  | e :: events, st => do
      let (st, first) ← e.step maxSeq offsets B st
      let (st, rest) ← runAll events st
      return (st, first ++ rest)

end HostEvent

/-- A session: the prefill of `seqLen` rows, when the runner accepts it, and then some events. -/
def runSession (maxSeq : ℕ) (offsets : List WeightOffsets) (B : RunnerPorts)
    (u : Launch → GemmRegisters) (seqLen : ℕ) (events : List HostEvent) (st : RunnerState) :
    Option (Except String (RunnerState × List (List ℤ))) :=
  match runPrefillThroughput maxSeq seqLen offsets with
  | .error e => some (.error e)
  | .ok launches => do
      let prefill := runDecoderLaunches (launches.map fun l => (l, B.forLaunch (u l))) st.mem
      let (mem, _) ← prefill.run fun _ => []
      let result ← HostEvent.runAll maxSeq offsets B events { st with mem }
      return .ok result

/-- The launches of an accepted session. -/
def sessionLaunches (offsets : List WeightOffsets) (seqLen : ℕ) (events : List HostEvent) :
    List Launch :=
  (RunnerCall.prefillThroughput seqLen).launches offsets
    ++ events.flatMap (HostEvent.launches offsets)

/-- They stay in the arrays on the chip. -/
theorem inBounds_sessionLaunches {seqLen : ℕ} (hrows : seqLen ≤ maxL) {events : List HostEvent}
    (h : ∀ e ∈ events, e.OfDecodeLoop) (offsets : List WeightOffsets) :
  ∀ l ∈ sessionLaunches offsets seqLen events, l.InBounds
  := by
  intro l hl
  rcases List.mem_append.mp hl with hprefill | hevent
  · have hcall : (RunnerCall.prefillThroughput seqLen).InBounds := hrows
    apply hcall.launch hprefill
  · obtain ⟨e, he, hl⟩ := List.mem_flatMap.mp hevent
    cases e with
    | decode call u => apply (h _ he).1.launch hl
    | write pos embedding stride => cases hl

/-! ### Row 0 in a session -/

/-- Row 0 of `act_ping_` on the device. -/
def RunnerState.rowZero (st : RunnerState) : ActRow := actRow (st.mem.act .ping) 0

/-- The row of an embedding that is written for another position is not row 0. -/
theorem rowZero_write {maxSeq : ℕ} {pos : ℤ} (hpos : pos ≠ 0) {embedding : Option (ℕ → BitVec 8)}
    {stride : ℕ} {st : RunnerState} {b : FpgaBuffer}
    (h : writeDecodeTokenActivation maxSeq pos embedding stride st.actPing = .ok b) :
  actRow (axiWord b.device) 0 = st.rowZero
  := by
  obtain ⟨e, rfl⟩ : ∃ e, embedding = some e := by
    cases embedding with
    | none => cases h
    | some e => exact ⟨e, rfl⟩
  rw [writeDecodeTokenActivation] at h
  dsimp only at h
  split_ifs at h with hrange hstride
  obtain rfl := Except.ok.inj h
  have hne : 0 ≠ pos.toNat := by omega
  funext c
  have hc : (c : ℕ) < 960 := c.isLt
  have hother := device_other st.actPing e pos.toNat hne c.isLt
  have hlane : (0 * C + (c : ℕ)) % 32 < 32 := Nat.mod_lt _ (by decide)
  rw [actRow, extractLsb'_axiWord _ _ hlane, Nat.div_add_mod]
  exact hother

/-- What a decode step does in a session. -/
theorem step_decode (maxSeq : ℕ) (offsets : List WeightOffsets) (B : RunnerPorts)
    {call : RunnerCall} {pos kvLen : ℕ} (hcall : call ∈ decodeStepCalls pos kvLen)
    (u : Launch → GemmRegisters) (st : RunnerState) :
  ∃ st', (HostEvent.decode call u).step maxSeq offsets B st
      = some (st', [(List.range vocab).map (B.stepLogits offsets st.rowZero)])
    ∧ st'.rowZero = B.stepRow offsets st.rowZero
  := by
  have hlogits : readLogits (call.memoryAfter offsets B u st.mem).lmheadOut
      = (List.range vocab).map (B.stepLogits offsets st.rowZero) := by
    rw [lmheadOut_memoryAfter offsets B u hcall]
    apply readLogits_writeLogits
    apply lmheadLogits_isApInt
  refine ⟨{ st with mem := call.memoryAfter offsets B u st.mem }, ?_, ?_⟩
  · rw [HostEvent.step, RunnerCall.run_kernelRun, Option.map_some, hlogits]
  · apply row_memoryAfter offsets B u hcall

theorem step_write (maxSeq : ℕ) (offsets : List WeightOffsets) (B : RunnerPorts) {pos : ℤ}
    (hpos : pos ≠ 0) (embedding : Option (ℕ → BitVec 8)) (stride : ℕ) (st : RunnerState) :
  ∃ st', (HostEvent.write pos embedding stride).step maxSeq offsets B st = some (st', [])
    ∧ st'.rowZero = st.rowZero
  := by
  rw [HostEvent.step]
  cases hwrite : writeDecodeTokenActivation maxSeq pos embedding stride st.actPing with
  | error e => exact ⟨st, rfl, rfl⟩
  | ok b =>
      refine ⟨_, rfl, ?_⟩
      change actRow (Function.update st.mem.act .ping (axiWord b.device) .ping) 0 = _
      rw [Function.update_self]
      apply rowZero_write hpos hwrite

/-- The logits of some events are those of the iterates of a function of row 0. -/
theorem runAll_logits (maxSeq : ℕ) (offsets : List WeightOffsets) (B : RunnerPorts)
    {events : List HostEvent} (h : ∀ e ∈ events, e.OfDecodeLoop) (st : RunnerState) :
  ∃ st', HostEvent.runAll maxSeq offsets B events st = some (st',
    (List.range (HostEvent.decodes events)).map fun k =>
      (List.range vocab).map (B.stepLogits offsets ((B.stepRow offsets)^[k] st.rowZero)))
  := by
  induction events generalizing st with
  | nil => exact ⟨st, rfl⟩
  | cons e events ih =>
      obtain ⟨he, hevents⟩ := List.forall_mem_cons.mp h
      cases e with
      | decode call u =>
          obtain ⟨-, pos, kvLen, hcall⟩ := he
          obtain ⟨st', hstep, hrow⟩ := step_decode maxSeq offsets B hcall u st
          obtain ⟨st'', hrun⟩ := ih hevents st'
          refine ⟨st'', ?_⟩
          have hcount : HostEvent.decodes (.decode call u :: events)
              = HostEvent.decodes events + 1 := List.countP_cons_of_pos rfl
          rw [HostEvent.runAll, hstep, hcount,
            List.range_succ_eq_map (n := HostEvent.decodes events), List.map_cons, List.map_map]
          simp only [Option.bind_eq_bind, Option.bind_some, hrun, hrow, Function.comp_def,
            Function.iterate_succ_apply, Function.iterate_zero_apply]
          rfl
      | write pos embedding stride =>
          obtain ⟨st', hstep, hrow⟩ := step_write maxSeq offsets B he embedding
            stride st
          obtain ⟨st'', hrun⟩ := ih hevents st'
          refine ⟨st'', ?_⟩
          have hcount : HostEvent.decodes (.write pos embedding stride :: events)
              = HostEvent.decodes events := List.countP_cons_of_neg Bool.false_ne_true
          rw [HostEvent.runAll, hstep, hcount]
          simp only [Option.bind_eq_bind, Option.bind_some, hrun, hrow]
          rfl

/-- Row 0 after the prefill of a prompt that begins with the rows of its first tile. -/
def RunnerPorts.promptRow (B : RunnerPorts) (offsets : List WeightOffsets) (rows : List ActRow) :
    ActRow :=
  (oddLayerChain (B.layers offsets) (0, rows.length) rows numLayers).getD 0 fun _ => 0

theorem rowZero_prefill {seqLen : ℕ} (hseq : 1 ≤ seqLen) (offsets : List WeightOffsets)
    (B : RunnerPorts) (u : Launch → GemmRegisters) (mem : DecoderMemory) :
  actRow (((RunnerCall.prefillThroughput seqLen).memoryAfter offsets B u mem).act .ping) 0
    = B.promptRow offsets (tileRows (mem.rows .ping) (0, min prefillTokenTile seqLen))
  := by
  have hlen : tileLen prefillTokenTile seqLen 0 = min prefillTokenTile seqLen := by
    simp only [tileLen, prefillTokenTile]
    split_ifs <;> omega
  have htile : (0, min prefillTokenTile seqLen) ∈ (RunnerCall.prefillThroughput seqLen).tiles := by
    apply List.mem_map.mpr
    refine ⟨0, List.mem_range.mpr (tileCount_pos (by decide) hseq), ?_⟩
    rw [Nat.zero_mul, hlen]
  have hrow :
      actRow (((RunnerCall.prefillThroughput seqLen).memoryAfter offsets B u mem).act .ping) 0
        = runLayers (B.layers offsets) (.prefillThroughput seqLen) offsets numLayers mem.rows
          .ping 0 :=
    RunnerCall.rows_launchesFunction_below offsets B u
      (fun _ hl => ⟨RunnerCall.usesOffsets hl, RunnerCall.workFitsOrBeyond_prefill offsets hl⟩)
      (fun _ _ _ => rfl) .ping 0 (by decide)
  have hchain := tileRows_runLayers (B.layers offsets) _ offsets htile mem.rows numLayers
  have hpos : 0 < min prefillTokenTile seqLen := Nat.lt_min.mpr ⟨by decide, hseq⟩
  have hrowlen : (tileRows (mem.rows .ping) (0, min prefillTokenTile seqLen)).length
      = min prefillTokenTile seqLen := by rw [tileRows, List.length_map, List.length_range]
  rw [hrow, RunnerPorts.promptRow, hrowlen, ← hchain, tileRows, List.getD_eq_getElem?_getD,
    List.getElem?_map, List.getElem?_range hpos]
  rfl

/-- A device whose activation buffers hold the numbers of their words. -/
def countingState : RunnerState where
  mem := countingMemory
  pingHost := fun _ => 0

/-- Two decode steps after a prompt of 40 tokens, with an embedding written in between. -/
def twoSteps : List HostEvent :=
  [.decode (.decodeTtftToken 40 40) blankRegisters, .write 40 (some fun _ => 1) C,
    .decode (.decodeThroughputWindow 41 41 1) blankRegisters]

end Kv260
