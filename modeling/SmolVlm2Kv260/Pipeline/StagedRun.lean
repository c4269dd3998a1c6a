import SmolVlm2Kv260.Pipeline.PruneHead
import SmolVlm2Kv260.Pipeline.Training
import SmolVlm2Kv260.Export.Manifest
import SmolVlm2Kv260.Process.Simulation

/-!
# Runs in stages

`run_scheme` of `runner.py` calibrates, trains, evaluates and exports a student.  The stages can
be run one at a time: every run restores the checkpoint of the run before it, and prunes the head
once more, which changes nothing.  So the stages leave the checkpoint and the export that a run
of all stages leaves, also where one of them throws.  Only `result.json` differs: the run of the
last stage writes it without the results of the evaluation.
-/

set_option autoImplicit false

namespace Kv260

open Fallible

/-! ### Pruning again -/

section Again

open OrderStatistics

/-- As many elements are at most `a`, the element of a smaller rank is. -/
theorem ranked_le_of_lt_countP {α : Type*} [LinearOrder α] {l : List α} {a : α}
    (i : Fin l.length) (h : i.val < l.countP (· ≤ a)) :
  ranked l i ≤ a
  := by
  by_contra hlt
  rw [not_le] at hlt
  have hsorted := List.sortedLE_insertionSort (l := l)
  have hrest : ((l.insertionSort (· ≤ ·)).drop i).countP (· ≤ a) = 0 := by
    rw [List.countP_eq_zero]
    intro x hx
    obtain ⟨j, hj, rfl⟩ := List.mem_drop_iff_getElem.mp hx
    have hle : ranked l i ≤ (l.insertionSort (· ≤ ·))[i.val + j] :=
      hsorted.getElem_le_getElem_of_le (Nat.le_add_right _ _)
    simpa using lt_of_lt_of_le hlt hle
  have hfirst : ((l.insertionSort (· ≤ ·)).take i).countP (· ≤ a) ≤ i.val := by
    apply le_trans List.countP_le_length
    rw [List.length_take]
    apply min_le_left
  rw [← countP_insertionSort, ← List.take_append_drop i.val (l.insertionSort (· ≤ ·)),
    List.countP_append, hrest] at h
  omega

variable (weight : Tensor) (topk : List ℚ → ℕ → List ℕ) (ratio : ℚ)

/-- The data of a masked weight. -/
theorem Tensor.data_masked (mask : weight.Mask) (i : Fin weight.shape.prod) :
  (weight.masked mask).data i = if mask i then weight.data i else 0
  := by
  change (if h : i.val < weight.shape.prod then
    weight.data ⟨i, h⟩ * (if mask ⟨i, h⟩ then 1 else 0) else 0) = _
  rw [dif_pos i.isLt, mul_ite, mul_one, mul_zero]

/-- A mask that removes zeros only changes nothing. -/
theorem Tensor.masked_eq_self {weight : Tensor} {mask : weight.Mask}
    (h : ∀ i, mask i = false → weight.data i = 0) :
  weight.masked mask = weight
  := by
  have hdata : (weight.masked mask).data = weight.data := by
    funext i
    apply (data_masked weight mask i).trans
    split
    · rfl
    · rename_i hmask
      exact (h i (Bool.eq_false_iff.mpr hmask)).symm
  obtain ⟨shape, data⟩ := weight
  exact congrArg (Tensor.mk shape) hdata

theorem Tensor.pruneMagnitude_eq_masked :
  (weight.pruneMagnitude topk ratio).1 = weight.masked (weight.keepMask topk ratio)
  := by
  rw [pruneMagnitude, keepMask]
  cases weight.pruneMask topk ratio with
  | none => exact (masked_eq_self fun i h => Bool.noConfusion h).symm
  | some cut => rfl

/-- The elements that a mask removes are zeros afterwards. -/
theorem Tensor.removed_le_countP (mask : weight.Mask) :
  removed mask ≤ (weight.masked mask).flatAbs.countP (· ≤ 0)
  := by
  rw [flatAbs, List.ofFn_eq_map, List.countP_map]
  apply List.countP_mono_left
  intro i _ hi
  have hdata := weight.data_masked mask i
  rw [if_neg (by simpa using hi)] at hdata
  exact decide_eq_true ((congrArg abs hdata).trans abs_zero).le

/-- The head is pruned once: pruning it again by the same ratio changes nothing. -/
theorem Tensor.pruneMagnitude_again :
  ((weight.pruneMagnitude topk ratio).1.pruneMagnitude topk ratio).1
    = (weight.pruneMagnitude topk ratio).1
  := by
  rw [pruneMagnitude_eq_masked weight, pruneMagnitude_eq_masked]
  apply masked_eq_self
  by_cases hcount : pruneCount weight.numel ratio = 0
  · have hsame : pruneCount (weight.masked (weight.keepMask topk ratio)).numel ratio = 0 := hcount
    rw [keepMask_of_pruneCount_eq_zero _ topk hsame]
    exact fun i h => Bool.noConfusion h
  · have hsame : pruneCount (weight.masked (weight.keepMask topk ratio)).numel ratio ≠ 0 := hcount
    rw [keepMask_of_pruneCount_ne_zero _ topk hsame]
    intro i hi
    have habs := not_lt.mp (of_decide_eq_false hi)
    have hmany : pruneCount weight.numel ratio - 1
        < (weight.masked (weight.keepMask topk ratio)).flatAbs.countP (· ≤ 0) := by
      apply lt_of_lt_of_le _ (weight.removed_le_countP _)
      rw [keepMask_of_pruneCount_ne_zero _ topk hcount, removed_thresholdMask]
      exact rank_lt_countP weight.flatAbs ⟨_, weight.pred_pruneCount_lt hcount⟩
    have hzero : ranked (weight.masked (weight.keepMask topk ratio)).flatAbs
        ⟨pruneCount weight.numel ratio - 1, pred_pruneCount_lt _ hsame⟩ ≤ 0 :=
      ranked_le_of_lt_countP _ hmany
    exact abs_eq_zero.mp (le_antisymm (habs.trans hzero) (abs_nonneg _))

end Again

/-! ### Calibration -/

/-- What the AWQ calibration does with the modules of a student `W`: the calls of the hooks in a
forward pass, with the `mean_abs` of the inputs, and `set_awq_scale`. -/
structure AwqTools (W F E : Type) where
  forward : W → SampleRecord F → Except E (List (String × List ℚ))
  sqrt : ℚ → ℚ
  moduleNames : List String
  setAwqScale : String → List ℚ → W → W

/-- `module_stats` and `module_steps`. -/
abbrev ModuleStats : Type := String → Option (List ℚ × ℕ)

/-- `hook`. -/
def ModuleStats.hook (stats : ModuleStats) (call : String × List ℚ) : ModuleStats :=
  Function.update stats call.1 (some
    (match stats call.1 with
      | none => (call.2, 1)
      | some (sum, steps) => (List.zipWith (· + ·) sum call.2, steps + 1)))

/-- The report on the scale of a module. -/
structure AwqScaleStat where
  min : ℚ
  max : ℚ
  mean : ℚ

/-- What `_run_awq_calibration` returns. -/
structure AwqReport where
  calibratedModules : List (String × AwqScaleStat)
  recordsUsed : ℕ

/-- `mean()`. -/
def listMean (l : List ℚ) : ℚ := l.sum / l.length

/-- The report on a scale. -/
def AwqScaleStat.of (scale : List ℚ) : AwqScaleStat where
  min := scale.min?.getD 0
  max := scale.max?.getD 0
  mean := listMean scale

namespace AwqTools

variable {W F E : Type} (tools : AwqTools W F E)

/-- The scale of a module, from the sum of the magnitudes and the number of calls. -/
def awqScale (sum : List ℚ) (steps : ℕ) : List ℚ :=
  let scale := sum.map fun x => tools.sqrt (x / Max.max steps 1)
  scale.map fun x => Max.max (1 / 4) (Min.min 4 (x / Max.max (listMean scale) (1 / 10 ^ 6)))

/-- `_run_awq_calibration`. -/
def runAwqCalibration (records : List (SampleRecord F)) : Fallible W E AwqReport := do
  let student ← state
  let calls ← Fallible.ofExcept (records.mapM (tools.forward student))
  let stats : ModuleStats := calls.flatten.foldl ModuleStats.hook fun _ => none
  let scales := tools.moduleNames.filterMap fun name =>
    (stats name).map fun (sum, steps) => (name, tools.awqScale sum steps)
  update fun student => scales.foldl (fun w e => tools.setAwqScale e.1 e.2 w) student
  pure
    { calibratedModules := scales.map fun e => (e.1, AwqScaleStat.of e.2)
      recordsUsed := records.length }

end AwqTools

/-! ### The results of the evaluation -/

/-- `ZeroSkipStat`. -/
structure ZeroSkipStat where
  zeroCount : ℕ
  totalCount : ℕ

/-- What `evaluate_generation_sanity` returns: the failures, with their predictions. -/
structure GenerationSanity where
  ok : Bool
  failures : List (String × String)

/-- What `_evaluate_scheme` returns, and what `baseline_metrics.json` has. -/
structure SchemeMetrics where
  scheme : String
  textPpl : ℚ
  frozenEval : MultimodalEvalResult
  heldoutEval : MultimodalEvalResult
  generationSanity : GenerationSanity
  zeroSkip : List (String × ZeroSkipStat)

/-- The reasons of a `SchemeVerdict`, without the text around their numbers. -/
inductive ViabilityReason where
  | accuracyDrop (drop : ℚ)
  | textPplRatio (ratio : ℚ)
  | generationSanityFailed
  | meetsLocalThreshold

/-- `SchemeVerdict`. -/
structure SchemeVerdict where
  name : String
  verdict : String
  reasons : List ViabilityReason

/-- `evaluate_viability`. -/
def evaluateViability (baseline candidate : SchemeMetrics) : SchemeVerdict :=
  let drop := baseline.frozenEval.accuracy - candidate.frozenEval.accuracy
  let ratio := candidate.textPpl / baseline.textPpl
  let reasons :=
    (if drop > 5 then [ViabilityReason.accuracyDrop drop] else [])
      ++ (if baseline.textPpl > 0 ∧ ratio > 115 / 100 then [.textPplRatio ratio] else [])
      ++ if candidate.generationSanity.ok then [] else [.generationSanityFailed]
  { name := candidate.scheme
    verdict := if reasons.isEmpty then "可行" else "不可行"
    reasons := if reasons.isEmpty then [.meetsLocalThreshold] else reasons }

/-- The results of a run. -/
structure SchemeResults where
  metrics : SchemeMetrics
  verdict : SchemeVerdict

/-! ### A run -/

/-- The choices of `--stage` that run a scheme. -/
inductive Stage where
  | calibrate
  | train
  | eval
  | export
  | all
deriving DecidableEq

/-- A student with its wrapped modules: the weight of `lm_head`, which is not wrapped and not
trained, and the rest of `state_dict`. -/
structure SchemeStudent (W : Type) where
  head : Tensor
  rest : W

/-- The export in `stage_info`. -/
inductive HardwareExportInfo where
  | skipped (reason : String)
  | exported (manifest : Fields)

/-- `stage_info`, less the payload of the run before. -/
structure StageInfo (E : Type) where
  wrappedModules : ℕ
  checkpointRestored : Bool
  lmHeadPruning : LmHeadPruneStat
  awqCalibration : Option AwqReport
  training : Option TrainingReport
  hardwareExport : Option HardwareExportInfo
  failure : Option E

/-- The `extra` payload of a checkpoint: the results, or `stage_info` with the payload of the
checkpoint before. -/
inductive ExtraPayload (E : Type) where
  | results (results : SchemeResults)
  | stageInfo (info : StageInfo E) (prior : Option (ExtraPayload E))

/-- What is written to `result.json`. -/
structure RunPayload (E : Type) where
  scheme : QuantSchemeSpec
  baseline : SchemeMetrics
  info : StageInfo E
  prior : Option (ExtraPayload E)
  results : Option SchemeResults
  quickMode : Bool
  lmHeadPruneRatio : ℚ

/-- The directory of a scheme, with its hardware export `X`. -/
structure SchemeDir (W E X : Type) where
  checkpoint : Option (SchemeStudent W × Option (ExtraPayload E))
  hardwareExport : X
  result : Option (RunPayload E)

/-- The state of a run: the student, the payload and the directory. -/
structure RunState (W E X : Type) where
  student : SchemeStudent W
  payload : RunPayload E
  dir : SchemeDir W E X

/-- The configuration of a run, and what computes in it.  The collector of zeros counts in all
stages that a run goes through; a scheme with such statistics has neither a calibration nor a
training, so that its collector only sees the evaluation. -/
structure SchemeRun (W O F E X : Type) where
  scheme : QuantSchemeSpec
  collects : scheme.zeroSkipStats = true → scheme.awqEnabled = false ∧ scheme.requiresQat = false
  config : TrainConfig
  lmHeadPruneRatio : ℚ
  topk : List ℚ → ℕ → List ℕ
  wrappedModules : ℕ
  baseline : SchemeMetrics
  splits : String → List (SampleRecord F)
  awq : Tensor → AwqTools W F E
  qat : Tensor → QatTools W O F E
  textPerplexity : SchemeStudent W → List (SampleRecord F) → Except E ℚ
  generationSanity : SchemeStudent W → List (SampleRecord F) → Except E GenerationSanity
  zeroSkip : List Stage → SchemeStudent W → List (String × ZeroSkipStat)
  exportBundle : SchemeStudent W → Fallible X E Fields

example : ∀ scheme ∈ schemeRegistry, scheme.zeroSkipStats = true →
    scheme.awqEnabled = false ∧ scheme.requiresQat = false := by decide

namespace RunState

variable {W E X : Type}

/-- A change of `stage_info`. -/
def setInfo (f : StageInfo E → StageInfo E) (st : RunState W E X) : RunState W E X :=
  { st with payload := { st.payload with info := f st.payload.info } }

/-- `write_json(scheme_dir / "result.json", payload)`. -/
def writeResult (st : RunState W E X) : RunState W E X :=
  { st with dir := { st.dir with result := some st.payload } }

/-- `stage_info` as the payload of a checkpoint. -/
def stagePayload (st : RunState W E X) : ExtraPayload E :=
  .stageInfo st.payload.info st.payload.prior

/-- `save_local_checkpoint`. -/
def saveLocalCheckpoint (extra : ExtraPayload E) (st : RunState W E X) : RunState W E X :=
  { st with dir := { st.dir with checkpoint := some (st.student, some extra) } }

/-- The rest of the student is computed with. -/
def setRest (rest : W) (st : RunState W E X) : RunState W E X :=
  { st with student := { st.student with rest := rest } }

/-- The directory of the export is written to. -/
def setExport (hardwareExport : X) (st : RunState W E X) : RunState W E X :=
  { st with dir := { st.dir with hardwareExport := hardwareExport } }

end RunState

namespace SchemeRun

variable {W O F E X : Type} (run : SchemeRun W O F E X)

/-- `prune_lm_head_magnitude(student.lm_head, …)`; the head is a linear module. -/
def prune (student : SchemeStudent W) : SchemeStudent W × LmHeadPruneStat :=
  let (head, stat) := student.head.pruneMagnitude run.topk (clampRatio run.lmHeadPruneRatio)
  ({ student with head := head }, stat)

/-- `_load_existing_checkpoint`, for a student as it was wrapped. -/
def loadExistingCheckpoint (wrapped : SchemeStudent W) (dir : SchemeDir W E X) :
    SchemeStudent W × Bool × Option (ExtraPayload E) :=
  match dir.checkpoint with
  | none => (wrapped, false, none)
  | some (student, extra) => (student, true, extra)

/-- The state before the stages. -/
def start (wrapped : SchemeStudent W) (dir : SchemeDir W E X) : RunState W E X :=
  let (loaded, restored, prior) := loadExistingCheckpoint wrapped dir
  let (student, stat) := run.prune loaded
  RunState.writeResult
    { student := student
      payload :=
        { scheme := run.scheme
          baseline := run.baseline
          info :=
            { wrappedModules := run.wrappedModules
              checkpointRestored := restored
              lmHeadPruning := stat
              awqCalibration := none
              training := none
              hardwareExport := none
              failure := none }
          prior := prior
          results := none
          quickMode := run.config.quickMode
          lmHeadPruneRatio := run.lmHeadPruneRatio }
      dir := dir }

/-- `_run_awq_calibration`, on the split for it. -/
def calibrateRest (head : Tensor) : Fallible W E AwqReport :=
  (run.awq head).runAwqCalibration (run.splits "ptq_multimodal_calib")

/-- `_run_qat_training`, on the splits for it. -/
def trainRest (head : Tensor) : Fallible W E TrainingReport :=
  ⟨fun rest =>
    let tools := run.qat head
    let (report, st) := (tools.runQatTraining run.config (run.splits "qat_train")
      (run.splits "qat_val")).run ⟨rest, tools.newOptimizer, false⟩
    (report, st.params)⟩

/-- The stages that a run goes through before it evaluates. -/
def stagesBefore (stage : Stage) : List Stage :=
  if stage = .all then
    (if run.scheme.awqEnabled then [.calibrate] else [])
      ++ (if run.scheme.requiresQat then [.train] else [])
  else []

/-- `_evaluate_scheme`, with the verdict. -/
def evaluateScheme (stage : Stage) (student : SchemeStudent W) : Except E SchemeResults := do
  let tools := run.qat student.head
  let textPpl ← run.textPerplexity student (run.splits "ptq_text_calib")
  let frozenEval ← tools.evaluate student.rest (run.splits "frozen_eval")
  let heldoutEval ← tools.evaluate student.rest (run.splits "heldout_eval")
  let generationSanity ← run.generationSanity student ((run.splits "heldout_eval").take 2)
  let metrics : SchemeMetrics :=
    { scheme := run.scheme.name
      textPpl := textPpl
      frozenEval := frozenEval
      heldoutEval := heldoutEval
      generationSanity := generationSanity
      zeroSkip :=
        if run.scheme.zeroSkipStats then run.zeroSkip (run.stagesBefore stage) student else [] }
  return { metrics := metrics, verdict := evaluateViability run.baseline metrics }

/-- The collector has seen nothing before the evaluation. -/
theorem stagesBefore_eq_nil (h : run.scheme.zeroSkipStats = true) (stage : Stage) :
  run.stagesBefore stage = []
  := by
  obtain ⟨hawq, hqat⟩ := run.collects h
  rw [stagesBefore, hawq, hqat]
  split
  · rfl
  · rfl

/-- So it does not matter in which run the student is evaluated. -/
theorem evaluateScheme_eq_eval (stage : Stage) (student : SchemeStudent W) :
  run.evaluateScheme stage student = run.evaluateScheme .eval student
  := by
  have hzeroSkip : (if run.scheme.zeroSkipStats then run.zeroSkip (run.stagesBefore stage) student
      else []) = if run.scheme.zeroSkipStats then run.zeroSkip (run.stagesBefore .eval) student
      else [] := by
    split
    · rename_i hstats
      rw [run.stagesBefore_eq_nil hstats, run.stagesBefore_eq_nil hstats]
    · rfl
  rw [evaluateScheme, hzeroSkip]
  rfl

/-- `export_hardware_bundle`, unless in quick mode. -/
def exportStudent (student : SchemeStudent W) : Fallible X E HardwareExportInfo :=
  if run.config.quickMode then pure (.skipped "quick_mode")
  else do
    let manifest ← run.exportBundle student
    pure (.exported manifest)

/-- The calibration in a run. -/
def calibratePart : Fallible (RunState W E X) E Unit := do
  let st ← state
  let report ← zoom (fun st => st.student.rest) RunState.setRest
    (run.calibrateRest st.student.head)
  update fun st => st.setInfo fun info => { info with awqCalibration := some report }
  update RunState.writeResult

/-- The training in a run. -/
def trainPart : Fallible (RunState W E X) E Unit := do
  let st ← state
  let report ← zoom (fun st => st.student.rest) RunState.setRest (run.trainRest st.student.head)
  update fun st => st.setInfo fun info => { info with training := some report }
  update fun st => st.saveLocalCheckpoint st.stagePayload
  update RunState.writeResult

/-- The evaluation in a run. -/
def evalPart (stage : Stage) : Fallible (RunState W E X) E Unit := do
  let st ← state
  let results ← Fallible.ofExcept (run.evaluateScheme stage st.student)
  update fun st => { st with payload := { st.payload with results := some results } }
  update RunState.writeResult

/-- The export in a run. -/
def exportPart : Fallible (RunState W E X) E Unit := do
  update fun st => st.saveLocalCheckpoint
    (match st.payload.results with
      | some results => .results results
      | none => st.stagePayload)
  let st ← state
  let exported ← zoom (fun st => st.dir.hardwareExport) RunState.setExport
    (run.exportStudent st.student)
  update fun st => st.setInfo fun info => { info with hardwareExport := some exported }
  update RunState.writeResult

/-- The `try` block of `run_scheme`. -/
def stages (stage : Stage) : Fallible (RunState W E X) E Unit := do
  (if (stage = .calibrate ∨ stage = .all) ∧ run.scheme.awqEnabled then run.calibratePart
    else pure ())
  (if (stage = .train ∨ stage = .all) ∧ run.scheme.requiresQat then run.trainPart else pure ())
  (if stage = .eval ∨ stage = .all then run.evalPart stage else pure ())
  (if stage = .export ∨ stage = .all then run.exportPart else pure ())

/-- The failure is noted, and the student saved as it is. -/
def noteFailure (e : E) (st : RunState W E X) : RunState W E X :=
  let st := (st.setInfo fun info => { info with failure := some e }).writeResult
  st.saveLocalCheckpoint st.stagePayload

/-- What `run_scheme` does after the student is pruned. -/
def body (stage : Stage) : Fallible (RunState W E X) E (RunPayload E) := do
  tryCatch (run.stages stage) fun e => do
    update (noteFailure e)
    throw e
  (if stage = .calibrate ∨ stage = .train then
    update fun st => st.saveLocalCheckpoint st.stagePayload
    else pure ())
  let st ← state
  pure st.payload

/-- `run_scheme`, with the student that it wraps. -/
def runScheme (wrapped : SchemeStudent W) (stage : Stage) :
    Fallible (SchemeDir W E X) E (RunPayload E) :=
  ⟨fun dir =>
    let (payload, st) := (run.body stage).run (run.start wrapped dir)
    (payload, st.dir)⟩

theorem run_runScheme (wrapped : SchemeStudent W) (stage : Stage) (dir : SchemeDir W E X) :
  (run.runScheme wrapped stage).run dir
    = (((run.body stage).run (run.start wrapped dir)).1,
      ((run.body stage).run (run.start wrapped dir)).2.dir)
  := by
  rfl

/-- The stages run one after another, each of them with a student of its own that it wraps. -/
def runStaged (calibrated trained evaluated exported : SchemeStudent W) :
    Fallible (SchemeDir W E X) E (Option SchemeResults) := do
  let _ ← run.runScheme calibrated .calibrate
  let _ ← run.runScheme trained .train
  let payload ← run.runScheme evaluated .eval
  let _ ← run.runScheme exported .export
  pure payload.results

end SchemeRun

/-! ### The stages without their files -/

/-- What the stages are about: a student, and its export. -/
structure Product (W X : Type) where
  student : SchemeStudent W
  hardwareExport : X

/-- The rest of the student is computed with. -/
def Product.setRest {W X : Type} (rest : W) (p : Product W X) : Product W X :=
  { p with student := { p.student with rest := rest } }

/-- The export is written. -/
def Product.setExport {W X : Type} (hardwareExport : X) (p : Product W X) : Product W X :=
  { p with hardwareExport := hardwareExport }

namespace SchemeRun

variable {W O F E X : Type} (run : SchemeRun W O F E X)

/-- The student is calibrated. -/
def calibrateProduct : Fallible (Product W X) E Unit := do
  let p ← state
  let _ ← zoom (fun p => p.student.rest) Product.setRest (run.calibrateRest p.student.head)
  pure ()

/-- The student is trained. -/
def trainProduct : Fallible (Product W X) E Unit := do
  let p ← state
  let _ ← zoom (fun p => p.student.rest) Product.setRest (run.trainRest p.student.head)
  pure ()

/-- The student is evaluated. -/
def evalProduct : Fallible (Product W X) E (Option SchemeResults) := do
  let p ← state
  let results ← Fallible.ofExcept (run.evaluateScheme .eval p.student)
  pure (some results)

/-- The student is exported. -/
def exportProduct : Fallible (Product W X) E Unit := do
  let p ← state
  let _ ← zoom (fun p => p.hardwareExport) Product.setExport (run.exportStudent p.student)
  pure ()

/-- What a stage makes of a student, with the results of the evaluation. -/
def outcome (stage : Stage) : Fallible (Product W X) E (Option SchemeResults) := do
  (if (stage = .calibrate ∨ stage = .all) ∧ run.scheme.awqEnabled then run.calibrateProduct
    else pure ())
  (if (stage = .train ∨ stage = .all) ∧ run.scheme.requiresQat then run.trainProduct else pure ())
  let results ← (if stage = .eval ∨ stage = .all then run.evalProduct else pure none)
  (if stage = .export ∨ stage = .all then run.exportProduct else pure ())
  pure results

/-- The stages one after another are all stages. -/
theorem outcome_staged :
  (do
    let _ ← run.outcome .calibrate
    let _ ← run.outcome .train
    let results ← run.outcome .eval
    let _ ← run.outcome .export
    pure results) = run.outcome .all
  := by
  simp [outcome]

/-! ### Inside a run -/

/-- The head of the student is pruned. -/
def Pruned (student : SchemeStudent W) : Prop :=
  (student.head.pruneMagnitude run.topk (clampRatio run.lmHeadPruneRatio)).1 = student.head

/-- A run has a student and its export, and has written its payload; if `saved`, the checkpoint
is that of the student. -/
structure InRun (saved : Prop) (results : Option SchemeResults) (st : RunState W E X)
    (p : Product W X) : Prop where
  student : st.student = p.student
  pruned : run.Pruned p.student
  hardwareExport : st.dir.hardwareExport = p.hardwareExport
  results : st.payload.results = results
  written : st.dir.result = some st.payload
  saved : saved → st.dir.checkpoint.map Prod.fst = some p.student

/-- A run in which an exception was thrown. -/
structure Thrown (_ : E) (st : RunState W E X) (p : Product W X) : Prop where
  student : st.student = p.student
  pruned : run.Pruned p.student
  hardwareExport : st.dir.hardwareExport = p.hardwareExport

variable {run} {saved : Prop} {results : Option SchemeResults} {st : RunState W E X}
  {p : Product W X}

theorem InRun.thrown (h : run.InRun saved results st p) (e : E) :
  run.Thrown e st p
  := ⟨h.student, h.pruned, h.hardwareExport⟩

/-- `stage_info` is changed and written. -/
theorem InRun.noted (h : run.InRun saved results st p) (f : StageInfo E → StageInfo E) :
  run.InRun saved results (st.setInfo f).writeResult p
  := ⟨h.student, h.pruned, h.hardwareExport, h.results, rfl, h.saved⟩

/-- The student is saved. -/
theorem InRun.checkpointed (h : run.InRun saved results st p) (extra : ExtraPayload E) :
  run.InRun True results (st.saveLocalCheckpoint extra) p
  := ⟨h.student, h.pruned, h.hardwareExport, h.results, h.written, fun _ =>
    congrArg some h.student⟩

theorem InRun.mono {saved' : Prop} (h : run.InRun saved results st p) (himp : saved' → saved) :
  run.InRun saved' results st p
  := ⟨h.student, h.pruned, h.hardwareExport, h.results, h.written, fun hsaved =>
    h.saved (himp hsaved)⟩

variable (run)

/-- The rest of the student is computed with, in a stage that saves the student later. -/
theorem simulates_zoomRest {α : Type} (m : Fallible W E α) (hsaved : ¬ saved)
    (h : run.InRun saved results st p) :
  Simulates (fun st' p' => st' = st ∧ p' = p)
    (zoom (fun st : RunState W E X => st.student.rest) RunState.setRest m)
    (zoom (fun p : Product W X => p.student.rest) Product.setRest m)
    (fun _ _ => run.InRun saved results) run.Thrown
  := by
  have hrest : ∀ rest : W, run.InRun saved results (st.setRest rest) (p.setRest rest) := fun rest =>
    ⟨congrArg (fun student : SchemeStudent W => { student with rest := rest }) h.student, h.pruned,
      h.hardwareExport, h.results, h.written, fun hyes => (hsaved hyes).elim⟩
  apply simulates_zoom
  · rintro _ _ ⟨rfl, rfl⟩
    rw [h.student]
  · rintro _ _ ⟨rfl, rfl⟩ _ rest
    exact hrest rest
  · rintro _ _ ⟨rfl, rfl⟩ e rest
    exact (hrest rest).thrown e

/-- The calibration. -/
theorem simulates_calibratePart (hsaved : ¬ saved) :
  Simulates (run.InRun saved results) run.calibratePart run.calibrateProduct
    (fun _ _ => run.InRun saved results) run.Thrown
  := by
  apply simulates_state_bind
  intro st p h
  rw [h.student]
  apply simulates_bind (run.simulates_zoomRest _ hsaved h)
  intro report _
  apply simulates_update_bind (P := fun st => run.InRun saved results st.writeResult)
  · intro st p h
    exact h.noted _
  · apply simulates_update
    intro st p h
    exact h

/-- The training. -/
theorem simulates_trainPart (hsaved : ¬ saved) :
  Simulates (run.InRun saved results) run.trainPart run.trainProduct
    (fun _ _ => run.InRun saved results) run.Thrown
  := by
  apply simulates_state_bind
  intro st p h
  rw [h.student]
  apply simulates_bind (run.simulates_zoomRest _ hsaved h)
  intro report _
  apply simulates_update_bind (P := fun st => run.InRun saved results st.writeResult)
  · intro st p h
    exact h.noted _
  · apply simulates_update_bind (P := fun st => run.InRun saved results st.writeResult)
    · intro st p h
      exact ⟨h.student, h.pruned, h.hardwareExport, h.results, rfl, fun hyes =>
        (hsaved hyes).elim⟩
    · apply simulates_update
      intro st p h
      exact h

/-- The evaluation. -/
theorem simulates_evalPart (stage : Stage) :
  Simulates (run.InRun saved results) (run.evalPart stage) run.evalProduct
    (fun _ evaluated st p => evaluated.isSome = true ∧ run.InRun saved evaluated st p) run.Thrown
  := by
  apply simulates_state_bind
  intro st p h
  rw [h.student, evaluateScheme_eq_eval]
  apply simulates_bind
    (Q := fun a b st p => a = b ∧ run.InRun saved results st p)
  · apply simulates_ofExcept
    · rintro results _ _ _ ⟨rfl, rfl⟩
      exact ⟨rfl, h⟩
    · rintro e _ _ _ ⟨rfl, rfl⟩
      exact h.thrown e
  · intro evaluated b
    apply simulates_update_bind
      (P := fun st p => evaluated = b ∧ run.InRun saved (some evaluated) st.writeResult p)
    · rintro st p ⟨hvalue, h⟩
      exact ⟨hvalue, h.student, h.pruned, h.hardwareExport, rfl, rfl, h.saved⟩
    · apply simulates_update
      rintro st p ⟨rfl, h⟩
      exact ⟨rfl, h⟩

/-- The export. -/
theorem simulates_exportPart :
  Simulates (run.InRun saved results) run.exportPart run.exportProduct
    (fun _ _ => run.InRun True results) run.Thrown
  := by
  apply simulates_update_bind (P := run.InRun True results)
  · intro st p h
    exact h.checkpointed _
  · apply simulates_state_bind
    intro st p h
    rw [h.student]
    have hexport : ∀ x : X, run.InRun True results (st.setExport x) (p.setExport x) := fun x =>
      ⟨h.student, h.pruned, rfl, h.results, h.written, h.saved⟩
    apply simulates_bind (Q := fun _ _ => run.InRun True results)
    · apply simulates_zoom
      · rintro _ _ ⟨rfl, rfl⟩
        exact h.hardwareExport
      · rintro _ _ ⟨rfl, rfl⟩ _ x
        exact hexport x
      · rintro _ _ ⟨rfl, rfl⟩ e x
        exact (hexport x).thrown e
    · intro exported _
      apply simulates_update_bind (P := fun st => run.InRun True results st.writeResult)
      · intro st p h
        exact h.noted _
      · apply simulates_update
        intro st p h
        exact h

/-- The `try` block: what was saved before an evaluation stays saved, and what is exported is
saved.  There are results if the stage evaluates. -/
theorem simulates_stages (stage : Stage) :
  Simulates (run.InRun (stage = .eval) none) (run.stages stage) (run.outcome stage)
    (fun _ results st p => (results.isSome = true ↔ stage = .eval ∨ stage = .all)
      ∧ run.InRun (stage = .eval ∨ stage = .export ∨ stage = .all) results st p) run.Thrown
  := by
  rw [stages, outcome]
  apply simulates_bind (Q := fun _ _ => run.InRun (stage = .eval) none)
  · apply simulates_ite
    · rintro ⟨hstage, _⟩
      apply run.simulates_calibratePart
      rintro rfl
      exact absurd hstage (by decide)
    · intro _
      exact simulates_pure fun st p h => h
  intro _ _
  apply simulates_bind (Q := fun _ _ => run.InRun (stage = .eval) none)
  · apply simulates_ite
    · rintro ⟨hstage, _⟩
      apply run.simulates_trainPart
      rintro rfl
      exact absurd hstage (by decide)
    · intro _
      exact simulates_pure fun st p h => h
  intro _ _
  apply simulates_bind (Q := fun _ results st p =>
    (results.isSome = true ↔ stage = .eval ∨ stage = .all) ∧ run.InRun (stage = .eval) results st p)
  · apply simulates_ite
    · intro hstage
      apply simulates_post (run.simulates_evalPart stage)
      exact fun _ results st p h => ⟨iff_of_true h.1 hstage, h.2⟩
    · intro hstage
      exact simulates_pure fun st p h => ⟨iff_of_false Bool.false_ne_true hstage, h⟩
  intro _ results
  apply simulates_fact
  intro hresults
  apply simulates_bind_pure
  apply simulates_ite
  · intro _
    apply simulates_post run.simulates_exportPart
    exact fun _ _ st p h => ⟨hresults, h.mono fun _ => trivial⟩
  · intro hstage
    apply simulates_pure
    intro st p h
    exact ⟨hresults, h.mono fun hsaved => hsaved.resolve_right hstage⟩

/-- The directory after a stage has thrown: the student is saved as it was then, and the
exception is in `result.json`. -/
structure Failed (e : E) (dir : SchemeDir W E X) (p : Product W X) : Prop where
  pruned : run.Pruned p.student
  saved : dir.checkpoint.map Prod.fst = some p.student
  hardwareExport : dir.hardwareExport = p.hardwareExport
  noted : ∃ payload, dir.result = some payload ∧ payload.info.failure = some e

/-- The directory after a stage: the student is saved, and the payload is in `result.json`. -/
structure Ended (payload : RunPayload E) (results : Option SchemeResults) (dir : SchemeDir W E X)
    (p : Product W X) : Prop where
  pruned : run.Pruned p.student
  saved : dir.checkpoint.map Prod.fst = some p.student
  hardwareExport : dir.hardwareExport = p.hardwareExport
  written : dir.result = some payload
  results : payload.results = results

/-- What a run does with the student. -/
theorem simulates_body (stage : Stage) :
  Simulates (run.InRun (stage = .eval) none) (run.body stage) (run.outcome stage)
    (fun payload results st p => (results.isSome = true ↔ stage = .eval ∨ stage = .all)
      ∧ run.Ended payload results st.dir p)
    (fun e st => run.Failed e st.dir)
  := by
  rw [body, ← bind_pure (run.outcome stage)]
  apply simulates_bind
  · apply simulates_tryCatch (run.simulates_stages stage)
    intro e st p h
    exact ⟨h.pruned, congrArg some h.student, h.hardwareExport, _, rfl, rfl⟩
  intro _ results
  apply simulates_fact
  intro hresults
  rw [← pure_bind () fun _ => pure results]
  apply simulates_bind (Q := fun _ _ => run.InRun True results)
  · by_cases hstage : stage = .calibrate ∨ stage = .train
    · rw [if_pos hstage]
      apply simulates_update
      intro st p h
      exact h.checkpointed _
    · rw [if_neg hstage]
      apply simulates_pure
      intro st p h
      apply h.mono
      rcases stage with _ | _ | _ | _ | _ <;> simp_all
  · intro _ _ st p h
    exact ⟨hresults, h.pruned, h.saved trivial, h.hardwareExport, h.written, h.results⟩

/-- A run of a stage, from any directory from which the student that it prunes is `p`'s. -/
theorem simulates_runScheme (wrapped : SchemeStudent W) (stage : Stage) :
  Simulates (fun dir => run.InRun (stage = .eval) none (run.start wrapped dir))
    (run.runScheme wrapped stage) (run.outcome stage)
    (fun payload results dir p => (results.isSome = true ↔ stage = .eval ∨ stage = .all)
      ∧ run.Ended payload results dir p)
    run.Failed
  := by
  intro dir p h
  have hbody := run.simulates_body stage _ _ h
  rw [run_runScheme]
  revert hbody
  rcases (run.body stage).run (run.start wrapped dir) with ⟨e | payload, st⟩ <;>
    rcases (run.outcome stage).run p with ⟨e' | results, p'⟩ <;> intro hbody <;> exact hbody

/-! ### One stage after another -/

variable {run}

/-- After a stage the next one may begin, with any student that it wraps. -/
theorem inRun_start {payload : RunPayload E} {results : Option SchemeResults}
    {dir : SchemeDir W E X} (h : run.Ended payload results dir p) (wrapped : SchemeStudent W)
    (saved : Prop) :
  run.InRun saved none (run.start wrapped dir) p
  := by
  obtain ⟨⟨student, extra⟩, hcheckpoint, hstudent⟩ := Option.map_eq_some_iff.mp h.saved
  have hload : (loadExistingCheckpoint wrapped dir).1 = p.student := by
    rw [loadExistingCheckpoint, hcheckpoint]
    exact hstudent
  have hprune : (run.prune p.student).1 = p.student :=
    congrArg (fun head => { p.student with head := head }) h.pruned
  constructor
  · change (run.prune (loadExistingCheckpoint wrapped dir).1).1 = p.student
    rw [hload, hprune]
  · exact h.pruned
  · exact h.hardwareExport
  · rfl
  · rfl
  · exact fun _ => h.saved

variable (run)

/-- A stage that is no evaluation may begin in any directory: with its checkpoint, or with the
student that is wrapped, and the head pruned. -/
theorem inRun_start_of_ne (stage : Stage) (hstage : stage ≠ .eval) (wrapped : SchemeStudent W)
    (dir : SchemeDir W E X) :
  run.InRun (stage = .eval) none (run.start wrapped dir)
    ⟨(run.start wrapped dir).student, dir.hardwareExport⟩
  := ⟨rfl, Tensor.pruneMagnitude_again _ _ _, rfl, rfl, rfl, fun heval => (hstage heval).elim⟩

/-- The stages one after another do with the student what the run of all stages does. -/
theorem simulates_runStaged (calibrated trained evaluated exported : SchemeStudent W) :
  Simulates (fun dir => run.InRun False none (run.start calibrated dir))
    (run.runStaged calibrated trained evaluated exported) (run.outcome .all)
    (fun results results' dir p => results = results' ∧ results.isSome = true
      ∧ ∃ payload, run.Ended payload none dir p)
    run.Failed
  := by
  rw [← run.outcome_staged, runStaged]
  apply simulates_bind
  · apply simulates_pre (run.simulates_runScheme calibrated .calibrate)
    exact fun dir p h => h.mono (by simp)
  intro _ _
  apply simulates_bind
  · apply simulates_pre (run.simulates_runScheme trained .train)
    exact fun dir p h => inRun_start h.2 trained _
  intro _ _
  apply simulates_bind
  · apply simulates_pre (run.simulates_runScheme evaluated .eval)
    exact fun dir p h => inRun_start h.2 evaluated _
  intro payload results
  have hexport (hsome : results.isSome = true) (hresults : payload.results = results) :
      Simulates (run.Ended payload results)
        (run.runScheme exported .export >>= fun _ => pure payload.results)
        (run.outcome .export >>= fun _ => pure results)
        (fun results results' dir p => results = results' ∧ results.isSome = true
          ∧ ∃ payload, run.Ended payload none dir p)
        run.Failed := by
    apply simulates_bind
    · apply simulates_pre (run.simulates_runScheme exported .export)
      exact fun dir p h => inRun_start h exported _
    intro payload' results'
    apply simulates_pure
    rintro dir p ⟨hnone, h⟩
    obtain rfl : results' = none := by
      rw [← Option.not_isSome_iff_eq_none, hnone]
      decide
    exact ⟨hresults, by rw [hresults, hsome], payload', h⟩
  rintro dir p ⟨hsome, h⟩
  exact hexport (hsome.mpr (Or.inl rfl)) h.results dir p h

/-- The directories have the same student in the checkpoint, and the same export. -/
structure SameProduct (first second : SchemeDir W E X) : Prop where
  saved : first.checkpoint.map Prod.fst = second.checkpoint.map Prod.fst
  isSome_saved : first.checkpoint.isSome = true
  hardwareExport : first.hardwareExport = second.hardwareExport

/-- Both directories are those of a student and its export. -/
theorem sameProduct_of {first second : SchemeDir W E X}
    (hfirst : first.checkpoint.map Prod.fst = some p.student)
    (hsecond : second.checkpoint.map Prod.fst = some p.student)
    (hexport : first.hardwareExport = p.hardwareExport)
    (hexport' : second.hardwareExport = p.hardwareExport) :
  SameProduct first second
  := by
  constructor
  · rw [hfirst, hsecond]
  · rw [← Option.isSome_map, hfirst]
    rfl
  · rw [hexport, hexport']

/-- For every scheme, every student, every directory that an earlier run may have left, and every
outcome of the calibration, the training, the evaluation and the export: the stages, run one
after another, end as the run of all stages does, with the same results or the same exception.
They leave the same student in the checkpoint and the same export.  After an exception both have
noted it in `result.json`; without one, the results of the evaluation are in `result.json` after
the run of all stages only, since the last stage writes it anew. -/
theorem runStaged_eq_runScheme_all (calibrated trained evaluated exported : SchemeStudent W)
    (dir : SchemeDir W E X) :
  Ends
    (fun results payload staged whole => SameProduct staged whole
      ∧ payload.results = results ∧ results.isSome = true
      ∧ whole.result.bind RunPayload.results = results
      ∧ staged.result.map RunPayload.results = some none)
    (fun e staged whole => SameProduct staged whole
      ∧ (staged.result.bind fun payload => payload.info.failure) = some e
      ∧ (whole.result.bind fun payload => payload.info.failure) = some e)
    ((run.runStaged calibrated trained evaluated exported).run dir)
    ((run.runScheme calibrated .all).run dir)
  := by
  have hstart := run.inRun_start_of_ne .all (by decide) calibrated dir
  have hstaged := run.simulates_runStaged calibrated trained evaluated exported dir _
    (hstart.mono False.elim)
  have hwhole := run.simulates_runScheme calibrated .all dir _ hstart
  apply (hstaged.both hwhole).mono
  · rintro _ payload staged whole ⟨results, p, ⟨rfl, hsome, payload', h⟩, -, h'⟩
    refine ⟨sameProduct_of h.saved h'.saved h.hardwareExport h'.hardwareExport, h'.results, hsome,
      ?_, ?_⟩
    · rw [h'.written, Option.bind_some, h'.results]
    · rw [h.written, Option.map_some, h.results]
  · rintro e staged whole ⟨p, h, h'⟩
    obtain ⟨payload, hresult, hfailure⟩ := h.noted
    obtain ⟨payload', hresult', hfailure'⟩ := h'.noted
    refine ⟨sameProduct_of h.saved h'.saved h.hardwareExport h'.hardwareExport, ?_, ?_⟩
    · rw [hresult, Option.bind_some, hfailure]
    · rw [hresult', Option.bind_some, hfailure']

end SchemeRun

end Kv260
