import Mathlib.Data.List.MinMax
import SmolVlm2Kv260.Pipeline.Splits

/-!
# Training with validation

`_run_qat_training` of `runner.py` trains the student record by record, evaluates it after some
of the steps, and in the end loads the state with the best accuracy again.  The steps in between
are lost: what counts are the validated steps, of which the first one is always one.
-/

set_option autoImplicit false

namespace Kv260

open Fallible

/-! ### Evaluation -/

/-- A sample of a `MultimodalEvalResult`. -/
structure EvalSample where
  sampleId : String
  prediction : String
  answers : List String
  correct : Bool
  datasetName : Option String

/-- `MultimodalEvalResult`. -/
structure MultimodalEvalResult where
  accuracy : ℚ
  correct : ℕ
  total : ℕ
  samples : List EvalSample

/-- What computes with the parameters `P` of the student: a step of the training, in training
mode or not, on the state `O` of the optimizer, and the prediction for a record. -/
structure QatTools (P O F E : Type) where
  hasTrainable : Bool
  newOptimizer : O
  step : Bool → SampleRecord F → Fallible (P × O) E ℚ
  predict : P → SampleRecord F → Except E String
  normalizeText : String → String

/-- The student in the training. -/
structure QatState (P O : Type) where
  params : P
  optimizer : O
  training : Bool

namespace QatTools

variable {P O F E : Type} (tools : QatTools P O F E)

/-- `prediction_matches_any`. -/
def predictionMatchesAny (prediction : String) (answers : List String) : Bool :=
  let normPred := tools.normalizeText prediction
  answers.any fun answer => answer != ""
    && decide ((tools.normalizeText answer).toList <:+: normPred.toList)

/-- A round of `evaluate_multimodal_records`. -/
def evalSample (params : P) (record : SampleRecord F) : Except E EvalSample := do
  let prediction ← tools.predict params record
  return {
    sampleId := record.sampleId
    prediction := prediction
    answers := record.answers
    correct := tools.predictionMatchesAny prediction record.answers
    datasetName := record.datasetName }

/-- `evaluate_multimodal_records`, for a student in evaluation mode. -/
def evaluate (params : P) (records : List (SampleRecord F)) :
    Except E MultimodalEvalResult := do
  let samples ← records.mapM (tools.evalSample params)
  let correct := samples.countP EvalSample.correct
  return {
    accuracy := if records = [] then 0 else correct / records.length * 100
    correct := correct
    total := records.length
    samples := samples }

/-- `evaluate_multimodal_records`, which switches to evaluation mode. -/
def evaluateMultimodalRecords (records : List (SampleRecord F)) :
    Fallible (QatState P O) E MultimodalEvalResult := do
  update fun st => { st with training := false }
  let st ← state
  Fallible.ofExcept (tools.evaluate st.params records)

/-- The forward and backward pass and the step of the optimizer, with the loss. -/
def trainStep (record : SampleRecord F) : Fallible (QatState P O) E ℚ where
  run st :=
    let (loss, params, optimizer) := (tools.step st.training record).run (st.params, st.optimizer)
    (loss, { st with params := params, optimizer := optimizer })

end QatTools

/-! ### Training -/

/-- The fields of `RunnerConfig` that the training reads. -/
structure TrainConfig where
  quickMode : Bool
  maxQatSteps : ℤ

/-- `should_validate`. -/
def TrainConfig.shouldValidate (config : TrainConfig) (step : ℕ) : Bool :=
  if config.quickMode then step == 1 || (step : ℤ) == config.maxQatSteps
  else step % 10 == 0 || step == 1

/-- `val_slice`. -/
def TrainConfig.valSlice {F : Type} (config : TrainConfig) (valRecords : List (SampleRecord F)) :
    List (SampleRecord F) :=
  valRecords.take (if config.quickMode then 8 else 32)

/-- `effective_train_records[:max_qat_steps]`. -/
def TrainConfig.trainSlice {F : Type} (config : TrainConfig)
    (trainRecords valRecords : List (SampleRecord F)) : List (SampleRecord F) :=
  upTo (if trainRecords = [] then valRecords else trainRecords) config.maxQatSteps

/-- An entry of `history`. -/
structure HistoryEntry where
  step : ℕ
  loss : ℚ
  valAccuracy : ℚ

/-- `history`, `best_val` and `best_state`; the first best value is minus infinity. -/
structure TrainProgress (P : Type) where
  history : List HistoryEntry
  bestVal : Option ℚ
  bestState : Option P

/-- A validation is noted, and the state is kept if none was better. -/
def TrainProgress.note {P : Type} (progress : TrainProgress P) (entry : HistoryEntry)
    (params : P) : TrainProgress P :=
  let better :=
    match progress.bestVal with
    | none => true
    | some best => decide (best < entry.valAccuracy)
  { history := progress.history ++ [entry]
    bestVal := if better then some entry.valAccuracy else progress.bestVal
    bestState := if better then some params else progress.bestState }

/-- What `_run_qat_training` returns. -/
inductive TrainingReport where
  | skipped (reason : String)
  | finished (history : List HistoryEntry) (bestValAccuracy : Option ℚ)

namespace QatTools

variable {P O F E : Type} (tools : QatTools P O F E) (config : TrainConfig)

/-- The validation after a step. -/
def validate (valSlice : List (SampleRecord F)) (step : ℕ) (loss : ℚ)
    (progress : TrainProgress P) : Fallible (QatState P O) E (TrainProgress P) := do
  let valEval ← tools.evaluateMultimodalRecords valSlice
  let st ← state
  pure (progress.note ⟨step, loss, valEval.accuracy⟩ st.params)

/-- The loop over the training records, from the given step on. -/
def trainLoop (valSlice : List (SampleRecord F)) :
    ℕ → List (SampleRecord F) → TrainProgress P → Fallible (QatState P O) E (TrainProgress P)
  | _, [], progress => pure progress
  | step, record :: records, progress => do
      let loss ← tools.trainStep record
      let progress ←
        if config.shouldValidate step then tools.validate valSlice step loss progress
        else pure progress
      trainLoop valSlice (step + 1) records progress

/-- `_run_qat_training`. -/
def runQatTraining (trainRecords valRecords : List (SampleRecord F)) :
    Fallible (QatState P O) E TrainingReport :=
  if !tools.hasTrainable then pure (.skipped "no trainable parameters")
  else do
    update fun st => { st with optimizer := tools.newOptimizer, training := true }
    let progress ← tools.trainLoop config (config.valSlice valRecords) 1
      (config.trainSlice trainRecords valRecords) ⟨[], none, none⟩
    match progress.bestState with
    | some best => update fun st => { st with params := best }
    | none => pure ()
    update fun st => { st with training := false }
    pure (.finished progress.history progress.bestVal)

end QatTools

/-! ### Validated rounds -/

/-- The validated ones of the first `n` rounds, the first of which is round 0. -/
def TrainConfig.validated (config : TrainConfig) (n : ℕ) : List ℕ :=
  (List.range n).filter fun k => config.shouldValidate (k + 1)

theorem TrainConfig.validated_succ (config : TrainConfig) (n : ℕ) :
  config.validated (n + 1)
    = config.validated n ++ if config.shouldValidate (n + 1) then [n] else []
  := by
  rw [validated, List.range_succ, List.filter_append, List.filter_singleton, Bool.cond_eq_ite]
  rfl

/-- The first round is validated. -/
theorem TrainConfig.shouldValidate_one (config : TrainConfig) :
  config.shouldValidate 1 = true
  := by
  rw [shouldValidate]
  split <;> rfl

/-! ### The trained students -/

/-- A training, from the parameters of the student at its start. -/
structure QatRun (P O F E : Type) where
  tools : QatTools P O F E
  config : TrainConfig
  trainRecords : List (SampleRecord F)
  valRecords : List (SampleRecord F)
  start : P

namespace QatRun

variable {P O F E : Type} (t : QatRun P O F E)

/-- The records that are trained on, one in each round. -/
def records : List (SampleRecord F) := t.config.trainSlice t.trainRecords t.valRecords

/-- The outcome of round `k`, from a student and an optimizer.  Only the first round is in
training mode, since the validation after it switches the mode. -/
def roundFrom (k : ℕ) (s : P × O) : Except E ℚ × P × O :=
  match t.records[k]? with
  | some record => (t.tools.step (k == 0) record).run s
  | none => (.ok 0, s)

/-- The student and the optimizer before round `k`. -/
def trained : ℕ → P × O
  | 0 => (t.start, t.tools.newOptimizer)
  | k + 1 => (t.roundFrom k (trained k)).2

/-- The loss of round `k`. -/
def loss (k : ℕ) : Except E ℚ := (t.roundFrom k (t.trained k)).1

/-- The validation after round `k`. -/
def eval (k : ℕ) : Except E MultimodalEvalResult :=
  t.tools.evaluate (t.trained (k + 1)).1 (t.config.valSlice t.valRecords)

/-- Its accuracy. -/
def accuracy (k : ℕ) : ℚ := ((t.eval k).toOption.map MultimodalEvalResult.accuracy).getD 0

/-- The entry of `history` for round `k`. -/
def entry (k : ℕ) : HistoryEntry := ⟨k + 1, (t.loss k).toOption.getD 0, t.accuracy k⟩

/-- The validated round with the best accuracy, of the first `n`; of several, the first. -/
def bestRound (n : ℕ) : Option ℕ := (t.config.validated n).argmax t.accuracy

/-- What is noted before round `n`. -/
def progressAt (n : ℕ) : TrainProgress P where
  history := (t.config.validated n).map t.entry
  bestVal := (t.bestRound n).map t.accuracy
  bestState := (t.bestRound n).map fun k => (t.trained (k + 1)).1

/-- The first `n` rounds and their validations do not throw. -/
def Clean (n : ℕ) : Prop :=
  (∀ k < n, ∃ loss, t.loss k = .ok loss)
    ∧ ∀ k ∈ t.config.validated n, ∃ result, t.eval k = .ok result

/-- Round `k` is the first one that throws, in the step or in the validation. -/
def ThrowsIn (k : ℕ) (e : E) : Prop :=
  t.Clean k
    ∧ (t.loss k = .error e
      ∨ (∃ loss, t.loss k = .ok loss) ∧ t.config.shouldValidate (k + 1) = true
        ∧ t.eval k = .error e)

/-- A validated round is noted. -/
theorem note_progressAt {n : ℕ} (h : t.config.shouldValidate (n + 1) = true) :
  (t.progressAt n).note (t.entry n) (t.trained (n + 1)).1 = t.progressAt (n + 1)
  := by
  have hbest : t.bestRound (n + 1)
      = match t.bestRound n with
        | none => some n
        | some k => if t.accuracy k < t.accuracy n then some n else some k := by
    rw [bestRound, t.config.validated_succ, if_pos h, List.argmax_concat, ← bestRound]
    cases t.bestRound n with
    | none => rfl
    | some k => rfl
  have hhistory : (t.config.validated (n + 1)).map t.entry
      = (t.config.validated n).map t.entry ++ [t.entry n] := by
    rw [t.config.validated_succ, if_pos h, List.map_append, List.map_singleton]
  rw [TrainProgress.note, progressAt, progressAt, hhistory, hbest]
  cases t.bestRound n with
  | none => rfl
  | some k =>
      have hentry : (t.entry n).valAccuracy = t.accuracy n := rfl
      simp only [Option.map_some, hentry]
      by_cases hless : t.accuracy k < t.accuracy n
      · rw [decide_eq_true hless, if_pos rfl, if_pos rfl, if_pos hless]
        rfl
      · rw [decide_eq_false hless, if_neg Bool.false_ne_true, if_neg Bool.false_ne_true,
          if_neg hless]
        rfl

theorem progressAt_succ_of_not {n : ℕ} (h : t.config.shouldValidate (n + 1) = false) :
  t.progressAt (n + 1) = t.progressAt n
  := by
  have hvalidated : t.config.validated (n + 1) = t.config.validated n := by
    rw [t.config.validated_succ, h, if_neg Bool.false_ne_true, List.append_nil]
  rw [progressAt, progressAt, bestRound, bestRound, hvalidated]

/-! ### Rounds -/

/-- Before round `n`, the student is the trained one, and the progress that of the rounds so
far. -/
structure Before (n : ℕ) (progress : TrainProgress P) (st : QatState P O) : Prop where
  trained : (st.params, st.optimizer) = t.trained n
  mode : st.training = (n == 0)
  progress : progress = t.progressAt n
  clean : t.Clean n

/-- A round threw, and the student is as this round left it. -/
def Thrown (e : E) (st : QatState P O) : Prop :=
  ∃ k < t.records.length, t.ThrowsIn k e ∧ st.params = (t.trained (k + 1)).1

/-- After the step of round `n`, and before its validation. -/
structure Stepped (n : ℕ) (progress : TrainProgress P) (loss : ℚ) (st : QatState P O) : Prop where
  trained : (st.params, st.optimizer) = t.trained (n + 1)
  mode : st.training = (n == 0)
  progress : progress = t.progressAt n
  clean : t.Clean n
  loss : t.loss n = .ok loss

theorem triple_trainStep {record : SampleRecord F} {n : ℕ} {progress : TrainProgress P}
    (hrecord : t.records[n]? = some record) :
  Triple (t.Before n progress) (t.tools.trainStep record) (t.Stepped n progress) t.Thrown
  := by
  have hlt : n < t.records.length := (List.getElem?_eq_some_iff.mp hrecord).1
  intro st hst
  have hround : t.roundFrom n (t.trained n) = (t.tools.step (n == 0) record).run (t.trained n) := by
    rw [roundFrom, hrecord]
  have hrun : (t.tools.trainStep record).run st
      = (t.loss n, ⟨(t.trained (n + 1)).1, (t.trained (n + 1)).2, n == 0⟩) := by
    rw [loss, QatRun.trained, hround, QatTools.trainStep]
    dsimp only
    rw [hst.trained, hst.mode]
  rw [hrun]
  constructor
  · rintro loss _ h
    obtain ⟨hloss, rfl⟩ := Prod.mk.inj h
    exact ⟨rfl, rfl, hst.progress, hst.clean, hloss⟩
  · rintro e _ h
    obtain ⟨hloss, rfl⟩ := Prod.mk.inj h
    exact ⟨n, hlt, ⟨hst.clean, .inl hloss⟩, rfl⟩

/-- A round that was stepped and validated is clean. -/
theorem clean_succ {n : ℕ} {loss : ℚ} (hclean : t.Clean n) (hloss : t.loss n = .ok loss)
    (heval : t.config.shouldValidate (n + 1) = true → ∃ result, t.eval n = .ok result) :
  t.Clean (n + 1)
  := by
  constructor
  · intro k hk
    rcases Nat.lt_succ_iff_lt_or_eq.mp hk with hk | rfl
    · exact hclean.1 k hk
    · exact ⟨loss, hloss⟩
  · intro k hk
    rw [t.config.validated_succ, List.mem_append] at hk
    rcases hk with hk | hk
    · exact hclean.2 k hk
    · split at hk
      · rename_i hvalidate
        rw [List.mem_singleton.mp hk]
        exact heval hvalidate
      · cases hk

/-- The validation of round `n`. -/
theorem triple_validate {n : ℕ} {progress : TrainProgress P} {loss : ℚ}
    (hn : n < t.records.length) (hvalidate : t.config.shouldValidate (n + 1) = true) :
  Triple (t.Stepped n progress loss)
    (t.tools.validate (t.config.valSlice t.valRecords) (n + 1) loss progress)
    (t.Before (n + 1)) t.Thrown
  := by
  intro st hst
  have hparams : st.params = (t.trained (n + 1)).1 := congrArg Prod.fst hst.trained
  have heval : t.tools.evaluate st.params (t.config.valSlice t.valRecords) = t.eval n := by
    rw [eval, hparams]
  have hrun : (t.tools.evaluateMultimodalRecords (t.config.valSlice t.valRecords)).run st
      = (t.eval n, { st with training := false }) := by
    rw [← heval]
    rfl
  rw [QatTools.validate]
  rcases hresult : t.eval n with e | result
  · rw [hresult] at hrun
    rw [run_bind_of_error hrun]
    constructor
    · rintro _ _ ⟨⟩
    · rintro _ _ ⟨⟩
      exact ⟨n, hn, ⟨hst.clean, .inr ⟨⟨loss, hst.loss⟩, hvalidate, hresult⟩⟩, hparams⟩
  · rw [hresult] at hrun
    rw [run_bind_of_ok hrun]
    have hentry : t.entry n = ⟨n + 1, loss, result.accuracy⟩ := by
      rw [entry, accuracy, hst.loss, hresult]
      rfl
    constructor
    · rintro _ _ ⟨⟩
      refine ⟨hst.trained, rfl, ?_, t.clean_succ hst.clean hst.loss fun _ => ⟨result, hresult⟩⟩
      rw [← t.note_progressAt hvalidate, hst.progress, hentry]
      dsimp only
      rw [hparams]
    · rintro _ _ ⟨⟩

/-- A round without validation is not the first one. -/
theorem triple_skip {n : ℕ} {progress : TrainProgress P} {loss : ℚ}
    (hvalidate : t.config.shouldValidate (n + 1) = false) :
  Triple (t.Stepped n progress loss) (pure progress) (t.Before (n + 1)) t.Thrown
  := by
  have hn : n ≠ 0 := by
    rintro rfl
    rw [Nat.zero_add, t.config.shouldValidate_one] at hvalidate
    cases hvalidate
  apply triple_pure
  intro st hst
  refine ⟨hst.trained, ?_, ?_, ?_⟩
  · rw [hst.mode, beq_eq_false_iff_ne.mpr hn]
    rfl
  · rw [hst.progress, t.progressAt_succ_of_not hvalidate]
  · apply t.clean_succ hst.clean hst.loss
    rw [hvalidate]
    exact fun h => absurd h Bool.false_ne_true

/-- The rounds from `n` on. -/
theorem triple_trainLoop {records : List (SampleRecord F)} {n : ℕ} (progress : TrainProgress P)
    (hrecords : t.records.drop n = records) (hn : n ≤ t.records.length) :
  Triple (t.Before n progress)
    (t.tools.trainLoop t.config (t.config.valSlice t.valRecords) (n + 1) records progress)
    (t.Before t.records.length) t.Thrown
  := by
  induction records generalizing n progress with
  | nil =>
      have hend : n = t.records.length :=
        Nat.le_antisymm hn (List.drop_eq_nil_iff.mp hrecords)
      apply triple_pure
      rw [← hend]
      exact fun st hst => hst
  | cons record records ih =>
      have hrecord : t.records[n]? = some record := by
        rw [← List.head?_drop, hrecords]
        rfl
      have hlt : n < t.records.length := (List.getElem?_eq_some_iff.mp hrecord).1
      have hrest : t.records.drop (n + 1) = records := by
        rw [← List.tail_drop, hrecords]
        rfl
      rw [QatTools.trainLoop]
      apply triple_bind (t.triple_trainStep hrecord)
      intro loss
      dsimp only
      split
      · rename_i hvalidate
        exact triple_bind (t.triple_validate hlt hvalidate) fun progress => ih progress hrest hlt
      · rename_i hvalidate
        exact triple_bind (t.triple_skip (Bool.eq_false_iff.mpr hvalidate)) fun progress =>
          ih progress hrest hlt

/-! ### The whole training -/

/-- The student and the report after the last round. -/
structure Finished (report : TrainingReport) (st : QatState P O) : Prop where
  clean : t.Clean t.records.length
  report : report = .finished ((t.config.validated t.records.length).map t.entry)
    ((t.bestRound t.records.length).map t.accuracy)
  params : st.params = (t.trained (((t.bestRound t.records.length).map Nat.succ).getD 0)).1
  mode : st.training = false

/-- Without records there is no best round, and with one there is. -/
theorem bestRound_eq_none_iff (n : ℕ) :
  t.bestRound n = none ↔ n = 0
  := by
  rw [bestRound, List.argmax_eq_none]
  constructor
  · intro h
    by_contra hn
    have hmem : 0 ∈ t.config.validated n := by
      rw [TrainConfig.validated, List.mem_filter, List.mem_range]
      exact ⟨Nat.pos_of_ne_zero hn, t.config.shouldValidate_one⟩
    rw [h] at hmem
    cases hmem
  · rintro rfl
    rfl

/-- The best state is loaded. -/
theorem triple_loadBest (progress : TrainProgress P) :
  Triple (t.Before t.records.length progress)
    (do
      match progress.bestState with
      | some best => update fun st : QatState P O => { st with params := best }
      | none => pure ()
      update fun st => { st with training := false }
      pure (.finished progress.history progress.bestVal))
    t.Finished t.Thrown
  := by
  intro st hst
  obtain rfl := hst.progress
  rcases hbest : t.bestRound t.records.length with _ | k
  · have hnone : (t.progressAt t.records.length).bestState = none := by
      rw [progressAt, hbest]
      rfl
    have hzero : t.records.length = 0 := (t.bestRound_eq_none_iff _).mp hbest
    rw [hnone]
    constructor
    · rintro _ _ ⟨⟩
      refine ⟨hst.clean, rfl, ?_, rfl⟩
      rw [hbest]
      exact (congrArg Prod.fst hst.trained).trans (by rw [hzero]; rfl)
    · rintro _ _ ⟨⟩
  · have hsome : (t.progressAt t.records.length).bestState = some (t.trained (k + 1)).1 := by
      rw [progressAt, hbest]
      rfl
    rw [hsome]
    constructor
    · rintro _ _ ⟨⟩
      refine ⟨hst.clean, rfl, ?_, rfl⟩
      rw [hbest]
      rfl
    · rintro _ _ ⟨⟩

/-- For every training, every number of records and every outcome of the steps and validations:
a student without trainable parameters stays as it is.  Otherwise, if no round throws, the
student is that after the first of the validated rounds with the best accuracy, the report has
all validated rounds with their losses and accuracies, and the student is in evaluation mode.
If a round throws, the exception is passed on, and the student is as this round has left it. -/
theorem runQatTraining_outcome (optimizer : O) (training : Bool) :
  match (t.tools.runQatTraining t.config t.trainRecords t.valRecords).run
      ⟨t.start, optimizer, training⟩ with
  | (.ok report, st) =>
      if t.tools.hasTrainable then t.Finished report st
      else report = .skipped "no trainable parameters" ∧ st = ⟨t.start, optimizer, training⟩
  | (.error e, st) => t.tools.hasTrainable = true ∧ t.Thrown e st
  := by
  rcases htrainable : t.tools.hasTrainable with _ | _
  · rw [QatTools.runQatTraining, htrainable]
    exact ⟨rfl, rfl⟩
  · have htriple : Triple (fun st => st = ⟨t.start, optimizer, training⟩)
        (t.tools.runQatTraining t.config t.trainRecords t.valRecords) t.Finished t.Thrown := by
      rw [QatTools.runQatTraining, htrainable]
      dsimp only [Bool.not_true, Bool.false_eq_true, if_false]
      have hbegin : Triple (fun st => st = ⟨t.start, optimizer, training⟩)
          (update fun st : QatState P O =>
            { st with optimizer := t.tools.newOptimizer, training := true })
          (fun _ => t.Before 0 ⟨[], none, none⟩) t.Thrown := by
        apply triple_update
        rintro _ rfl
        exact ⟨rfl, rfl, rfl, nofun, nofun⟩
      apply triple_bind hbegin
      intro _
      apply triple_bind (t.triple_trainLoop _ rfl (Nat.zero_le _))
      intro progress
      exact t.triple_loadBest progress
    obtain ⟨hok, herror⟩ := htriple _ rfl
    rcases hrun : (t.tools.runQatTraining t.config t.trainRecords t.valRecords).run
        ⟨t.start, optimizer, training⟩ with ⟨e | report, st⟩
    · exact ⟨rfl, herror e st hrun⟩
    · exact hok report st hrun

end QatRun

end Kv260
