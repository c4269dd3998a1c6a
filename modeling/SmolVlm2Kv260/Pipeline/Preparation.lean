import Mathlib.Data.List.Flatten
import SmolVlm2Kv260.Pipeline.Training

/-!
# The preparation of the data

`build_dataset_manifest` of `data.py` shuffles the records that it finds and divides them into
splits, and `prepare_manifest` of `runner.py` writes the manifest to a file, which later runs read
again.  So the splits are drawn once: later runs have the same ones, whatever records and random
numbers there are by then.  Without records of its own the training takes those that it validates
on, and in the quick mode these may be records of `heldout_eval`; otherwise no run evaluates on a
record that it trains on.
-/

set_option autoImplicit false

namespace Kv260

open Py Fallible

variable {F : Type}

/-! ### Records as dictionaries

The dataclasses do not check the types of their fields.  Here a field of another type is refused,
which concerns files that were not written by `write_json`. -/

/-- A string. -/
def asStr : Json F → Except PyError String
  | .str s => .ok s
  | _ => .error .typeError

/-- A string, or `None`. -/
def asOptionalStr : Json F → Except PyError (Option String)
  | .none => .ok none
  | v => some <$> asStr v

/-- An integer. -/
def asInteger : Json F → Except PyError ℤ
  | .int n => .ok n
  | _ => .error .typeError

/-- The items of a list. -/
def asList : Json F → Except PyError (List (Json F))
  | .list items => .ok items
  | _ => .error .typeError

/-- The items of a dictionary. -/
def asDict : Json F → Except PyError (List (String × Json F))
  | .dict items => .ok items
  | _ => .error .attributeError

/-- A list of values that are all read back. -/
theorem mapM_map_ok {α β E : Type} {f : β → α} {g : α → Except E β} (h : ∀ b, g (f b) = .ok b)
    (l : List β) :
  (l.map f).mapM g = .ok l
  := by
  induction l with
  | nil => rfl
  | cons b l ih =>
      rw [List.map_cons, List.mapM_cons, h, ih]
      rfl

namespace SampleRecord

/-- The names of the fields. -/
def fieldNames : List String :=
  ["sample_id", "source", "split", "prompt", "answers", "modality", "image_path", "text",
    "dataset_name", "meta"]

/-- A string or `None`. -/
def optionalStr : Option String → Json F
  | some s => .str s
  | none => .none

/-- `to_dict`. -/
def toDict (record : SampleRecord F) : List (String × Json F) :=
  [("sample_id", .str record.sampleId), ("source", .str record.source),
    ("split", .str record.split), ("prompt", .str record.prompt),
    ("answers", .list (record.answers.map .str)), ("modality", .str record.modality),
    ("image_path", optionalStr record.imagePath), ("text", optionalStr record.text),
    ("dataset_name", optionalStr record.datasetName), ("meta", .dict record.metadata)]

/-- The argument of a parameter without a default. -/
def argument (items : List (String × Json F)) (name : String) : Except PyError (Json F) :=
  match Json.lookup name items with
  | some v => .ok v
  | none => .error .typeError

/-- `SampleRecord(**record)`. -/
def ofDict (items : List (String × Json F)) : Except PyError (SampleRecord F) :=
  if items.any fun item => !fieldNames.contains item.1 then .error .typeError
  else do
    let sampleId ← argument items "sample_id" >>= asStr
    let source ← argument items "source" >>= asStr
    let split ← argument items "split" >>= asStr
    let prompt ← argument items "prompt" >>= asStr
    let answers ← argument items "answers" >>= asList
    let answers ← answers.mapM asStr
    let modality ← argument items "modality" >>= asStr
    let imagePath ← asOptionalStr ((Json.lookup "image_path" items).getD .none)
    let text ← asOptionalStr ((Json.lookup "text" items).getD .none)
    let datasetName ← asOptionalStr ((Json.lookup "dataset_name" items).getD .none)
    let metadata ← asDict ((Json.lookup "meta" items).getD (.dict []))
    return {
      sampleId, source, split, prompt, answers, modality, imagePath, text, datasetName, metadata }

theorem asOptionalStr_optionalStr (s : Option String) :
  asOptionalStr (optionalStr s : Json F) = .ok s
  := by
  cases s <;> rfl

/-- A record is read back from its dictionary. -/
theorem ofDict_toDict (record : SampleRecord F) :
  ofDict record.toDict = .ok record
  := by
  have hnames : (record.toDict.any fun item => !fieldNames.contains item.1) = false := by
    simp [toDict, fieldNames]
  have hanswers : (record.answers.map Json.str : List (Json F)).mapM asStr = .ok record.answers :=
    mapM_map_ok (f := Json.str) (g := asStr) (fun _ => rfl) record.answers
  have himage : asOptionalStr ((Json.lookup "image_path" record.toDict).getD .none)
      = .ok record.imagePath := asOptionalStr_optionalStr record.imagePath
  have htext : asOptionalStr ((Json.lookup "text" record.toDict).getD .none)
      = .ok record.text := asOptionalStr_optionalStr record.text
  have hdataset : asOptionalStr ((Json.lookup "dataset_name" record.toDict).getD .none)
      = .ok record.datasetName := asOptionalStr_optionalStr record.datasetName
  rw [ofDict, hnames]
  simp only [Bool.false_eq_true, if_false, himage, htext, hdataset]
  change (List.mapM asStr (record.answers.map Json.str) >>= _) = _
  rw [hanswers]
  rfl

end SampleRecord

/-! ### Manifests as dictionaries -/

namespace DatasetManifest

/-- `to_dict`. -/
def toDict (manifest : DatasetManifest F) : List (String × Json F) :=
  [("version", .int manifest.version), ("seed", .int manifest.seed),
    ("model_path", .str manifest.modelPath),
    ("splits", .dict (manifest.splits.map fun item =>
      (item.1, .list (item.2.map fun record => .dict record.toDict)))),
    ("diagnostics", .dict manifest.diagnostics)]

end DatasetManifest

/-- A split of `load_dataset_manifest`. -/
def loadSplit (item : String × Json F) : Except PyError (String × List (SampleRecord F)) := do
  let records ← asList item.2
  let records ← records.mapM fun record => do
    let items ← asDict record
    SampleRecord.ofDict items
  return (item.1, records)

/-- `load_dataset_manifest`, for the parsed text of the file. -/
def loadDatasetManifest (payload : Json F) : Except PyError (DatasetManifest F) := do
  let items ← payload.getItem "splits" >>= asDict
  let splits ← items.mapM loadSplit
  let version ← payload.getItem "version" >>= asInteger
  let seed ← payload.getItem "seed" >>= asInteger
  let modelPath ← payload.getItem "model_path" >>= asStr
  let diagnostics ← payload.get "diagnostics" (.dict []) >>= asDict
  return { version, seed, modelPath, splits, diagnostics }

theorem loadSplit_toDict (item : String × List (SampleRecord F)) :
  loadSplit (item.1, .list (item.2.map fun record => .dict record.toDict)) = .ok item
  := by
  have hrecords := mapM_map_ok (f := fun record : SampleRecord F => Json.dict record.toDict)
    (g := fun record => asDict record >>= SampleRecord.ofDict)
    (fun record => record.ofDict_toDict) item.2
  change ((item.2.map fun record => Json.dict record.toDict).mapM
    (fun record => asDict record >>= SampleRecord.ofDict) >>= fun records =>
      pure (item.1, records)) = _
  rw [hrecords]
  rfl

/-- A manifest is read back from the file that it is written to. -/
theorem loadDatasetManifest_toDict (manifest : DatasetManifest F) :
  loadDatasetManifest (.dict manifest.toDict) = .ok manifest
  := by
  have hsplits := mapM_map_ok (g := loadSplit) loadSplit_toDict manifest.splits
  change (List.mapM loadSplit (manifest.splits.map fun item =>
    (item.1, Json.list (item.2.map fun record => .dict record.toDict))) >>= _) = _
  rw [hsplits]
  rfl

/-! ### The manifest -/

/-- What a run finds: the frozen records, those of the extra manifest, what the download gives, the
text, and how `random` shuffles the two pools. -/
structure DataSources (F : Type) where
  frozen : List (SampleRecord F)
  extra : Option (List (SampleRecord F))
  download : Except String (List (SampleRecord F))
  text : List (SampleRecord F)
  shufflePool : List (SampleRecord F) → List (SampleRecord F)
  shufflePool_perm : ∀ records, (shufflePool records).Perm records
  shuffleText : List (SampleRecord F) → List (SampleRecord F)
  shuffleText_perm : ∀ records, (shuffleText records).Perm records

/-- The sizes that `build_dataset_manifest` is asked for. -/
structure SampleCounts where
  ptqMm : ℕ
  ptqText : ℕ
  qatTrain : ℕ
  qatVal : ℕ

/-- The default sizes. -/
def SampleCounts.default : SampleCounts where
  ptqMm := 512
  ptqText := 256
  qatTrain := 5000
  qatVal := 500

/-- What `prepare_manifest` reads of the configuration, and the parsed `data_manifest`, if this
file exists. -/
structure PrepareConfig (F : Type) where
  dataManifest : Option (Json F)
  modelPath : String
  seed : ℤ
  allowHfDownload : Bool
  quickMode : Bool
  limits : QuickLimits

namespace DataSources

variable (sources : DataSources F) (str : Json F → String)

/-- What is downloaded, with the diagnostics. -/
def downloaded (allowHfDownload : Bool) : List (SampleRecord F) × List (String × Json F) :=
  if allowHfDownload then
    match sources.download with
    | .ok records => (records, [("hf_download", .str "textvqa_validation")])
    | .error message => ([], [("hf_download_error", .str message)])
  else ([], [])

/-- The records that a manifest may have. -/
def all (allowHfDownload : Bool) : List (SampleRecord F) :=
  sources.frozen ++ (sources.extra.getD [] ++ (sources.downloaded allowHfDownload).1)
    ++ sources.text

/-- `multimodal_pool`. -/
def pool (allowHfDownload : Bool) : List (SampleRecord F) :=
  sources.shufflePool (sources.extra.getD [] ++ (sources.downloaded allowHfDownload).1)

/-- `splits`. -/
def splits (counts : SampleCounts) (allowHfDownload : Bool) :
    List (String × List (SampleRecord F)) :=
  let pool := sources.pool allowHfDownload
  let ptqText := (sources.shuffleText sources.text).take counts.ptqText
  if pool ≠ [] then
    let remainder := pool.drop 200
    let ptqMm := remainder.take counts.ptqMm
    let remainder := remainder.drop counts.ptqMm
    let qatVal := remainder.take counts.qatVal
    let remainder := remainder.drop counts.qatVal
    [("frozen_eval", sources.frozen), ("heldout_eval", pool.take 200),
      ("ptq_multimodal_calib", ptqMm), ("ptq_text_calib", ptqText),
      ("qat_train", remainder.take counts.qatTrain), ("qat_val", qatVal)]
  else
    let fallback := stratifiedLocalMultimodalFallback str sources.frozen
    [("frozen_eval", fallback .frozenEval), ("heldout_eval", fallback .heldoutEval),
      ("ptq_multimodal_calib", fallback .ptqMultimodalCalib), ("ptq_text_calib", ptqText),
      ("qat_train", fallback .qatTrain), ("qat_val", fallback .qatVal)]

/-- `diagnostics`. -/
def diagnostics (counts : SampleCounts) (allowHfDownload : Bool) : List (String × Json F) :=
  let requested : List (String × ℤ) :=
    [("ptq_multimodal_calib", counts.ptqMm), ("ptq_text_calib", counts.ptqText),
      ("qat_train", counts.qatTrain), ("qat_val", counts.qatVal)]
  let actual := (sources.splits str counts allowHfDownload).map fun item =>
    (item.1, (item.2.length : ℤ))
  let shortfall := requested.map fun item =>
    (item.1, item.2 - ((actual.find? fun e => e.1 == item.1).map Prod.snd).getD 0)
  [("requested_counts", .dict (requested.map fun item => (item.1, .int item.2)))]
    ++ (sources.downloaded allowHfDownload).2
    ++ (if sources.pool allowHfDownload ≠ [] then
        [("multimodal_source", .str "external_or_downloaded")]
      else
        [("multimodal_source", .str "local_fallback_split_from_100"),
          ("fallback_note", .str ("External multimodal pool unavailable; created disjoint "
            ++ "software-only splits from the local 100 image-text samples."))])
    ++ [("actual_counts", .dict (actual.map fun item => (item.1, .int item.2))),
      ("data_shortfall", .dict (shortfall.map fun item => (item.1, .int item.2)))]

/-- `build_dataset_manifest`, before the file is written. -/
def buildDatasetManifest (config : PrepareConfig F) (counts : SampleCounts) :
    DatasetManifest F where
  version := 1
  seed := config.seed
  modelPath := config.modelPath
  splits := sources.splits str counts config.allowHfDownload
  diagnostics := sources.diagnostics str counts config.allowHfDownload

end DataSources

/-- `_maybe_quick_manifest`. -/
def PrepareConfig.maybeQuickManifest (config : PrepareConfig F) (manifest : DatasetManifest F) :
    Except PyError (DatasetManifest F) :=
  if config.quickMode then shrinkManifestForQuickMode manifest config.limits else .ok manifest

/-- `prepare_manifest`.  The state is the parsed text of `dataset_manifest.json`, if the file
exists. -/
def PrepareConfig.prepareManifest (config : PrepareConfig F) (sources : DataSources F)
    (str : Json F → String) : Fallible (Option (Json F)) PyError (DatasetManifest F) := do
  match config.dataManifest with
  | some payload =>
      let manifest ← Fallible.ofExcept (loadDatasetManifest payload)
      Fallible.ofExcept (config.maybeQuickManifest manifest)
  | none =>
      match ← state with
      | some payload =>
          let manifest ← Fallible.ofExcept (loadDatasetManifest payload)
          Fallible.ofExcept (config.maybeQuickManifest manifest)
      | none =>
          let manifest := sources.buildDatasetManifest str config .default
          update fun _ => some (.dict manifest.toDict)
          Fallible.ofExcept (config.maybeQuickManifest manifest)

/-! ### Splits without common records -/

/-- Lists without a common key are pairwise apart. -/
theorem pairwise_apart {κ : Type} {key : SampleRecord F → κ} {ls : List (List (SampleRecord F))}
    (h : (ls.flatten.map key).Nodup) :
  ls.Pairwise (Apart key)
  := by
  rw [List.map_flatten, List.nodup_flatten, List.pairwise_map] at h
  apply h.2.imp
  intro xs ys hdisjoint r hr s hs hkey
  exact hdisjoint (List.mem_map_of_mem hr) (hkey ▸ List.mem_map_of_mem hs)

/-- A slice, and what is left of the rest. -/
theorem sublist_take_append {α : Type} {l m : List α} {n : ℕ} (h : m.Sublist (l.drop n)) :
  (l.take n ++ m).Sublist l
  := by
  conv_rhs => rw [← List.take_append_drop n l]
  exact (List.Sublist.refl _).append h

namespace DataSources

variable (sources : DataSources F) (str : Json F → String)

/-- No record is in two splits, or twice in one, that is not twice among the sources. -/
theorem subperm_splits (counts : SampleCounts) (allowHfDownload : Bool) :
  ((sources.splits str counts allowHfDownload).map Prod.snd).flatten.Subperm
    (sources.all allowHfDownload)
  := by
  classical
  have htext : ((sources.shuffleText sources.text).take counts.ptqText).Subperm sources.text :=
    (List.take_sublist _ _).subperm.trans (sources.shuffleText_perm _).subperm
  rw [splits, List.subperm_ext_iff]
  intro record _
  have htext := htext.count_le record
  dsimp only
  split
  · have hpool : (sources.pool allowHfDownload).Perm
        (sources.extra.getD [] ++ (sources.downloaded allowHfDownload).1) :=
      sources.shufflePool_perm _
    have hslices := (sublist_take_append (l := sources.pool allowHfDownload) (n := 200)
      (sublist_take_append (n := counts.ptqMm) (sublist_take_append (n := counts.qatVal)
        (List.take_sublist counts.qatTrain _)))).count_le record
    rw [hpool.count_eq record] at hslices
    simp only [List.map_cons, List.map_nil, List.flatten_cons, List.flatten_nil, List.count_append,
      List.count_nil, all] at *
    omega
  · have hfallback := (concatSplits_fallback_perm str sources.frozen).count_eq record
    simp only [List.map_cons, List.map_nil, List.flatten_cons, List.flatten_nil, concatSplits,
      FallbackSplit.all, List.flatMap_cons, List.flatMap_nil, List.count_append, List.count_nil,
      all] at *
    omega

/-- The splits of a manifest that is built have no common key. -/
theorem splitsApart_buildDatasetManifest {κ : Type} {key : SampleRecord F → κ}
    (config : PrepareConfig F) (counts : SampleCounts)
    (h : ((sources.all config.allowHfDownload).map key).Nodup) :
  SplitsApart key (sources.buildDatasetManifest str config counts)
  := by
  apply splitsApart_of_pairwise
  apply List.pairwise_map.mp
  apply pairwise_apart
  obtain ⟨records, hperm, hsub⟩ := sources.subperm_splits str counts config.allowHfDownload
  exact (hperm.map key).nodup_iff.mp ((hsub.map key).nodup h)

/-- Every split of a manifest that is built exists. -/
theorem exists_getSplit (config : PrepareConfig F) (counts : SampleCounts) (name : String)
    (hname : name ∈ ["frozen_eval", "heldout_eval", "ptq_multimodal_calib", "ptq_text_calib",
      "qat_train", "qat_val"]) :
  ∃ records, (sources.buildDatasetManifest str config counts).getSplit name = .ok records
  := by
  simp only [DatasetManifest.getSplit_eq_ok_iff]
  have hnames : ((sources.splits str counts config.allowHfDownload).map Prod.fst)
      = ["frozen_eval", "heldout_eval", "ptq_multimodal_calib", "ptq_text_calib", "qat_train",
        "qat_val"] := by
    rw [splits]
    dsimp only
    split <;> rfl
  rw [← hnames] at hname
  obtain ⟨item, hitem, rfl⟩ := List.mem_map.mp hname
  obtain ⟨found, hfound⟩ := Option.isSome_iff_exists.mp
    (List.find?_isSome (p := fun e => e.1 == item.1).mpr ⟨item, hitem, beq_self_eq_true item.1⟩)
  exact ⟨found.2, congrArg (Option.map Prod.snd) hfound⟩

/-- The quick mode finds the splits that it copies. -/
theorem exists_quickSplits (config : PrepareConfig F) (counts : SampleCounts)
    (limits : QuickLimits) :
  ∃ quick, quickSplits (sources.buildDatasetManifest str config counts) limits = .ok quick
  := by
  have hget := sources.exists_getSplit str config counts
  obtain ⟨frozen, hfrozen⟩ := hget "frozen_eval" (by decide)
  obtain ⟨heldout, hheldout⟩ := hget "heldout_eval" (by decide)
  obtain ⟨ptqMm, hptqMm⟩ := hget "ptq_multimodal_calib" (by decide)
  obtain ⟨ptqText, hptqText⟩ := hget "ptq_text_calib" (by decide)
  obtain ⟨val, hval⟩ := hget "qat_val" (by decide)
  rw [quickSplits, hfrozen, hheldout, hptqMm, hptqText, hval]
  exact ⟨_, rfl⟩

end DataSources

/-! ### One preparation for all runs -/

/-- In the quick mode, neither calibration nor validation records are within the limits, so that
the training falls back on `qat_val` and this on the records of `heldout_eval`. -/
def PrepareConfig.TrainsOnHeldout (config : PrepareConfig F) (manifest : DatasetManifest F) :
    Prop :=
  config.quickMode = true ∧ ∃ heldoutEval ptqMm qatVal,
    manifest.split? "heldout_eval" = some heldoutEval
    ∧ manifest.split? "ptq_multimodal_calib" = some ptqMm
    ∧ manifest.split? "qat_val" = some qatVal
    ∧ upTo ptqMm config.limits.ptqMmLimit = [] ∧ upTo qatVal config.limits.qatValLimit = []
    ∧ upTo heldoutEval config.limits.qatValLimit ≠ []
    ∧ upTo heldoutEval config.limits.heldoutEvalLimit ≠ []

/-- No record is evaluated in both splits, and no training takes one of `frozen_eval`; none takes
one of `heldout_eval` except in one case. -/
structure EvaluatedApart {κ : Type} (key : SampleRecord F → κ) (manifest : DatasetManifest F)
    (trainsOnHeldout : Prop) : Prop where
  splits : ∃ frozen heldout train val, manifest.split? "frozen_eval" = some frozen
    ∧ manifest.split? "heldout_eval" = some heldout ∧ manifest.split? "qat_train" = some train
    ∧ manifest.split? "qat_val" = some val
    ∧ Apart key frozen heldout
    ∧ (∀ training : TrainConfig, Apart key frozen (training.trainSlice train val))
    ∧ ((∀ training : TrainConfig, Apart key heldout (training.trainSlice train val))
      ↔ ¬ trainsOnHeldout)

/-- The training takes records of `qat_train`, or of `qat_val` when there are none. -/
theorem Apart.trainSlice {κ : Type} {key : SampleRecord F → κ}
    {xs train val : List (SampleRecord F)} (htrain : Apart key xs train)
    (hval : train = [] → Apart key xs val) (training : TrainConfig) :
  Apart key xs (training.trainSlice train val)
  := by
  rw [TrainConfig.trainSlice]
  split_ifs with hempty
  · exact (hval hempty).mono (List.prefix_refl xs) (prefix_upTo _ _)
  · exact htrain.mono (List.prefix_refl xs) (prefix_upTo _ _)

namespace PrepareConfig

variable (config : PrepareConfig F) (sources : DataSources F) (str : Json F → String)

/-- The manifest of the quick mode. -/
theorem evaluatedApart_quick {κ : Type} {key : SampleRecord F → κ}
    {manifest quick : DatasetManifest F} (hmode : config.quickMode = true)
    (hapart : SplitsApart key manifest)
    (h : shrinkManifestForQuickMode manifest config.limits = .ok quick) :
  EvaluatedApart key quick (config.TrainsOnHeldout manifest)
  := by
  obtain ⟨splits, hsplits, hquick⟩ := Except.bind_eq_ok_iff.mp h
  obtain ⟨frozen, heldout, ptqMm, _, val, hfrozen, hheldout, hptqMm, hval, rfl⟩ :=
    quickSplits_ok hsplits
  obtain rfl := Except.ok.inj hquick
  have hmono : ∀ {name other : String} {xs ys : List (SampleRecord F)} (m n : ℤ), name ≠ other →
      manifest.split? name = some xs → manifest.split? other = some ys →
      Apart key (upTo xs m) (upTo ys n) :=
    fun _ _ hne hxs hys => (hapart _ _ _ _ hne hxs hys).mono (prefix_upTo _ _) (prefix_upTo _ _)
  refine ⟨_, _, _, _, rfl, rfl, rfl, rfl, hmono _ _ (by decide) hfrozen hheldout, ?_, ?_⟩
  · apply Apart.trainSlice (hmono _ _ (by decide) hfrozen hptqMm)
    intro _
    split_ifs
    · exact hmono _ _ (by decide) hfrozen hheldout
    · exact hmono _ _ (by decide) hfrozen hval
  · constructor
    · -- One step of the training takes the first record of `heldout_eval`.
      rintro hall ⟨-, heldout', ptqMm', val', hheldout', hptqMm', hval', hnoPtq, hnoVal, hown,
        hevaluated⟩
      obtain rfl := Option.some.inj (hheldout.symm.trans hheldout')
      obtain rfl := Option.some.inj (hptqMm.symm.trans hptqMm')
      obtain rfl := Option.some.inj (hval.symm.trans hval')
      have hstep := hall ⟨true, 1⟩
      rw [TrainConfig.trainSlice, if_pos hnoPtq, if_pos hnoVal, apart_iff_of_prefix key
        (prefix_upTo _ _) ((prefix_upTo _ _).trans (prefix_upTo _ _))] at hstep
      obtain ⟨record, rest, hrecord⟩ := List.exists_cons_of_ne_nil hown
      rw [hrecord] at hstep
      rcases hstep with hnone | hnone
      · cases hnone
      · exact hevaluated hnone
    · intro hnot
      apply Apart.trainSlice (hmono _ _ (by decide) hheldout hptqMm)
      intro hnoPtq
      split_ifs with hnoVal
      · rw [apart_upTo_iff]
        by_contra! hboth
        exact hnot ⟨hmode, _, _, _, hheldout, hptqMm, hval, hnoPtq, hnoVal, hboth⟩
      · exact hmono _ _ (by decide) hheldout hval

/-- The manifest of the normal mode. -/
theorem evaluatedApart_normal {κ : Type} {key : SampleRecord F → κ} (counts : SampleCounts)
    (hmode : config.quickMode = false)
    (hapart : SplitsApart key (sources.buildDatasetManifest str config counts)) :
  EvaluatedApart key (sources.buildDatasetManifest str config counts)
    (config.TrainsOnHeldout (sources.buildDatasetManifest str config counts))
  := by
  have hsplit := sources.exists_getSplit str config counts
  simp only [DatasetManifest.getSplit_eq_ok_iff] at hsplit
  obtain ⟨frozen, hfrozen⟩ := hsplit "frozen_eval" (by decide)
  obtain ⟨heldout, hheldout⟩ := hsplit "heldout_eval" (by decide)
  obtain ⟨train, htrain⟩ := hsplit "qat_train" (by decide)
  obtain ⟨val, hval⟩ := hsplit "qat_val" (by decide)
  refine ⟨frozen, heldout, train, val, hfrozen, hheldout, htrain, hval,
    hapart _ _ _ _ (by decide) hfrozen hheldout, ?_, iff_of_true ?_ ?_⟩
  · apply Apart.trainSlice (hapart _ _ _ _ (by decide) hfrozen htrain)
    exact fun _ => hapart _ _ _ _ (by decide) hfrozen hval
  · apply Apart.trainSlice (hapart _ _ _ _ (by decide) hheldout htrain)
    exact fun _ => hapart _ _ _ _ (by decide) hheldout hval
  · rintro ⟨hquick, -⟩
    rw [hmode] at hquick
    cases hquick

/-- The manifest of a run, in the quick mode or not. -/
theorem exists_maybeQuickManifest {κ : Type} {key : SampleRecord F → κ} (counts : SampleCounts)
    (h : ((sources.all config.allowHfDownload).map key).Nodup) :
  ∃ manifest, config.maybeQuickManifest (sources.buildDatasetManifest str config counts)
      = .ok manifest
    ∧ EvaluatedApart key manifest
      (config.TrainsOnHeldout (sources.buildDatasetManifest str config counts))
    ∧ (config.quickMode = false → SplitsApart key manifest)
  := by
  have hapart := sources.splitsApart_buildDatasetManifest str config counts h
  rw [maybeQuickManifest]
  cases hmode : config.quickMode with
  | true =>
      obtain ⟨quick, hsplits⟩ := sources.exists_quickSplits str config counts config.limits
      have hshrink : shrinkManifestForQuickMode (sources.buildDatasetManifest str config counts)
          config.limits = .ok _ := congrArg (· >>= _) hsplits
      exact ⟨_, hshrink, config.evaluatedApart_quick hmode hapart hshrink,
        fun hnormal => absurd hnormal (by decide)⟩
  | false =>
      exact ⟨_, rfl, config.evaluatedApart_normal sources str counts hmode hapart, fun _ => hapart⟩

/-- Ten frozen records and one of text, reversed, and some records of an extra manifest. -/
def namedSources (extra : List String) : DataSources Empty where
  frozen := ["a", "b", "c", "d", "e", "f", "g", "h", "i", "j"].map namedRecord
  extra := some (extra.map namedRecord)
  download := .error "offline"
  text := ["t"].map namedRecord
  shufflePool := List.reverse
  shufflePool_perm := List.reverse_perm
  shuffleText := List.reverse
  shuffleText_perm := List.reverse_perm

/-- The quick mode, with a download that fails. -/
def quickConfig : PrepareConfig Empty where
  dataManifest := none
  modelPath := ""
  seed := 17
  allowHfDownload := true
  quickMode := true
  limits := ⟨12, 8, 8, 64, 8⟩

-- A single record of an extra manifest is evaluated and trained on.
example : quickConfig.TrainsOnHeldout
    ((namedSources ["x"]).buildDatasetManifest (fun _ => "") quickConfig .default) :=
  ⟨rfl, _, _, _, rfl, rfl, rfl, rfl, rfl, List.cons_ne_nil _ _, List.cons_ne_nil _ _⟩

end PrepareConfig

end Kv260
