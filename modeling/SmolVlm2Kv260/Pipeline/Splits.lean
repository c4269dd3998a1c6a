import Mathlib.Data.List.Nodup
import Mathlib.Data.List.Pairwise
import SmolVlm2Kv260.Export.Rtn
import SmolVlm2Kv260.Memory.Buckets
import SmolVlm2Kv260.Process.Fallible
import SmolVlm2Kv260.Validation.Py

/-!
# Splits of the data set

The records of `quant_pipeline/data.py`, the local fallback that divides them into splits bucket
by bucket, and the smaller manifest of the quick mode.
-/

set_option autoImplicit false

namespace Kv260

open Py

variable {F : Type}

/-- `SampleRecord`. -/
structure SampleRecord (F : Type) where
  sampleId : String
  source : String
  split : String
  prompt : String
  answers : List String
  modality : String
  imagePath : Option String
  text : Option String
  datasetName : Option String
  metadata : List (String × Json F)

/-- `DatasetManifest`. -/
structure DatasetManifest (F : Type) where
  version : ℤ
  seed : ℤ
  modelPath : String
  splits : List (String × List (SampleRecord F))
  diagnostics : List (String × Json F)

/-! ### The local fallback -/

/-- The keys of the dictionary `splits` of the fallback. -/
inductive FallbackSplit where
  | frozenEval
  | heldoutEval
  | ptqMultimodalCalib
  | qatVal
  | qatTrain
deriving DecidableEq

/-- The splits in their order. -/
def FallbackSplit.all : List FallbackSplit :=
  [.frozenEval, .heldoutEval, .ptqMultimodalCalib, .qatVal, .qatTrain]

theorem FallbackSplit.mem_all (name : FallbackSplit) :
  name ∈ FallbackSplit.all
  := by
  cases name <;> decide

/-- `record.dataset_name or "unknown"`. -/
def SampleRecord.dataset (record : SampleRecord F) : String :=
  match record.datasetName with
  | none => "unknown"
  | some name => if name = "" then "unknown" else name

/-- `bucket`.  The texts of values that are no strings are those of `str`. -/
def SampleRecord.bucket (str : Json F → String) (record : SampleRecord F) : String :=
  match Json.lookup "type" record.metadata with
  | some value => str value
  | none => record.dataset

/-- The slices of a bucket, which follow each other from the first record on. -/
def cutBucket (bucketRecords : List (SampleRecord F)) (nFrozen nHeldout nPtq nQatVal : ℕ) :
    FallbackSplit → List (SampleRecord F)
  | .frozenEval => bucketRecords.take nFrozen
  | .heldoutEval => (bucketRecords.drop nFrozen).take nHeldout
  | .ptqMultimodalCalib => (bucketRecords.drop (nFrozen + nHeldout)).take nPtq
  | .qatVal => (bucketRecords.drop (nFrozen + nHeldout + nPtq)).take nQatVal
  | .qatTrain => []

/-- What a bucket adds to each split.  A product with a decimal fraction is never half of an odd
number, so that it is rounded to the nearest integer. -/
def bucketSplits (bucketRecords : List (SampleRecord F)) :
    FallbackSplit → List (SampleRecord F) :=
  let count := bucketRecords.length
  if count ≤ 1 then fun
    | .frozenEval => bucketRecords
    | _ => []
  else
    let nFrozen := (max 1 (npRound (count * (4 / 10)))).toNat
    let nHeldout := (max 1 (npRound (count * (2 / 10)))).toNat
    let nPtq := (max 1 (npRound (count * (2 / 10)))).toNat
    let remaining : ℤ := count - nFrozen - nHeldout - nPtq
    let nQatVal := (max 0 remaining).toNat
    cutBucket bucketRecords nFrozen nHeldout nPtq nQatVal

/-- `_stratified_local_multimodal_fallback`. -/
def stratifiedLocalMultimodalFallback (str : Json F → String) (records : List (SampleRecord F)) :
    FallbackSplit → List (SampleRecord F) :=
  let grouped := Buckets.insertAll (SampleRecord.bucket str) [] records
  grouped.foldl (fun splits b name => splits name ++ bucketSplits b.2 name) fun _ => []

/-! ### The parts of a bucket -/

/-- The splits of the fallback, one after the other. -/
def concatSplits (splits : FallbackSplit → List (SampleRecord F)) : List (SampleRecord F) :=
  FallbackSplit.all.flatMap splits

/-- Slices that follow each other make up the bucket when the last one takes what remains:
nothing, if the others ask for more than there is. -/
theorem concatSplits_cutBucket (bucketRecords : List (SampleRecord F))
    {nFrozen nHeldout nPtq nQatVal : ℕ}
    (h : bucketRecords.length ≤ nFrozen + nHeldout + nPtq + nQatVal) :
  concatSplits (cutBucket bucketRecords nFrozen nHeldout nPtq nQatVal) = bucketRecords
  := by
  have rest : (bucketRecords.drop (nFrozen + nHeldout + nPtq)).take nQatVal
      = bucketRecords.drop (nFrozen + nHeldout + nPtq) := by
    apply List.take_of_length_le
    rw [List.length_drop]
    omega
  simp only [concatSplits, FallbackSplit.all, List.flatMap_cons, List.flatMap_nil, cutBucket, rest,
    List.append_nil]
  rw [← List.append_assoc, ← List.append_assoc, ← List.take_add, ← List.take_add,
    List.take_append_drop]

theorem concatSplits_bucketSplits (bucketRecords : List (SampleRecord F)) :
  concatSplits (bucketSplits bucketRecords) = bucketRecords
  := by
  rw [bucketSplits]
  dsimp only
  split
  case isTrue => simp [concatSplits, FallbackSplit.all]
  case isFalse =>
    apply concatSplits_cutBucket
    omega

/-- A bucket adds records of its own. -/
theorem bucketSplits_subset (name : FallbackSplit) (bucketRecords : List (SampleRecord F)) :
  bucketSplits bucketRecords name ⊆ bucketRecords
  := by
  intro record h
  rw [← concatSplits_bucketSplits bucketRecords]
  exact List.mem_flatMap.mpr ⟨name, name.mem_all, h⟩

/-- A bucket that is not empty adds its first record to `frozen_eval`. -/
theorem head_mem_frozenEval (record : SampleRecord F) (others : List (SampleRecord F)) :
  record ∈ bucketSplits (record :: others) .frozenEval
  := by
  rw [bucketSplits]
  dsimp only
  split
  case isTrue => exact List.mem_cons_self
  case isFalse =>
    obtain ⟨n, hn⟩ : ∃ n, (max 1 (npRound ((record :: others).length * (4 / 10)))).toNat
        = n + 1 := ⟨(max 1 (npRound ((record :: others).length * (4 / 10)))).toNat - 1, by omega⟩
    rw [cutBucket, hn, List.take_succ_cons]
    exact List.mem_cons_self

/-! ### The splits of all buckets -/

/-- One round of the loop adds the parts of one bucket, so that a split has those of all. -/
theorem foldl_bucketSplits (buckets : List (String × List (SampleRecord F)))
    (splits : FallbackSplit → List (SampleRecord F)) (name : FallbackSplit) :
  buckets.foldl (fun splits b name => splits name ++ bucketSplits b.2 name) splits name
    = splits name ++ buckets.flatMap fun b => bucketSplits b.2 name
  := by
  induction buckets generalizing splits with
  | nil => exact (List.append_nil _).symm
  | cons b buckets ih =>
    rw [List.foldl_cons, ih, List.flatMap_cons, List.append_assoc]

/-- The records of a bucket that a split has are those that the bucket adds to it. -/
theorem filter_fallback (str : Json F → String) (records : List (SampleRecord F)) (b : String)
    (name : FallbackSplit) :
  (stratifiedLocalMultimodalFallback str records name).filter (fun r => r.bucket str = b)
    = bucketSplits (records.filter fun r => r.bucket str = b) name
  := by
  rw [stratifiedLocalMultimodalFallback, foldl_bucketSplits, List.nil_append]
  exact Buckets.filter_flatMap_insertAll (SampleRecord.bucket str) records
    (g := fun bucketRecords => bucketSplits bucketRecords name) (bucketSplits_subset name) b

/-- The splits have the records of each bucket, in their order. -/
theorem filter_concatSplits_fallback (str : Json F → String) (records : List (SampleRecord F))
    (b : String) :
  (concatSplits (stratifiedLocalMultimodalFallback str records)).filter
      (fun r => r.bucket str = b)
    = records.filter fun r => r.bucket str = b
  := by
  rw [concatSplits, List.filter_flatMap]
  simp only [filter_fallback]
  rw [← concatSplits, concatSplits_bucketSplits]

theorem concatSplits_fallback_perm (str : Json F → String) (records : List (SampleRecord F)) :
  (concatSplits (stratifiedLocalMultimodalFallback str records)).Perm records
  := Buckets.perm_of_filter_eq (filter_concatSplits_fallback str records)

/-- A record that occurs once is in one split only. -/
theorem fallback_disjoint (str : Json F → String) {records : List (SampleRecord F)}
    (h : records.Nodup) {name other : FallbackSplit} (hne : name ≠ other) :
  List.Disjoint (stratifiedLocalMultimodalFallback str records name)
    (stratifiedLocalMultimodalFallback str records other)
  := by
  have nodup := (concatSplits_fallback_perm str records).nodup_iff.mpr h
  obtain ⟨_, disjoint⟩ := List.nodup_flatMap.mp nodup
  have : Std.Symm (Function.onFun List.Disjoint (stratifiedLocalMultimodalFallback str records)) :=
    ⟨fun _ _ apart _ left right => apart right left⟩
  exact disjoint.forall name.mem_all other.mem_all hne

/-- The fallback divides the records into splits, each bucket in its order, and every bucket
has a record in `frozen_eval`. -/
theorem fallback_partition (str : Json F → String) (records : List (SampleRecord F)) :
  (concatSplits (stratifiedLocalMultimodalFallback str records)).Perm records ∧
    (∀ name other, records.Nodup → name ≠ other →
      List.Disjoint (stratifiedLocalMultimodalFallback str records name)
        (stratifiedLocalMultimodalFallback str records other)) ∧
    (∀ b, (concatSplits (stratifiedLocalMultimodalFallback str records)).filter
        (fun r => r.bucket str = b)
      = records.filter fun r => r.bucket str = b) ∧
    ∀ record ∈ records, ∃ r ∈ stratifiedLocalMultimodalFallback str records .frozenEval,
      r.bucket str = record.bucket str
  := by
  refine ⟨concatSplits_fallback_perm str records, fun _ _ h => fallback_disjoint str h,
    filter_concatSplits_fallback str records, ?_⟩
  intro record hrecord
  have of_bucket : record ∈ records.filter fun r => r.bucket str = record.bucket str :=
    List.mem_filter.mpr ⟨hrecord, decide_eq_true rfl⟩
  obtain ⟨first, others, h⟩ := List.exists_cons_of_ne_nil (List.ne_nil_of_mem of_bucket)
  have placed := head_mem_frozenEval first others
  rw [← h, ← filter_fallback, List.mem_filter] at placed
  exact ⟨first, placed.1, of_decide_eq_true placed.2⟩

/-! ### The quick mode -/

/-- `l[:n]`. -/
def upTo {α : Type} (l : List α) (n : ℤ) : List α :=
  if 0 ≤ n then l.take n.toNat else l.take (l.length + n).toNat

theorem prefix_upTo {α : Type} (l : List α) (n : ℤ) :
  upTo l n <+: l
  := by
  rw [upTo]
  split
  case isTrue => apply List.take_prefix
  case isFalse => apply List.take_prefix

/-- The limits of `shrink_manifest_for_quick_mode`. -/
structure QuickLimits where
  frozenEvalLimit : ℤ
  heldoutEvalLimit : ℤ
  ptqMmLimit : ℤ
  ptqTextLimit : ℤ
  qatValLimit : ℤ

namespace DatasetManifest

/-- The split of a name, if the manifest has it. -/
def split? (manifest : DatasetManifest F) (name : String) : Option (List (SampleRecord F)) :=
  (manifest.splits.find? fun item => item.1 == name).map Prod.snd

/-- `manifest.splits[name]`. -/
def getSplit (manifest : DatasetManifest F) (name : String) :
    Except PyError (List (SampleRecord F)) :=
  match manifest.split? name with
  | some records => .ok records
  | none => .error (.keyError name)

end DatasetManifest

/-- `quick_splits`. -/
def quickSplits (manifest : DatasetManifest F) (limits : QuickLimits) :
    Except PyError (List (String × List (SampleRecord F))) := do
  let frozenEval ← manifest.getSplit "frozen_eval"
  let heldoutEval ← manifest.getSplit "heldout_eval"
  let ptqMm ← manifest.getSplit "ptq_multimodal_calib"
  let ptqText ← manifest.getSplit "ptq_text_calib"
  let qatVal ← manifest.getSplit "qat_val"
  return [
    ("frozen_eval", upTo frozenEval limits.frozenEvalLimit),
    ("heldout_eval", upTo heldoutEval limits.heldoutEvalLimit),
    ("ptq_multimodal_calib", upTo ptqMm limits.ptqMmLimit),
    ("ptq_text_calib", upTo ptqText limits.ptqTextLimit),
    ("qat_train", upTo ptqMm limits.ptqMmLimit),
    ("qat_val",
      if upTo qatVal limits.qatValLimit = [] then upTo heldoutEval limits.qatValLimit
      else upTo qatVal limits.qatValLimit)]

/-- `diagnostics["quick_mode"]`. -/
def quickModeDiagnostics (limits : QuickLimits)
    (splits : List (String × List (SampleRecord F))) : Json F :=
  .dict [
    ("enabled", .bool true),
    ("limits", .dict [
      ("frozen_eval", .int limits.frozenEvalLimit),
      ("heldout_eval", .int limits.heldoutEvalLimit),
      ("ptq_multimodal_calib", .int limits.ptqMmLimit),
      ("ptq_text_calib", .int limits.ptqTextLimit),
      ("qat_val", .int limits.qatValLimit),
      ("qat_train_source", .str "copied_from_ptq_multimodal_calib")]),
    ("actual_counts", .dict (splits.map fun item => (item.1, .int item.2.length)))]

/-- `items[key] = value`. -/
def setItem (items : List (String × Json F)) (key : String) (value : Json F) :
    List (String × Json F) :=
  if items.any fun item => item.1 == key then
    items.map fun item => if item.1 = key then (key, value) else item
  else items ++ [(key, value)]

/-- `shrink_manifest_for_quick_mode`. -/
def shrinkManifestForQuickMode (manifest : DatasetManifest F) (limits : QuickLimits) :
    Except PyError (DatasetManifest F) := do
  let splits ← quickSplits manifest limits
  return {
    version := manifest.version
    seed := manifest.seed
    modelPath := manifest.modelPath
    splits := splits
    diagnostics :=
      setItem manifest.diagnostics "quick_mode" (quickModeDiagnostics limits splits) }

/-! ### Evaluation and training -/

/-- The records of two splits differ in their keys. -/
def Apart {κ : Type} (key : SampleRecord F → κ) (xs ys : List (SampleRecord F)) : Prop :=
  ∀ r ∈ xs, ∀ s ∈ ys, key r ≠ key s

theorem Apart.mono {κ : Type} {key : SampleRecord F → κ}
    {xs xs' ys ys' : List (SampleRecord F)} (h : Apart key xs ys) (hx : xs' <+: xs)
    (hy : ys' <+: ys) :
  Apart key xs' ys'
  := fun r hr s hs => h r (hx.subset hr) s (hy.subset hs)

/-- Two beginnings of a list have its first record, unless one of them is empty. -/
theorem apart_iff_of_prefix {κ : Type} (key : SampleRecord F → κ)
    {xs ys records : List (SampleRecord F)} (hxs : xs <+: records) (hys : ys <+: records) :
  Apart key xs ys ↔ ys = [] ∨ xs = []
  := by
  constructor
  · intro h
    by_contra both
    rw [not_or] at both
    obtain ⟨r, rest, rfl⟩ := List.exists_cons_of_ne_nil both.1
    obtain ⟨s, others, rfl⟩ := List.exists_cons_of_ne_nil both.2
    have same : s = r := by
      obtain ⟨_, rfl⟩ := hys
      exact (List.cons_prefix_cons.mp hxs).1
    exact h s List.mem_cons_self r List.mem_cons_self (congrArg key same)
  · rintro (rfl | rfl)
    · intro _ _ s hs
      cases hs
    · intro r hr
      cases hr

theorem apart_upTo_iff {κ : Type} (key : SampleRecord F → κ) (records : List (SampleRecord F))
    (m n : ℤ) :
  Apart key (upTo records m) (upTo records n) ↔ upTo records n = [] ∨ upTo records m = []
  := apart_iff_of_prefix key (prefix_upTo records m) (prefix_upTo records n)

/-- The splits of a manifest are pairwise disjoint. -/
def SplitsApart {κ : Type} (key : SampleRecord F → κ) (manifest : DatasetManifest F) : Prop :=
  ∀ name other xs ys, name ≠ other → manifest.split? name = some xs →
    manifest.split? other = some ys → Apart key xs ys

theorem splitsApart_of_pairwise {κ : Type} {key : SampleRecord F → κ}
    {manifest : DatasetManifest F}
    (h : manifest.splits.Pairwise fun a b => Apart key a.2 b.2) :
  SplitsApart key manifest
  := by
  have : Std.Symm fun a b : String × List (SampleRecord F) => Apart key a.2 b.2 :=
    ⟨fun _ _ apart r hr s hs same => apart s hs r hr same.symm⟩
  intro name other xs ys hne hxs hys
  obtain ⟨a, ha, rfl⟩ := Option.map_eq_some_iff.mp hxs
  obtain ⟨b, hb, rfl⟩ := Option.map_eq_some_iff.mp hys
  apply h.forall (List.mem_of_find?_eq_some ha) (List.mem_of_find?_eq_some hb)
  rintro rfl
  have is_name := List.find?_some ha
  have is_other := List.find?_some hb
  rw [beq_iff_eq] at is_name is_other
  exact hne (is_name.symm.trans is_other)

theorem DatasetManifest.getSplit_eq_ok_iff {manifest : DatasetManifest F} {name : String}
    {records : List (SampleRecord F)} :
  manifest.getSplit name = .ok records ↔ manifest.split? name = some records
  := by
  rw [getSplit]
  cases manifest.split? name with
  | none => simp
  | some found => simp

/-- What the quick manifest has of the manifest it comes from. -/
theorem quickSplits_ok {manifest : DatasetManifest F} {limits : QuickLimits}
    {splits : List (String × List (SampleRecord F))}
    (h : quickSplits manifest limits = .ok splits) :
  ∃ frozenEval heldoutEval ptqMm ptqText qatVal,
    manifest.split? "frozen_eval" = some frozenEval ∧
    manifest.split? "heldout_eval" = some heldoutEval ∧
    manifest.split? "ptq_multimodal_calib" = some ptqMm ∧
    manifest.split? "qat_val" = some qatVal ∧
    splits = [
      ("frozen_eval", upTo frozenEval limits.frozenEvalLimit),
      ("heldout_eval", upTo heldoutEval limits.heldoutEvalLimit),
      ("ptq_multimodal_calib", upTo ptqMm limits.ptqMmLimit),
      ("ptq_text_calib", upTo ptqText limits.ptqTextLimit),
      ("qat_train", upTo ptqMm limits.ptqMmLimit),
      ("qat_val",
        if upTo qatVal limits.qatValLimit = [] then upTo heldoutEval limits.qatValLimit
        else upTo qatVal limits.qatValLimit)]
  := by
  obtain ⟨frozenEval, hFrozen, h⟩ := Except.bind_eq_ok_iff.mp h
  obtain ⟨heldoutEval, hHeldout, h⟩ := Except.bind_eq_ok_iff.mp h
  obtain ⟨ptqMm, hMm, h⟩ := Except.bind_eq_ok_iff.mp h
  obtain ⟨ptqText, hText, h⟩ := Except.bind_eq_ok_iff.mp h
  obtain ⟨qatVal, hVal, h⟩ := Except.bind_eq_ok_iff.mp h
  rw [DatasetManifest.getSplit_eq_ok_iff] at hFrozen hHeldout hMm hVal
  exact ⟨frozenEval, heldoutEval, ptqMm, ptqText, qatVal, hFrozen, hHeldout, hMm, hVal,
    (Except.ok.inj h).symm⟩

/-- In the quick mode no record of the evaluation splits is in `qat_train`, and none of
`frozen_eval` is validated on.  The validation records are those of `heldout_eval` when `qat_val`
has none within its limit. -/
theorem shrinkManifest_apart {κ : Type} (key : SampleRecord F → κ)
    {manifest quick : DatasetManifest F} (limits : QuickLimits)
    (apart : SplitsApart key manifest)
    (h : shrinkManifestForQuickMode manifest limits = .ok quick) :
  ∃ heldoutEval qatVal frozen heldout train val,
    manifest.split? "heldout_eval" = some heldoutEval ∧
    manifest.split? "qat_val" = some qatVal ∧
    quick.split? "frozen_eval" = some frozen ∧ quick.split? "heldout_eval" = some heldout ∧
    quick.split? "qat_train" = some train ∧ quick.split? "qat_val" = some val ∧
    Apart key frozen train ∧ Apart key frozen val ∧ Apart key heldout train ∧
    (Apart key heldout val ↔ upTo qatVal limits.qatValLimit ≠ [] ∨
      upTo heldoutEval limits.qatValLimit = [] ∨
      upTo heldoutEval limits.heldoutEvalLimit = [])
  := by
  obtain ⟨splits, hSplits, hQuick⟩ := Except.bind_eq_ok_iff.mp h
  obtain ⟨frozenEval, heldoutEval, ptqMm, ptqText, qatVal, hFrozen, hHeldout, hMm, hVal, rfl⟩ :=
    quickSplits_ok hSplits
  obtain rfl := Except.ok.inj hQuick
  refine ⟨heldoutEval, qatVal, _, _, _, _, hHeldout, hVal, rfl, rfl, rfl, rfl, ?_, ?_, ?_, ?_⟩
  · exact (apart _ _ _ _ (by decide) hFrozen hMm).mono (prefix_upTo _ _) (prefix_upTo _ _)
  · split
    case isTrue =>
      exact (apart _ _ _ _ (by decide) hFrozen hHeldout).mono
        (prefix_upTo _ _) (prefix_upTo _ _)
    case isFalse =>
      exact (apart _ _ _ _ (by decide) hFrozen hVal).mono
        (prefix_upTo _ _) (prefix_upTo _ _)
  · exact (apart _ _ _ _ (by decide) hHeldout hMm).mono (prefix_upTo _ _) (prefix_upTo _ _)
  · split
    case isTrue fallback =>
      rw [apart_upTo_iff]
      simp only [fallback, ne_eq, not_true, false_or]
    case isFalse own =>
      have kept : Apart key (upTo heldoutEval limits.heldoutEvalLimit)
          (upTo qatVal limits.qatValLimit) :=
        (apart _ _ _ _ (by decide) hHeldout hVal).mono (prefix_upTo _ _) (prefix_upTo _ _)
      exact iff_of_true kept (.inl own)

/-- A record of a name. -/
def namedRecord (sampleId : String) : SampleRecord Empty :=
  ⟨sampleId, "", "", "", [], "", none, none, none, []⟩

/-- A manifest with records of the given names. -/
def namedManifest (frozenEval heldoutEval ptqMm qatVal : List String) : DatasetManifest Empty :=
  ⟨1, 0, "", [
    ("frozen_eval", frozenEval.map namedRecord),
    ("heldout_eval", heldoutEval.map namedRecord),
    ("ptq_multimodal_calib", ptqMm.map namedRecord),
    ("ptq_text_calib", []),
    ("qat_train", []),
    ("qat_val", qatVal.map namedRecord)], []⟩

/-- One record in each of four splits. -/
theorem shrinkManifest_apart_named :
  SplitsApart SampleRecord.sampleId (namedManifest ["f"] ["h"] ["p"] ["v"]) ∧
    ∃ quick heldout val,
      shrinkManifestForQuickMode (namedManifest ["f"] ["h"] ["p"] ["v"]) ⟨1, 1, 1, 1, 1⟩
        = .ok quick ∧
      quick.split? "heldout_eval" = some heldout ∧ quick.split? "qat_val" = some val ∧
      Apart SampleRecord.sampleId heldout val
  := by
  have apart : SplitsApart SampleRecord.sampleId (namedManifest ["f"] ["h"] ["p"] ["v"]) := by
    apply splitsApart_of_pairwise
    simp [namedManifest, namedRecord, Apart]
  obtain ⟨heldoutEval, qatVal, frozen, heldout, train, val, _, hVal, _, hHeldout, _, hval, _, _, _,
    apart_iff⟩ := shrinkManifest_apart SampleRecord.sampleId ⟨1, 1, 1, 1, 1⟩ apart rfl
  obtain rfl := Option.some.inj hVal
  exact ⟨apart, _, heldout, val, rfl, hHeldout, hval, apart_iff.mpr (.inl (by simp [upTo]))⟩

/-- Without records in `qat_val`, the one in `heldout_eval` is validated on as well. -/
theorem not_shrinkManifest_apart :
  SplitsApart SampleRecord.sampleId (namedManifest ["f"] ["h"] [] []) ∧
    ∃ quick heldout val,
      shrinkManifestForQuickMode (namedManifest ["f"] ["h"] [] []) ⟨1, 1, 1, 1, 1⟩ = .ok quick ∧
      quick.split? "heldout_eval" = some heldout ∧ quick.split? "qat_val" = some val ∧
      ¬ Apart SampleRecord.sampleId heldout val
  := by
  refine ⟨?_, _, [namedRecord "h"], [namedRecord "h"], rfl, rfl, rfl, ?_⟩
  · apply splitsApart_of_pairwise
    simp [namedManifest, namedRecord, Apart]
  · simp [Apart]

end Kv260
