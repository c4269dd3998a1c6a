import SmolVlm2Kv260.Host.ManifestMissing

/-!
# Repairing a manifest

`repair_manifest_axi_offsets.py` adds the offsets in words to the layers of a manifest that has
only those in bytes.  It appends them to the entries, so the text differs from the one that the
exporter writes; the runner reads the same offsets from both.
-/

set_option autoImplicit false

namespace Kv260.Manifest

open Py Text

/-! ### The script -/

abbrev axi256Bytes : ℤ := 32

/-- What the script stops with: an exception, or the message that an offset of a layer is not
aligned. -/
inductive RepairError where
  | raised (e : PyError)
  | notAligned (layer : Json Empty) (what : String)

abbrev Repair (α : Type) : Type := Except RepairError α

/-- An operation that can raise an exception. -/
def raise {α : Type} (x : Except PyError α) : Repair α := x.mapError .raised

/-- `v[key] = w`, for a dictionary that does not have the key. -/
def insertItem (v : Json Empty) (key : String) (w : Json Empty) : Json Empty :=
  match v with
  | .dict items => .dict (items ++ [(key, w)])
  | _ => v

/-- An offset of a layer in words is added, and counted, unless it is there. -/
def addOffset (axiKey bytesKey what : String) (layer : Json Empty × ℕ) :
    Repair (Json Empty × ℕ) := do
  if ← raise (layer.1.contains axiKey) then return layer
  let offset ← raise (layer.1.getItem bytesKey)
  match ← raise offset.num with
  | .float x => nomatch x
  | .int n =>
      if n % axi256Bytes ≠ 0 then
        .error (.notAligned (← raise (layer.1.get "layer" .none)) what)
      return (insertItem layer.1 axiKey (.int (n / axi256Bytes)), layer.2 + 1)

/-- The loop over the layers, for one of them. -/
def repairLayer (layer : Json Empty) : Repair (Json Empty × ℕ) := do
  let weight ← addOffset "w_offset_axi256" "w_offset_bytes" "weight" (layer, 0)
  addOffset "meta_offset_axi256" "meta_offset_bytes" "meta" weight

/-- The payload with other layers; what is not a list has no layer that could be changed. -/
def setLayers (payload : Json Empty) (layers : List (Json Empty)) : Json Empty :=
  match payload with
  | .dict items => .dict (items.map fun e =>
      match e with
      | ("decoder_layers", .list _) => ("decoder_layers", .list layers)
      | _ => e)
  | _ => payload

/-- `main`: the payload that is written, and `changed`. -/
def repairManifest (payload : Json Empty) : Repair (Json Empty × ℕ) := do
  let layers ← raise (← raise (payload.get "decoder_layers" (.list []))).elements
  let repaired ← layers.mapM repairLayer
  return (setLayers payload (repaired.map Prod.fst), (repaired.map Prod.snd).sum)

/-! ### Deleted offsets -/

/-- The offsets in words that are deleted from the layers. -/
abbrev DeletedOffsets : Type := ℕ → Bool × Bool

/-- The deletion of these offsets. -/
def DeletedOffsets.deletion (d : DeletedOffsets) : Deletion where
  decoder i key := (key == "w_offset_axi256" && (d i).1) || (key == "meta_offset_axi256" && (d i).2)
  vision _ _ := false
  connector _ := false

/-- The number of deleted offsets of a layer. -/
def DeletedOffsets.count (d : DeletedOffsets) (i : ℕ) : ℕ := (d i).1.toNat + (d i).2.toNat

/-- The entry of a layer that has lost its offsets in words and got them back. -/
def repairedLayer (deleted : Bool × Bool) (quant : String) (offsets : ℕ × ℕ) (index : ℕ) : Fields :=
  [("layer", .int index), ("w_offset_bytes", .int offsets.1),
    ("meta_offset_bytes", .int offsets.2)]
    ++ (if deleted.1 then [] else [("w_offset_axi256", .int (offsets.1 / 32 : ℕ))])
    ++ (if deleted.2 then [] else [("meta_offset_axi256", .int (offsets.2 / 32 : ℕ))])
    ++ [("quant", .str quant)]
    ++ (if deleted.1 then [("w_offset_axi256", .int (offsets.1 / 32 : ℕ))] else [])
    ++ (if deleted.2 then [("meta_offset_axi256", .int (offsets.2 / 32 : ℕ))] else [])

/-! ### One layer -/

section Layer

variable {v : Json Empty} {items : Fields} {axiKey bytesKey what : String}

/-- An offset that is there stays. -/
theorem addOffset_of_contains (h : v.contains axiKey = .ok true) (k : ℕ) :
  addOffset axiKey bytesKey what (v, k) = .ok (v, k)
  := by
  rw [addOffset, h]
  rfl

/-- A missing one is computed from the bytes. -/
theorem addOffset_of_missing (h : (Json.dict items).contains axiKey = .ok false) {n : ℕ}
    (hbytes : (Json.dict items).getItem bytesKey = .ok (.int n)) (hdvd : 32 ∣ n) (k : ℕ) :
  addOffset axiKey bytesKey what (.dict items, k)
    = .ok (.dict (items ++ [(axiKey, .int (n / 32 : ℕ))]), k + 1)
  := by
  have haligned : ¬ (n : ℤ) % axi256Bytes ≠ 0 := by
    change ¬ (n : ℤ) % 32 ≠ 0
    omega
  rw [addOffset, h, hbytes]
  exact if_neg haligned

variable (deleted : Bool × Bool) (quant : String) (offsets : ℕ × ℕ) (index : ℕ)

/-- The fields that are left of a layer. -/
def leftLayer : Fields :=
  [("layer", .int index), ("w_offset_bytes", .int offsets.1),
    ("meta_offset_bytes", .int offsets.2)]
    ++ (if deleted.1 then [] else [("w_offset_axi256", .int (offsets.1 / 32 : ℕ))])
    ++ (if deleted.2 then [] else [("meta_offset_axi256", .int (offsets.2 / 32 : ℕ))])
    ++ [("quant", .str quant)]

theorem deleteKeys_eq_leftLayer (d : DeletedOffsets) :
  deleteKeys (d.deletion.decoder index) (layerManifest quant offsets index)
    = leftLayer (d index) quant offsets index
  := by
  rw [DeletedOffsets.deletion]
  dsimp only
  rcases d index with ⟨_ | _, _ | _⟩ <;> rfl

/-- The loop over the layers, by its two steps. -/
theorem repairLayer_eq {first second : Json Empty × ℕ} {layer : Json Empty}
    (hfirst : addOffset "w_offset_axi256" "w_offset_bytes" "weight" (layer, 0) = .ok first)
    (hsecond : addOffset "meta_offset_axi256" "meta_offset_bytes" "meta" first = .ok second) :
  repairLayer layer = .ok second
  := by
  rw [repairLayer, hfirst]
  exact hsecond

/-- A layer gets its offsets back. -/
theorem repairLayer_leftLayer (hw : 32 ∣ offsets.1) (hm : 32 ∣ offsets.2) :
  repairLayer (.dict (leftLayer deleted quant offsets index))
    = .ok (.dict (repairedLayer deleted quant offsets index),
      deleted.1.toNat + deleted.2.toNat)
  := by
  rcases deleted with ⟨_ | _, _ | _⟩
  · apply repairLayer_eq (addOffset_of_contains rfl 0) (addOffset_of_contains rfl 0)
  · apply repairLayer_eq (addOffset_of_contains rfl 0) (addOffset_of_missing rfl rfl hm 0)
  · apply repairLayer_eq (addOffset_of_missing rfl rfl hw 0) (addOffset_of_contains rfl 1)
  · apply repairLayer_eq (addOffset_of_missing rfl rfl hw 0) (addOffset_of_missing rfl rfl hm 1)

/-- A layer with all its offsets stays as it is. -/
theorem repairLayer_repairedLayer :
  repairLayer (.dict (repairedLayer deleted quant offsets index))
    = .ok (.dict (repairedLayer deleted quant offsets index), 0)
  := by
  rcases deleted with ⟨_ | _, _ | _⟩
  all_goals apply repairLayer_eq (addOffset_of_contains rfl 0) (addOffset_of_contains rfl 0)

end Layer

/-! ### The manifest -/

/-- The layers are repaired one by one. -/
theorem mapM_repairLayer {g h : ℕ → Json Empty} {count : ℕ → ℕ} {indices : List ℕ}
    (hg : ∀ i ∈ indices, repairLayer (g i) = .ok (h i, count i)) :
  (indices.map g).mapM repairLayer = .ok (indices.map fun i => (h i, count i))
  := by
  induction indices with
  | nil => rfl
  | cons i indices ih =>
      obtain ⟨hi, hg⟩ := List.forall_mem_cons.mp hg
      rw [List.map_cons, List.mapM_cons, hi, ih hg]
      rfl

section Manifest

variable {scheme : QuantSchemeSpec} {vision : List Fields} {connector : Fields}

/-- Only the layers of a manifest change. -/
theorem repairManifest_manifestWith {f f' : ℕ → Fields} {count : ℕ → ℕ} {layers : ℕ}
    (h : ∀ i < layers, repairLayer (.dict (f i)) = .ok (.dict (f' i), count i)) :
  repairManifest (manifestWith scheme ((List.range layers).map f) vision connector)
    = .ok (manifestWith scheme ((List.range layers).map f') vision connector,
      ((List.range layers).map count).sum)
  := by
  have hget : (manifestWith scheme ((List.range layers).map f) vision connector).get
      "decoder_layers" (.list []) = .ok (.list (((List.range layers).map f).map .dict)) := rfl
  have hlayers : ((List.range layers).map fun i => Json.dict (f i)).mapM repairLayer
      = .ok ((List.range layers).map fun i => (Json.dict (f' i), count i)) :=
    mapM_repairLayer fun i hi => h i (List.mem_range.mp hi)
  have hfst : ((List.range layers).map fun i => (Json.dict (f' i), count i)).map Prod.fst
      = ((List.range layers).map f').map .dict := by
    rw [List.map_map, List.map_map]
    rfl
  have hsnd : ((List.range layers).map fun i => (Json.dict (f' i), count i)).map Prod.snd
      = (List.range layers).map count := by
    rw [List.map_map]
    rfl
  rw [repairManifest, hget]
  change ((((List.range layers).map f).map Json.dict).mapM repairLayer >>= _) = _
  rw [List.map_map]
  refine (congrArg (· >>= _) hlayers).trans ?_
  change Except.ok (setLayers _ (List.map Prod.fst _), (List.map Prod.snd _).sum) = _
  rw [hfst, hsnd]
  rfl

/-- A repaired layer has the fields of the exporter. -/
theorem repairedLayer_subset (deleted : Bool × Bool) (quant : String) (offsets : ℕ × ℕ)
    (index : ℕ) :
  repairedLayer deleted quant offsets index ⊆ layerManifest quant offsets index
  := by
  intro e he
  rcases deleted with ⟨_ | _, _ | _⟩
  all_goals
    simp only [repairedLayer, layerManifest, Bool.false_eq_true, if_false, if_true,
      List.cons_append, List.nil_append, List.append_nil, List.mem_cons, List.not_mem_nil,
      or_false] at he ⊢
    tauto

/-- Its offsets are read, wherever they stand. -/
theorem offsetsOf_repairedLayer (deleted : Bool × Bool) {quant : String} {offsets : ℕ × ℕ}
    (hquant : IsText quant) (hw : offsets.1 < 2147483648) (hm : offsets.2 < 2147483648)
    (index : ℕ) (rest : Strings) :
  offsetsOf (Json.stringsFields (repairedLayer deleted quant offsets index) ++ rest)
    = .ok (layerOffsets offsets)
  := by
  have hne : ∀ key ∈ reservedKeys, quant ≠ key := fun key hkey => ne_of_isText hquant hkey
  have hwAxi := hne "w_offset_axi256" (by decide)
  have hmAxi := hne "meta_offset_axi256" (by decide)
  rcases deleted with ⟨_ | _, _ | _⟩
  all_goals
    simp (disch := first | assumption | decide) only [repairedLayer, Bool.false_eq_true, if_false,
      if_true, List.cons_append, List.nil_append, List.append_nil, Json.stringsFields, Json.strings,
      offsetsOf,
      intOf_cons_of_ne, intOf_cons_self]
    change Except.ok _ = _
    rw [toSize_ofNat hw, toSize_ofNat hm]
    rfl

/-- The strings of repaired layers. -/
theorem entryStrings_repairedLayers (d : DeletedOffsets) (quant : String) (offsets : ℕ → ℕ × ℕ)
    (layers : ℕ) :
  entryStrings ((List.range layers).map fun i => repairedLayer (d i) quant (offsets i) i)
    = layerStrings (fun i => Json.stringsFields (repairedLayer (d i) quant (offsets i) i).tail)
      0 layers
  := by
  rw [entryStrings, List.flatMap_map, List.range_eq_range']
  rfl

/-- Only the first field of a repaired layer is its number. -/
theorem repairedTail_ne (deleted : Bool × Bool) {quant : String} (hquant : IsText quant)
    (offsets : ℕ × ℕ) (index : ℕ) :
  ∀ x ∈ Json.stringsFields (repairedLayer deleted quant offsets index).tail, x.1 ≠ "layer"
  := by
  have htail : (repairedLayer deleted quant offsets index).tail
      ⊆ (layerManifest quant offsets index).tail := by
    intro e he
    rcases deleted with ⟨_ | _, _ | _⟩
    all_goals
      simp only [repairedLayer, layerManifest, Bool.false_eq_true, if_false, if_true,
        List.cons_append, List.nil_append, List.append_nil, List.tail_cons, List.mem_cons,
        List.not_mem_nil, or_false] at he ⊢
      tauto
  intro x hx
  apply layerTail_ne hquant offsets index
  rw [stringsFields_eq] at hx ⊢
  obtain ⟨e, he, hx⟩ := List.mem_flatMap.mp hx
  exact List.mem_flatMap.mpr ⟨e, htail he, hx⟩

variable {decoderOffsets visionOffsets : ℕ → ℕ × ℕ} {layers blocks : ℕ}

/-- The manifest of an export with repaired layers. -/
def repairedManifest (d : DeletedOffsets) (scheme : QuantSchemeSpec)
    (decoderOffsets : ℕ → ℕ × ℕ) (layers : ℕ) (visionOffsets : ℕ → ℕ × ℕ) (blocks : ℕ) :
    Json Empty :=
  manifestWith scheme
    ((List.range layers).map fun i => repairedLayer (d i) scheme.weightFormat (decoderOffsets i) i)
    ((visionManifest visionOffsets blocks).map VisionEntry.toManifest) connectorEntry.toManifest

theorem deleteKeys_nothing (fields : Fields) :
  deleteKeys (fun _ => false) fields = fields
  := by
  rw [deleteKeys, List.filter_eq_self]
  intro e _
  rw [Bool.and_false, Bool.not_false]

/-- The manifest with deleted offsets, entry by entry. -/
theorem deletedManifest_eq (d : DeletedOffsets) (scheme : QuantSchemeSpec)
    (decoderOffsets : ℕ → ℕ × ℕ) (layers : ℕ) (visionOffsets : ℕ → ℕ × ℕ) (blocks : ℕ) :
  deletedManifest d.deletion scheme decoderOffsets layers visionOffsets blocks
    = manifestWith scheme
      ((List.range layers).map fun i =>
        leftLayer (d i) scheme.weightFormat (decoderOffsets i) i)
      ((visionManifest visionOffsets blocks).map VisionEntry.toManifest)
      connectorEntry.toManifest
  := by
  have hdecoder : ((decoderManifest scheme.weightFormat decoderOffsets layers).mapIdx fun i =>
      deleteKeys (d.deletion.decoder i))
      = (List.range layers).map fun i =>
        leftLayer (d i) scheme.weightFormat (decoderOffsets i) i := by
    rw [decoderManifest]
    apply List.ext_getElem
    · simp only [List.length_mapIdx, List.length_map]
    · intro i _ _
      simp only [List.getElem_mapIdx, List.getElem_map, List.getElem_range]
      apply deleteKeys_eq_leftLayer
  have hvision : (((visionManifest visionOffsets blocks).map VisionEntry.toManifest).mapIdx
      fun i => deleteKeys (d.deletion.vision i))
      = (visionManifest visionOffsets blocks).map VisionEntry.toManifest := by
    apply List.ext_getElem
    · rw [List.length_mapIdx]
    · intro i _ _
      rw [List.getElem_mapIdx]
      apply deleteKeys_nothing
  have hconnector : deleteKeys d.deletion.connector connectorEntry.toManifest
      = connectorEntry.toManifest := deleteKeys_nothing _
  rw [deletedManifest, hdecoder, hvision, hconnector]

/-- A repaired manifest has the fields of an exported one. -/
theorem goodManifest_repaired (hscheme : scheme ∈ schemeRegistry)
    (hdecoder : GoodByteOffsets decoderOffsets layers)
    (hvision : GoodOffsets visionOffsets (1 + 4 * blocks)) (d : DeletedOffsets) :
  GoodManifest scheme
    ((List.range layers).map fun i =>
      repairedLayer (d i) scheme.weightFormat (decoderOffsets i) i)
    ((visionManifest visionOffsets blocks).map VisionEntry.toManifest)
    connectorEntry.toManifest
  := by
  have hquant : IsText scheme.weightFormat := isText_of_mem_registry scheme hscheme _
    (List.mem_cons_of_mem _ List.mem_cons_self)
  refine { goodManifest_export hscheme hdecoder hvision with
    decoderFields := ?_, decoderKeys := ?_ }
  · intro fields hfields
    obtain ⟨i, hi, rfl⟩ := List.mem_map.mp hfields
    obtain ⟨hw, hm⟩ := hdecoder i (List.mem_range.mp hi)
    intro e he
    apply goodFields_layerManifest hquant hw hm e (repairedLayer_subset _ _ _ _ he)
  · intro fields hfields
    obtain ⟨i, -, rfl⟩ := List.mem_map.mp hfields
    apply List.map_subset Prod.fst (repairedLayer_subset _ _ _ _)

/-- A repaired manifest is read like the exported one. -/
theorem readManifest_repairedManifest (hscheme : scheme ∈ schemeRegistry)
    (hdecoder : GoodByteOffsets decoderOffsets layers)
    (hvision : GoodOffsets visionOffsets (1 + 4 * blocks)) (d : DeletedOffsets)
    (exportDir : String) :
  readManifest exportDir
      ((repairedManifest d scheme decoderOffsets layers visionOffsets blocks).dumps 0)
    = readManifest exportDir
      ((exportManifest scheme decoderOffsets layers visionOffsets blocks).dumps 0)
  := by
  have hquant : IsText scheme.weightFormat := isText_of_mem_registry scheme hscheme _
    (List.mem_cons_of_mem _ List.mem_cons_self)
  have hexport := goodManifest_export hscheme hdecoder hvision
  have hrepaired := goodManifest_repaired hscheme hdecoder hvision d
  have hafter : ∀ e ∈ visionStrings ((visionManifest visionOffsets blocks).map
      VisionEntry.toManifest) connectorEntry.toManifest, e.1 ≠ "layer" :=
    hexport.visionStrings_ne (by decide)
  -- in both texts each layer has its own offsets
  have hlayers : ∀ entries : ℕ → Fields,
      (∀ i, ∀ e ∈ Json.stringsFields (entries i).tail, e.1 ≠ "layer") →
      (∀ i < layers, ∀ rest, offsetsOf (("layer", some (.int (i : ℕ)))
          :: (Json.stringsFields (entries i).tail ++ rest))
        = .ok (layerOffsets (decoderOffsets i))) →
      layersOf 0 (layerStrings (fun i => Json.stringsFields (entries i).tail) 0 layers
          ++ visionStrings ((visionManifest visionOffsets blocks).map VisionEntry.toManifest)
            connectorEntry.toManifest)
        = .ok ((List.range' 0 layers).map fun i => layerOffsets (decoderOffsets i)) := by
    intro entries htail hoffsets
    apply layersOf_layerStrings htail hafter
    intro i hi
    apply hoffsets i (by simpa using hi)
  have hstrings : entryStrings (decoderManifest scheme.weightFormat decoderOffsets layers)
      = layerStrings (fun i => Json.stringsFields
        (layerManifest scheme.weightFormat (decoderOffsets i) i).tail) 0 layers := by
    rw [entryStrings, decoderManifest, List.flatMap_map, List.range_eq_range']
    rfl
  rw [repairedManifest, hrepaired.readManifest_eq, hrepaired.summarize_eq, exportManifest,
    hexport.readManifest_eq, hexport.summarize_eq, entryStrings_repairedLayers, hstrings,
    hlayers fun i => repairedLayer (d i) scheme.weightFormat (decoderOffsets i) i,
    hlayers fun i => layerManifest scheme.weightFormat (decoderOffsets i) i]
  · intro i
    apply layerTail_ne hquant
  · intro i hi rest
    obtain ⟨hw, hm⟩ := hdecoder i hi
    exact offsetsOf_layerManifest hw hm i rest
  · intro i
    apply repairedTail_ne (d i) hquant
  · intro i hi rest
    obtain ⟨hw, hm⟩ := hdecoder i hi
    exact offsetsOf_repairedLayer (d i) hquant hw hm i rest

/-- For any offsets in words that are deleted from the layers of an exported manifest, the script
adds as many, the runner reads the repaired text like the one of the exporter, and repairing once
more changes nothing. -/
theorem repairManifest_deletedManifest (hscheme : scheme ∈ schemeRegistry)
    (hdecoder : GoodByteOffsets decoderOffsets layers)
    (haligned : ∀ i < layers, 32 ∣ (decoderOffsets i).1 ∧ 32 ∣ (decoderOffsets i).2)
    (hvision : GoodOffsets visionOffsets (1 + 4 * blocks)) (d : DeletedOffsets)
    (exportDir : String) :
  ∃ repaired, repairManifest
      (deletedManifest d.deletion scheme decoderOffsets layers visionOffsets blocks)
        = .ok (repaired, ((List.range layers).map d.count).sum)
    ∧ readManifest exportDir (repaired.dumps 0)
      = readManifest exportDir
        ((exportManifest scheme decoderOffsets layers visionOffsets blocks).dumps 0)
    ∧ repairManifest repaired = .ok (repaired, 0)
  := by
  refine ⟨repairedManifest d scheme decoderOffsets layers visionOffsets blocks, ?_, ?_, ?_⟩
  · rw [deletedManifest_eq, repairManifest_manifestWith fun i hi =>
      repairLayer_leftLayer (d i) scheme.weightFormat (decoderOffsets i) i (haligned i hi).1
        (haligned i hi).2]
    rfl
  · apply readManifest_repairedManifest hscheme hdecoder hvision
  · have hzero : ((List.range layers).map fun _ => 0).sum = 0 := by simp
    rw [repairedManifest, repairManifest_manifestWith fun i _ =>
      repairLayer_repairedLayer (d i) scheme.weightFormat (decoderOffsets i) i, hzero]

/-- Two layers, of which the first has lost both offsets and the second one of them. -/
def twoLayersDeleted : DeletedOffsets := fun i => (i == 0, true)

/-- The export of a model with two layers and one block. -/
theorem repairManifest_deletedManifest_small :
  ∃ repaired, repairManifest
      (deletedManifest twoLayersDeleted.deletion schemeRegistry[1]
        (fun i => (2457600 * i, 307200 * i)) 2 (fun i => (294912 * i, 36864 * i)) 1)
        = .ok (repaired, 3)
    ∧ readManifest "export" (repaired.dumps 0)
      = readManifest "export" ((exportManifest schemeRegistry[1]
        (fun i => (2457600 * i, 307200 * i)) 2 (fun i => (294912 * i, 36864 * i)) 1).dumps 0)
    ∧ repairManifest repaired = .ok (repaired, 0)
  := by
  have hdecoder : GoodByteOffsets (fun i => (2457600 * i, 307200 * i)) 2 := by
    intro i hi
    simp only
    omega
  have haligned : ∀ i < 2, 32 ∣ 2457600 * i ∧ 32 ∣ 307200 * i := by
    intro i _
    constructor <;> omega
  have hvision : GoodOffsets (fun i => (294912 * i, 36864 * i)) (1 + 4 * 1) := by
    intro i hi
    simp only
    omega
  exact repairManifest_deletedManifest (List.getElem_mem _) hdecoder haligned hvision
    twoLayersDeleted "export"

end Manifest

end Kv260.Manifest
