import SmolVlm2Kv260.Host.ManifestRoundTrip

/-!
# Manifests with missing keys

When a key is missing in an entry, the search for it goes on to the later entries.  Loading
fails only where no entry behind has the key: for the connector, and for the byte offsets of
the last layer of the decoder.  Otherwise the entry is filled with the value of another one.
-/

set_option autoImplicit false

namespace Kv260.Manifest

open Py Text

/-! ### What can be read -/

/-- The key is one of the strings. -/
def Has (key : String) (ss : Strings) : Prop := ∃ v, (key, v) ∈ ss

section Has

variable {key : String} {ss rest : Strings}

theorem has_append_iff :
  Has key (ss ++ rest) ↔ Has key ss ∨ Has key rest
  := by
  simp only [Has, List.mem_append, exists_or]

theorem has_cons_of_ne {s : String} {v : Option (Json Empty)} (hs : s ≠ key) :
  Has key ((s, v) :: ss) ↔ Has key ss
  := by
  simp only [Has, List.mem_cons, Prod.mk.injEq, hs.symm, false_and, false_or]

theorem not_has_of_ne (h : ∀ x ∈ ss, x.1 ≠ key) :
  ¬ Has key ss
  := by
  rintro ⟨v, hv⟩
  apply h _ hv rfl

theorem valueOf_ok_iff :
  (∃ v, valueOf key ss = .ok v) ↔ Has key ss
  := by
  have hseek : (∃ found, seek key (fun _ => true) ss = some found) ↔ Has key ss := by
    simp only [seek_isSome_iff, and_true, Has]
  rw [← hseek, valueOf]
  rcases seek key (fun _ => true) ss with _ | ⟨v, rest⟩
  · constructor
    · rintro ⟨_, ⟨⟩⟩
    · rintro ⟨_, ⟨⟩⟩
  · exact ⟨fun _ => ⟨_, rfl⟩, fun _ => ⟨_, rfl⟩⟩

theorem intOf_ok_iff :
  (∃ n, intOf key ss = .ok n) ↔ Has key ss
  := Except.exists_map_eq_ok_iff.trans valueOf_ok_iff

theorem strOf_ok_iff :
  (∃ s, strOf key ss = .ok s) ↔ Has key ss
  := Except.exists_map_eq_ok_iff.trans valueOf_ok_iff

theorem pure_ok_iff {α : Type} {a : α} :
  (∃ b, (pure a : Except String α) = .ok b) ↔ True
  := ⟨fun _ => trivial, fun _ => ⟨a, rfl⟩⟩

/-- The offsets of a layer are read just when all four keys are there. -/
theorem offsetsOf_ok_iff :
  (∃ o, offsetsOf ss = .ok o) ↔ Has "w_offset_bytes" ss ∧ Has "meta_offset_bytes" ss
    ∧ Has "w_offset_axi256" ss ∧ Has "meta_offset_axi256" ss
  := by
  rw [offsetsOf, Except.exists_bind_eq_ok_iff fun _ => Except.exists_bind_eq_ok_iff fun _ =>
    Except.exists_bind_eq_ok_iff fun _ => Except.exists_bind_eq_ok_iff fun _ => pure_ok_iff]
  simp only [intOf_ok_iff, and_true]

theorem entryOf_ok_iff :
  (∃ e, entryOf ss = .ok e) ↔ ∀ key ∈ entryKeys, Has key ss
  := by
  rw [entryOf, Except.exists_bind_eq_ok_iff fun _ => Except.exists_bind_eq_ok_iff fun _ =>
    Except.exists_bind_eq_ok_iff fun _ => Except.exists_bind_eq_ok_iff fun _ =>
    Except.exists_bind_eq_ok_iff fun _ => Except.exists_bind_eq_ok_iff fun _ => pure_ok_iff]
  simp only [intOf_ok_iff, strOf_ok_iff, and_true, entryKeys, List.forall_mem_cons,
    List.not_mem_nil, false_implies, implies_true]

theorem axiOf_ok_iff :
  (∃ o, axiOf ss = .ok o) ↔ Has "w_offset_axi256" ss ∧ Has "meta_offset_axi256" ss
  := by
  rw [axiOf, Except.exists_bind_eq_ok_iff fun _ => Except.exists_bind_eq_ok_iff fun _ =>
    pure_ok_iff]
  simp only [intOf_ok_iff, and_true]

end Has

/-! ### The loops -/

section Loops

variable {X : ℕ → Strings} {tail : Strings}

theorem layersOf_succ_ok_iff (hX : ∀ i, ∀ e ∈ X i, e.1 ≠ "layer")
    (hw : Has "w_offset_axi256" tail) (hm : Has "meta_offset_axi256" tail) (k n : ℕ) :
  (∃ l, layersOf k (layerStrings X k (n + 1) ++ tail) = .ok l)
    ↔ (Has "w_offset_bytes" (X k ++ (layerStrings X (k + 1) n ++ tail))
        ∧ Has "meta_offset_bytes" (X k ++ (layerStrings X (k + 1) n ++ tail)))
      ∧ ∃ l, layersOf (k + 1) (layerStrings X (k + 1) n ++ tail) = .ok l
  := by
  have haxi : ∀ {key : String}, Has key tail →
      Has key (X k ++ (layerStrings X (k + 1) n ++ tail)) :=
    fun h => has_append_iff.mpr (Or.inr (has_append_iff.mpr (Or.inr h)))
  have hrest : ∀ o : WeightOffsets,
      (∃ l, (layersOf (k + 1) (layerStrings X (k + 1) n ++ tail)
        >>= fun rest => pure (o :: rest)) = .ok l)
        ↔ ∃ l, layersOf (k + 1) (layerStrings X (k + 1) n ++ tail) = .ok l := by
    intro o
    rw [Except.exists_bind_eq_ok_iff fun _ => pure_ok_iff, and_true]
  rw [layerStrings_succ, List.cons_append, List.append_assoc, layersOf_cons_layer,
    layersOf_append_of_ne (hX k), Except.exists_bind_eq_ok_iff hrest, offsetsOf_ok_iff,
    has_cons_of_ne (by decide), has_cons_of_ne (by decide), has_cons_of_ne (by decide),
    has_cons_of_ne (by decide)]
  simp only [haxi hw, haxi hm, and_true]

/-- The layers are read just when the last one finds its byte offsets: the searches of the
others reach it. -/
theorem layersOf_ok_iff (hX : ∀ i, ∀ e ∈ X i, e.1 ≠ "layer") (htail : ∀ e ∈ tail, e.1 ≠ "layer")
    (hw : Has "w_offset_axi256" tail) (hm : Has "meta_offset_axi256" tail) (k n : ℕ) :
  (∃ l, layersOf k (layerStrings X k (n + 1) ++ tail) = .ok l)
    ↔ Has "w_offset_bytes" (X (k + n) ++ tail) ∧ Has "meta_offset_bytes" (X (k + n) ++ tail)
  := by
  induction n generalizing k with
  | zero =>
      have hnil : ∃ l, layersOf (k + 1) tail = .ok l := ⟨[], layersOf_eq_nil htail⟩
      rw [layersOf_succ_ok_iff hX hw hm]
      apply and_iff_left hnil
  | succ n ih =>
      have hlast : ∀ {key : String}, Has key (X (k + 1 + n) ++ tail) →
          Has key (X k ++ (layerStrings X (k + 1) (n + 1) ++ tail)) := by
        intro key hkey
        apply has_append_iff.mpr
        apply Or.inr
        rcases has_append_iff.mp hkey with ⟨v, hv⟩ | htail'
        · apply has_append_iff.mpr
          apply Or.inl
          use v
          have hmem : k + 1 + n ∈ List.range' (k + 1) (n + 1) := by
            rw [List.mem_range'_1]
            omega
          apply List.mem_flatMap.mpr ⟨k + 1 + n, hmem, List.mem_cons_of_mem _ hv⟩
        · apply has_append_iff.mpr (Or.inr htail')
      have hindex : k + (n + 1) = k + 1 + n := by omega
      rw [layersOf_succ_ok_iff hX hw hm, ih (k + 1), hindex]
      exact ⟨fun h => h.2, fun h => ⟨⟨hlast h.1, hlast h.2⟩, h⟩⟩

/-- The entries of the vision encoder are read when the connector has all keys. -/
theorem visionsOf_ok {left : ℕ} {pre : Strings} (hkeys : ∀ key ∈ entryKeys, Has key tail)
    (htail : ∃ l, visionsOf left tail = .ok l) :
  ∃ l, visionsOf left (pre ++ tail) = .ok l
  := by
  induction pre with
  | nil => exact htail
  | cons x pre ih =>
      obtain ⟨s, v⟩ := x
      rw [List.cons_append]
      by_cases hs : s = "name"
      · rw [visionsOf, if_pos hs]
        split
        · exact ⟨[], rfl⟩
        · have hentry : ∃ e, entryOf ((s, v) :: (pre ++ tail)) = .ok e := by
            rw [entryOf_ok_iff]
            intro key hkey
            obtain ⟨w, hw⟩ := hkeys key hkey
            exact ⟨w, List.mem_cons_of_mem _ (List.mem_append_right pre hw)⟩
          rw [Except.exists_bind_eq_ok_iff fun _ =>
            Except.exists_bind_eq_ok_iff fun _ => pure_ok_iff]
          exact ⟨hentry, ih, trivial⟩
      · rw [visionsOf_cons_of_ne hs]
        apply ih

/-- An entry is found by its name just when that is there, if the connector has all keys. -/
theorem axiOfEntry_ok_iff {name : String} {pre : Strings}
    (hw : Has "w_offset_axi256" tail) (hm : Has "meta_offset_axi256" tail)
    (htail : ∀ v, ("name", v) ∈ tail → strValue v ≠ name) :
  (∃ o, axiOfEntry name (pre ++ tail) = .ok o)
    ↔ ∃ v, ("name", v) ∈ pre ∧ strValue v = name
  := by
  have hfound : (∃ found, seek "name" (strValue · == name) pre = some found)
      ↔ ∃ v, ("name", v) ∈ pre ∧ strValue v = name := by
    simp only [seek_isSome_iff, beq_iff_eq]
  rw [← hfound, axiOfEntry, stringsFromEntry, stringsFrom]
  rcases hseek : seek "name" (strValue · == name) pre with _ | ⟨v, rest⟩
  · have hpre : ∀ x ∈ pre ++ tail, ¬ (x.1 = "name" ∧ (strValue x.2 == name) = true) := by
      rintro ⟨s, v⟩ hx ⟨rfl, hv⟩
      rcases List.mem_append.mp hx with hx | hx
      · have hsome := (seek_isSome_iff (p := (strValue · == name))).mpr ⟨v, hx, hv⟩
        rw [hseek] at hsome
        obtain ⟨found, hfound⟩ := hsome
        cases hfound
      · apply htail v hx (beq_iff_eq.mp hv)
    have hnone := seek_append_of_not (p := (strValue · == name)) hpre []
    rw [List.append_nil] at hnone
    rw [hnone]
    constructor
    · rintro ⟨_, ⟨⟩⟩
    · rintro ⟨_, ⟨⟩⟩
  · rw [seek_append_of_some hseek]
    have haxi : ∃ o, axiOf (("name", v) :: (rest ++ tail)) = .ok o := by
      rw [axiOf_ok_iff, has_cons_of_ne (by decide), has_cons_of_ne (by decide)]
      exact ⟨has_append_iff.mpr (Or.inr hw), has_append_iff.mpr (Or.inr hm)⟩
    exact ⟨fun _ => ⟨_, rfl⟩, fun _ => haxi⟩

end Loops

/-! ### The sections -/

section Sections

variable {scheme : QuantSchemeSpec} {decoder vision : List Fields} {connector : Fields}

/-- A manifest is read when its sections are. -/
theorem GoodManifest.summarize_ok_iff (h : GoodManifest scheme decoder vision connector)
    (exportDir : String) :
  (∃ m, summarize exportDir (manifestStrings scheme decoder vision connector) = .ok m)
    ↔ (∃ l, layersOf 0 (entryStrings decoder ++ visionStrings vision connector) = .ok l)
      ∧ (∃ l, visionsOf (connectorStrings connector).length (visionStrings vision connector)
        = .ok l)
      ∧ (∃ o, axiOfEntry "patch_embed" (visionStrings vision connector) = .ok o)
      ∧ (∃ o, axiOfEntry "blk.0.qkv" (visionStrings vision connector) = .ok o)
      ∧ (∃ o, axiOfEntry "blk.0.attn_out" (visionStrings vision connector) = .ok o)
      ∧ ∃ e, entryOf (connectorStrings connector) = .ok e
  := by
  rw [h.summarize_eq, Except.exists_bind_eq_ok_iff fun _ => Except.exists_bind_eq_ok_iff fun _ =>
    Except.exists_bind_eq_ok_iff fun _ => Except.exists_bind_eq_ok_iff fun _ =>
    Except.exists_bind_eq_ok_iff fun _ => Except.exists_bind_eq_ok_iff fun _ => pure_ok_iff,
    and_true]

theorem GoodManifest.has_connectorStrings_iff (h : GoodManifest scheme decoder vision connector)
    {key : String} (hkey : key ∈ entryKeys) :
  Has key (connectorStrings connector) ↔ key ∈ connector.map Prod.fst
  := by
  have hkeys : ∀ key ∈ entryKeys, key ∈ reservedKeys ∧ "connector" ≠ key := by decide
  obtain ⟨hreserved, hne⟩ := hkeys key hkey
  rw [connectorStrings, has_cons_of_ne hne, has_append_iff,
    or_iff_left (not_has_of_ne (artifactStrings_ne hreserved))]
  apply h.connectorFields.mem_iff hreserved

theorem has_visionStrings {key : String} (h : Has key (connectorStrings connector)) :
  Has key (visionStrings vision connector)
  := by
  obtain ⟨v, hv⟩ := h
  exact ⟨v, List.mem_cons_of_mem _ (List.mem_append_right _ hv)⟩

end Sections

/-! ### Deleted keys -/

theorem mem_keys_deleteKeys {deleted : String → Bool} {fields : Fields} {key : String}
    (hkey : key ∈ requiredKeys) :
  key ∈ (deleteKeys deleted fields).map Prod.fst
    ↔ key ∈ fields.map Prod.fst ∧ deleted key = false
  := by
  have hcontains : requiredKeys.contains key = true := List.contains_iff_mem.mpr hkey
  simp only [deleteKeys, List.mem_map, List.mem_filter]
  constructor
  · rintro ⟨e, ⟨he, hkept⟩, rfl⟩
    rw [hcontains, Bool.true_and, Bool.not_eq_true'] at hkept
    exact ⟨⟨e, he, rfl⟩, hkept⟩
  · rintro ⟨⟨e, he, rfl⟩, hkept⟩
    refine ⟨e, ⟨he, ?_⟩, rfl⟩
    rw [hcontains, hkept]
    rfl

theorem keys_deleteKeys_subset (deleted : String → Bool) (fields : Fields) :
  (deleteKeys deleted fields).map Prod.fst ⊆ fields.map Prod.fst
  := List.map_subset _ (List.filter_subset_self fields)

/-- Nothing is written that was not there before. -/
theorem stringsFields_deleteKeys_subset (deleted : String → Bool) (fields : Fields) :
  Json.stringsFields (deleteKeys deleted fields) ⊆ Json.stringsFields fields
  := by
  intro x hx
  rw [stringsFields_eq] at hx ⊢
  obtain ⟨e, he, hx⟩ := List.mem_flatMap.mp hx
  apply List.mem_flatMap.mpr ⟨e, List.mem_of_mem_filter he, hx⟩

/-- An entry with its number keeps it. -/
theorem deleteKeys_layerManifest (deleted : String → Bool) (quant : String) (offsets : ℕ × ℕ)
    (index : ℕ) :
  deleteKeys deleted (layerManifest quant offsets index)
    = ("layer", .int index) :: deleteKeys deleted (layerManifest quant offsets index).tail
  := by
  have hlayer : requiredKeys.contains "layer" = false := by decide
  rw [layerManifest, deleteKeys, List.filter_cons_of_pos]
  · rfl
  · rw [hlayer]
    rfl

theorem GoodManifest.delete {scheme : QuantSchemeSpec} {decoder vision : List Fields}
    {connector : Fields} (h : GoodManifest scheme decoder vision connector) (del : Deletion) :
  GoodManifest scheme (decoder.mapIdx fun i => deleteKeys (del.decoder i))
    (vision.mapIdx fun i => deleteKeys (del.vision i)) (deleteKeys del.connector connector)
  where
  schemeTexts := h.schemeTexts
  decoderFields := by
    intro e he
    obtain ⟨i, hi, rfl⟩ := List.mem_mapIdx.mp he
    apply (h.decoderFields _ (List.getElem_mem hi)).deleteKeys
  visionFields := by
    intro e he
    obtain ⟨i, hi, rfl⟩ := List.mem_mapIdx.mp he
    apply (h.visionFields _ (List.getElem_mem hi)).deleteKeys
  connectorFields := h.connectorFields.deleteKeys _
  decoderKeys := by
    intro e he
    obtain ⟨i, hi, rfl⟩ := List.mem_mapIdx.mp he
    apply List.Subset.trans (keys_deleteKeys_subset _ _) (h.decoderKeys _ (List.getElem_mem hi))
  visionKeys := by
    intro e he
    obtain ⟨i, hi, rfl⟩ := List.mem_mapIdx.mp he
    apply List.Subset.trans (keys_deleteKeys_subset _ _) (h.visionKeys _ (List.getElem_mem hi))
  connectorKeys := List.Subset.trans (keys_deleteKeys_subset _ _) h.connectorKeys

/-- The strings of the layers that are left. -/
theorem entryStrings_deletedLayers (d : ℕ → String → Bool) (quant : String)
    (offsets : ℕ → ℕ × ℕ) (layers : ℕ) :
  entryStrings ((decoderManifest quant offsets layers).mapIdx fun i => deleteKeys (d i))
    = layerStrings
      (fun i => Json.stringsFields (deleteKeys (d i) (layerManifest quant (offsets i) i).tail))
      0 layers
  := by
  have hmap : (decoderManifest quant offsets layers).mapIdx (fun i => deleteKeys (d i))
      = (List.range layers).map fun i => deleteKeys (d i) (layerManifest quant (offsets i) i) := by
    rw [decoderManifest]
    apply List.ext_getElem
    · simp only [List.length_mapIdx, List.length_map]
    · intro i _ _
      simp only [List.getElem_mapIdx, List.getElem_map, List.getElem_range]
  rw [hmap, entryStrings, List.flatMap_map, List.range_eq_range', layerStrings]
  apply List.flatMap_congr
  intro i _
  rw [deleteKeys_layerManifest]
  rfl

/-! ### The names of the entries -/

theorem takeWhile_isDigit_repr_append (index : ℕ) (rest : List Char) :
  (index.repr.toList ++ '.' :: rest).takeWhile Char.isDigit = index.repr.toList
  := by
  have hdot : ('.' :: rest).takeWhile Char.isDigit = [] := rfl
  rw [List.takeWhile_append_of_pos fun c hc => isDigit_of_mem_repr hc, hdot, List.append_nil]

/-- The name of a matrix tells its block and which one it is. -/
theorem blockName_inj {i j : ℕ} {a b : String}
    (h : "blk." ++ toString i ++ "." ++ a = "blk." ++ toString j ++ "." ++ b) :
  i = j ∧ a = b
  := by
  have hlist := congrArg String.toList h
  rw [toList_blockName, toList_blockName] at hlist
  have hrest := List.append_cancel_left hlist
  have hrepr : i.repr.toList = j.repr.toList := by
    rw [← takeWhile_isDigit_repr_append i a.toList, hrest, takeWhile_isDigit_repr_append]
  constructor
  · rw [← ofDigitChars_repr i, hrepr, ofDigitChars_repr]
  · rw [hrepr] at hrest
    have hdot := List.append_cancel_left hrest
    injection hdot with _ hname
    apply String.toList_inj.mp hname

theorem blockName_ne_patch (index : ℕ) (name : String) :
  "blk." ++ toString index ++ "." ++ name ≠ "patch_embed"
  := by
  intro h
  have hlist := congrArg String.toList h
  rw [toList_blockName] at hlist
  have hhead : some 'b' = some 'p' := congrArg List.head? hlist
  exact absurd hhead (by decide)

/-- The name of an entry of a block. -/
theorem visionManifest_name {offsets : ℕ → ℕ × ℕ} {blocks u : ℕ} {e : VisionEntry}
    (h : (visionManifest offsets blocks)[u + 1]? = some e) :
  ∃ m, visionMatrices[u % 4]? = some m ∧ e.name = "blk." ++ toString (u / 4) ++ "." ++ m.1
  := by
  have hlen := length_visionManifest offsets blocks
  have hu := (List.getElem?_eq_some_iff.mp h).1
  have hblock : ∀ i < blocks, (blockManifest offsets i).length = 4 := fun _ _ => rfl
  have hindex : u / 4 * 4 + u % 4 = u := by omega
  rw [visionManifest, List.getElem?_cons_succ, ← hindex,
    Blocks.getElem?_flatMap_range hblock (by omega) (by omega), blockManifest,
    List.getElem?_map] at h
  obtain ⟨m, hm, rfl⟩ := Option.map_eq_some_iff.mp h
  rw [List.getElem?_zipIdx] at hm
  obtain ⟨m', hm', rfl⟩ := Option.map_eq_some_iff.mp hm
  exact ⟨m', hm', rfl⟩

/-- The names that are searched for, with the places of their entries. -/
def searchedNames : List (ℕ × String) :=
  [(0, "patch_embed"), (1, "blk.0.qkv"), (2, "blk.0.attn_out")]

/-- The place of an entry of the first block. -/
theorem eq_of_blockName {offsets : ℕ → ℕ × ℕ} {blocks i j : ℕ} {e : VisionEntry} {name : String}
    (hj : visionMatrices[j]?.map Prod.fst = some name)
    (he : (visionManifest offsets blocks)[i]? = some e)
    (hname : e.name = "blk." ++ toString 0 ++ "." ++ name) :
  i = j + 1
  := by
  cases i with
  | zero =>
      obtain rfl := Option.some.inj he
      exact absurd hname.symm (blockName_ne_patch 0 name)
  | succ u =>
      obtain ⟨m, hm, hu⟩ := visionManifest_name he
      obtain ⟨hblock, rfl⟩ := blockName_inj (hu.symm.trans hname)
      have hinj : ∀ x < 4, ∀ y < 4, visionMatrices[x]?.map Prod.fst
          = visionMatrices[y]?.map Prod.fst → x = y := by decide
      have hj4 : j < 4 := by
        obtain ⟨m', hm', -⟩ := Option.map_eq_some_iff.mp hj
        exact (List.getElem?_eq_some_iff.mp hm').1
      have heq := hinj (u % 4) (by omega) j hj4 (by rw [hj, hm, Option.map_some])
      omega

/-- No other entry has one of these names. -/
theorem eq_of_searchedName {offsets : ℕ → ℕ × ℕ} {blocks i : ℕ} {e : VisionEntry}
    {s : ℕ × String} (hs : s ∈ searchedNames)
    (he : (visionManifest offsets blocks)[i]? = some e) (hname : e.name = s.2) :
  i = s.1
  := by
  simp only [searchedNames, List.mem_cons, List.not_mem_nil, or_false] at hs
  rcases hs with rfl | rfl | rfl
  · cases i with
    | zero => rfl
    | succ u =>
        obtain ⟨m, -, hu⟩ := visionManifest_name he
        exact absurd (hu.symm.trans hname) (blockName_ne_patch _ _)
  · exact eq_of_blockName rfl he hname
  · exact eq_of_blockName rfl he hname

/-- The entries with these names stand at their places, as far as there are entries. -/
theorem getElem?_searchedName (offsets : ℕ → ℕ × ℕ) {blocks : ℕ} {s : ℕ × String}
    (hs : s ∈ searchedNames) (hblocks : s.1 < 1 + 4 * blocks) :
  ∃ e, (visionManifest offsets blocks)[s.1]? = some e ∧ e.name = s.2
  := by
  simp only [searchedNames, List.mem_cons, List.not_mem_nil, or_false] at hs
  rcases hs with rfl | hs
  · exact ⟨_, rfl, rfl⟩
  · have hone : 1 ≤ blocks := by
      rcases hs with rfl | rfl <;> simp only at hblocks <;> omega
    obtain ⟨b, rfl⟩ := Nat.exists_eq_add_of_le' hone
    obtain ⟨post, hpost⟩ := visionManifest_succ offsets b
    rw [hpost]
    rcases hs with rfl | rfl
    · exact ⟨_, rfl, rfl⟩
    · exact ⟨_, rfl, rfl⟩

/-- One of the names is found just when its entry is there and has kept it. -/
theorem exists_name_iff {offsets : ℕ → ℕ × ℕ} {blocks : ℕ}
    (hgood : ∀ e ∈ visionManifest offsets blocks, GoodEntry e) (d : ℕ → String → Bool)
    {s : ℕ × String} (hs : s ∈ searchedNames) :
  (∃ v, ("name", v) ∈ entryStrings (((visionManifest offsets blocks).map
        VisionEntry.toManifest).mapIdx fun i => deleteKeys (d i)) ∧ strValue v = s.2)
    ↔ s.1 < 1 + 4 * blocks ∧ d s.1 "name" = false
  := by
  constructor
  · rintro ⟨v, hv, hname⟩
    obtain ⟨fields, hfields, hv⟩ := List.mem_flatMap.mp hv
    obtain ⟨i, hi, rfl⟩ := List.mem_mapIdx.mp hfields
    rw [List.length_map] at hi
    rw [List.getElem_map] at hv
    have hentry := hgood _ (List.getElem_mem hi)
    have hkey := (hentry.goodFields.deleteKeys (d i)).mem_iff (by decide : "name" ∈ reservedKeys)
    have hkept := (mem_keys_deleteKeys (by decide)).mp (hkey.mp ⟨v, hv⟩)
    have hvalue : v = some (.str (visionManifest offsets blocks)[i].name) :=
      eq_of_name_mem hentry.name (stringsFields_deleteKeys_subset _ _ hv)
    rw [hvalue] at hname
    rw [← eq_of_searchedName hs (List.getElem?_eq_getElem hi) hname,
      ← length_visionManifest offsets blocks]
    exact ⟨hi, hkept.2⟩
  · rintro ⟨hblocks, hkept⟩
    obtain ⟨e, he, hname⟩ := getElem?_searchedName offsets hs hblocks
    obtain ⟨hi, hei⟩ := List.getElem?_eq_some_iff.mp he
    have hmem : deleteKeys (d s.1) e.toManifest
        ∈ ((visionManifest offsets blocks).map VisionEntry.toManifest).mapIdx
          fun i => deleteKeys (d i) := by
      apply List.mem_mapIdx.mpr
      use s.1, by rwa [List.length_map]
      rw [List.getElem_map, hei]
    have hfield : ("name", Json.str e.name) ∈ deleteKeys (d s.1) e.toManifest := by
      apply List.mem_filter.mpr
      rw [hkept, Bool.and_false]
      exact ⟨List.mem_cons_self, rfl⟩
    refine ⟨some (.str e.name), List.mem_flatMap.mpr ⟨_, hmem, ?_⟩, hname⟩
    rw [stringsFields_eq]
    apply List.mem_flatMap.mpr ⟨_, hfield, List.mem_cons_self⟩

/-! ### Loading -/

section Loading

variable {scheme : QuantSchemeSpec} {decoderOffsets visionOffsets : ℕ → ℕ × ℕ}
  {layers blocks : ℕ}

/-- The keys whose absence is noticed are there: those of the connector, the byte offsets of the
last layer of the decoder, and the names of the entries that are searched for by name. -/
structure KeepsNoticed (del : Deletion) (layers blocks : ℕ) : Prop where
  connector : ∀ key ∈ entryKeys, del.connector key = false
  lastLayer : ∀ l, layers = l + 1 →
    del.decoder l "w_offset_bytes" = false ∧ del.decoder l "meta_offset_bytes" = false
  blocks : 1 ≤ blocks
  names : ∀ i < 3, del.vision i "name" = false

/-- A byte offset is found from a layer on just when the layer has kept it. -/
theorem has_layer_iff {tail : Strings} {key quant : String} {offsets : ℕ × ℕ} {index : ℕ}
    (hkey : key ∈ ["w_offset_bytes", "meta_offset_bytes"]) (htail : ∀ x ∈ tail, x.1 ≠ key)
    (h : GoodFields (layerManifest quant offsets index)) (deleted : String → Bool) :
  Has key (Json.stringsFields (deleteKeys deleted (layerManifest quant offsets index).tail)
      ++ tail)
    ↔ deleted key = false
  := by
  have hkeys : ∀ key ∈ ["w_offset_bytes", "meta_offset_bytes"],
      key ∈ reservedKeys ∧ key ∈ requiredKeys
        ∧ key ∈ ["w_offset_bytes", "meta_offset_bytes", "w_offset_axi256",
          "meta_offset_axi256", "quant"] := by decide
  obtain ⟨hreserved, hrequired, hmem⟩ := hkeys key hkey
  have htailfields : GoodFields (layerManifest quant offsets index).tail :=
    fun e he => h e (List.mem_of_mem_tail he)
  have hmemiff := (htailfields.deleteKeys deleted).mem_iff hreserved
  rw [has_append_iff, or_iff_left (not_has_of_ne htail), Has, hmemiff,
    mem_keys_deleteKeys hrequired]
  apply and_iff_right hmem

/-- The layers that are left are read just when the last one has kept its byte offsets. -/
theorem layersOf_deleted_ok_iff {quant : String} {tail : Strings} (hquant : IsText quant)
    (hdecoder : GoodByteOffsets decoderOffsets layers)
    (htail : ∀ key ∈ ["layer", "w_offset_bytes", "meta_offset_bytes"], ∀ x ∈ tail, x.1 ≠ key)
    (hw : Has "w_offset_axi256" tail) (hm : Has "meta_offset_axi256" tail)
    (d : ℕ → String → Bool) :
  (∃ l, layersOf 0 (entryStrings ((decoderManifest quant decoderOffsets layers).mapIdx
        fun i => deleteKeys (d i)) ++ tail) = .ok l)
    ↔ ∀ l, layers = l + 1 → d l "w_offset_bytes" = false ∧ d l "meta_offset_bytes" = false
  := by
  have hlayer := htail "layer" (by decide)
  rw [entryStrings_deletedLayers]
  cases layers with
  | zero => exact ⟨fun _ l h => absurd h (by omega), fun _ => ⟨[], layersOf_eq_nil hlayer⟩⟩
  | succ n =>
      have hX : ∀ i, ∀ x ∈ Json.stringsFields (deleteKeys (d i)
          (layerManifest quant (decoderOffsets i) i).tail), x.1 ≠ "layer" := by
        intro i x hx
        apply layerTail_ne hquant (decoderOffsets i) i
        apply stringsFields_deleteKeys_subset _ _ hx
      have hoffsets := hdecoder n (by omega)
      have hfields : GoodFields (layerManifest quant (decoderOffsets n) n) :=
        goodFields_layerManifest hquant hoffsets.1 hoffsets.2
      rw [layersOf_ok_iff hX hlayer hw hm, Nat.zero_add,
        has_layer_iff (by decide) (htail _ (by decide)) hfields,
        has_layer_iff (by decide) (htail _ (by decide)) hfields]
      constructor
      · intro h l hl
        obtain rfl : n = l := by omega
        apply h
      · intro h
        apply h n rfl

/-- The only name behind the entries is that of the connector. -/
theorem eq_of_name_mem_connectorStrings {e : VisionEntry} (he : IsText e.name)
    (deleted : String → Bool) {v : Option (Json Empty)}
    (hv : ("name", v) ∈ connectorStrings (deleteKeys deleted e.toManifest)) :
  v = some (.str e.name)
  := by
  rw [connectorStrings] at hv
  rcases List.mem_cons.mp hv with heq | hv
  · have hname : "name" = "connector" := congrArg Prod.fst heq
    exact absurd hname (by decide)
  · rcases List.mem_append.mp hv with hv | hv
    · apply eq_of_name_mem he
      apply stringsFields_deleteKeys_subset _ _ hv
    · have hname : "name" ∈ reservedKeys := by decide
      exact absurd rfl (artifactStrings_ne hname _ hv)

/-- A manifest with missing keys is read, unless one that is noticed is missing. -/
theorem readManifest_deleted_ok_iff (hscheme : scheme ∈ schemeRegistry)
    (hdecoder : GoodByteOffsets decoderOffsets layers)
    (hvision : GoodOffsets visionOffsets (1 + 4 * blocks)) (del : Deletion)
    (exportDir : String) :
  (∃ m, readManifest exportDir
      ((deletedManifest del scheme decoderOffsets layers visionOffsets blocks).dumps 0) = .ok m)
    ↔ KeepsNoticed del layers blocks
  := by
  have hexport := goodManifest_export hscheme hdecoder hvision
  have hgood := hexport.delete del
  have hquant : IsText scheme.weightFormat := isText_of_mem_registry scheme hscheme _
    (List.mem_cons_of_mem _ List.mem_cons_self)
  have hconnector : ∀ key ∈ entryKeys,
      Has key (connectorStrings (deleteKeys del.connector connectorEntry.toManifest))
        ↔ del.connector key = false := by
    intro key hkey
    have hrequired : key ∈ requiredKeys :=
      (by decide : ∀ key ∈ entryKeys, key ∈ requiredKeys) key hkey
    rw [hgood.has_connectorStrings_iff hkey, mem_keys_deleteKeys hrequired]
    apply and_iff_right hkey
  -- what is missing in the other entries is found in the connector, if it has its keys
  have hlayers : (∀ key ∈ entryKeys,
      Has key (connectorStrings (deleteKeys del.connector connectorEntry.toManifest))) → _ :=
    fun hkeys => layersOf_deleted_ok_iff hquant hdecoder (fun key => hgood.visionStrings_ne)
      (has_visionStrings (hkeys _ (by decide))) (has_visionStrings (hkeys _ (by decide)))
      del.decoder
  have hnames : (∀ key ∈ entryKeys,
      Has key (connectorStrings (deleteKeys del.connector connectorEntry.toManifest))) →
      ∀ s ∈ searchedNames, (∃ o, axiOfEntry s.2
        (visionStrings (((visionManifest visionOffsets blocks).map VisionEntry.toManifest).mapIdx
            fun i => deleteKeys (del.vision i))
          (deleteKeys del.connector connectorEntry.toManifest)) = .ok o)
        ↔ s.1 < 1 + 4 * blocks ∧ del.vision s.1 "name" = false := by
    intro hkeys s hs
    rw [← exists_name_iff (goodEntry_visionManifest hvision) del.vision hs, visionStrings,
      axiOfEntry_cons_of_ne (by decide)]
    apply axiOfEntry_ok_iff (hkeys _ (by decide)) (hkeys _ (by decide))
    intro v hv
    rw [eq_of_name_mem_connectorStrings goodEntry_connector.name _ hv]
    exact (by decide : ∀ s ∈ searchedNames, "connector.projector" ≠ s.2) s hs
  rw [deletedManifest, hgood.readManifest_eq, hgood.summarize_ok_iff, entryOf_ok_iff]
  constructor
  · rintro ⟨hl, -, hpatch, hqkv, hattn, hkeys⟩
    have hpatch := ((hnames hkeys (0, "patch_embed") (by decide)).mp hpatch).2
    have hqkv := (hnames hkeys (1, "blk.0.qkv") (by decide)).mp hqkv
    have hattn := ((hnames hkeys (2, "blk.0.attn_out") (by decide)).mp hattn).2
    refine ⟨fun key hkey => (hconnector key hkey).mp (hkeys key hkey), (hlayers hkeys).mp hl, ?_,
      ?_⟩
    · have hone := hqkv.1
      simp only at hone
      omega
    · intro i hi
      obtain rfl | rfl | rfl : i = 0 ∨ i = 1 ∨ i = 2 := by omega
      · apply hpatch
      · apply hqkv.2
      · apply hattn
  · intro h
    have hkeys := fun key hkey => (hconnector key hkey).mpr (h.connector key hkey)
    have hblocks := h.blocks
    have hname : ∀ s ∈ searchedNames, s.1 < 1 + 4 * blocks ∧ del.vision s.1 "name" = false := by
      intro s hs
      have hthree : s.1 < 3 := (by decide : ∀ s ∈ searchedNames, s.1 < 3) s hs
      exact ⟨by omega, h.names s.1 hthree⟩
    refine ⟨(hlayers hkeys).mpr h.lastLayer, ?_,
      (hnames hkeys (0, "patch_embed") (by decide)).mpr (hname _ (by decide)),
      (hnames hkeys (1, "blk.0.qkv") (by decide)).mpr (hname _ (by decide)),
      (hnames hkeys (2, "blk.0.attn_out") (by decide)).mpr (hname _ (by decide)), hkeys⟩
    rw [visionStrings, visionsOf_cons_of_ne (by decide)]
    apply visionsOf_ok hkeys ⟨[], visionsOf_connectorStrings _⟩

/-- The loop over the artifacts succeeds just when they are all there. -/
theorem foldlM_fileSize_ok_iff {exportDir : String} {sizes : String → Option ℕ}
    (names : List String) (bytes : String → Option ℕ) :
  (∃ b, names.foldlM
      (fun bytes name => do
        let n ← manifestFileSize sizes (exportDir ++ "/" ++ name)
        pure (Function.update bytes name (some n)))
      bytes = .ok b)
    ↔ ∀ name ∈ names, (sizes (exportDir ++ "/" ++ name)).isSome = true
  := by
  constructor
  · rintro ⟨b, hb⟩
    induction names generalizing bytes with
    | nil => nofun
    | cons name names ih =>
        rw [List.foldlM_cons, bind_assoc, manifestFileSize] at hb
        rcases hsize : sizes (exportDir ++ "/" ++ name) with _ | n
        · rw [hsize] at hb
          cases hb
        · rw [hsize] at hb
          rw [List.forall_mem_cons, hsize]
          exact ⟨rfl, ih _ hb⟩
  · intro h
    exact ⟨_, foldlM_fileSize h bytes⟩

/-- Which manifests with missing keys are refused. -/
theorem loadHardwareManifest_deleted_ok_iff (hscheme : scheme ∈ schemeRegistry)
    (hdecoder : GoodByteOffsets decoderOffsets layers)
    (hvision : GoodOffsets visionOffsets (1 + 4 * blocks)) (del : Deletion) {exportDir : String}
    {texts : String → Option (List Char)} {sizes : String → Option ℕ}
    (htext : texts (manifestPath exportDir texts) = some
      ((deletedManifest del scheme decoderOffsets layers visionOffsets blocks).dumps 0)) :
  (∃ m, loadHardwareManifest exportDir texts sizes = .ok m)
    ↔ KeepsNoticed del layers blocks
      ∧ ∀ name ∈ manifestArtifacts, (sizes (exportDir ++ "/" ++ name)).isSome = true
  := by
  have hread := readManifest_deleted_ok_iff hscheme hdecoder hvision del exportDir
  have hfiles : (∃ b, readArtifactBytes exportDir sizes = .ok b)
      ↔ ∀ name ∈ manifestArtifacts, (sizes (exportDir ++ "/" ++ name)).isSome = true :=
    foldlM_fileSize_ok_iff manifestArtifacts _
  generalize (deletedManifest del scheme decoderOffsets layers visionOffsets blocks).dumps 0 = text
    at htext hread
  rw [loadHardwareManifest, manifestSlurp, htext]
  change (∃ m, (readManifest exportDir text >>= _) = .ok m) ↔ _
  rw [Except.exists_bind_eq_ok_iff fun _ => Except.exists_bind_eq_ok_iff fun _ => pure_ok_iff,
    hread, and_true, hfiles]

end Loading

/-! ### Refusals -/

/-- A required key is deleted from an entry that has it. -/
def Incomplete (del : Deletion) (layers blocks : ℕ) : Prop :=
  (∃ i < layers, ∃ key ∈ requiredKeys, key ∈ layerKeys ∧ del.decoder i key = true)
    ∨ (∃ i < 1 + 4 * blocks, ∃ key ∈ requiredKeys, key ∈ entryKeys ∧ del.vision i key = true)
    ∨ ∃ key ∈ requiredKeys, key ∈ entryKeys ∧ del.connector key = true

/-- Incomplete manifests are refused. -/
def RefusesIncomplete : Prop :=
  ∀ scheme ∈ schemeRegistry, ∀ (decoderOffsets : ℕ → ℕ × ℕ) (layers : ℕ)
    (visionOffsets : ℕ → ℕ × ℕ) (blocks : ℕ),
    GoodByteOffsets decoderOffsets layers → GoodOffsets visionOffsets (1 + 4 * blocks) →
    ∀ del : Deletion, Incomplete del layers blocks →
    ∀ (exportDir : String) (texts : String → Option (List Char)) (sizes : String → Option ℕ),
      texts (manifestPath exportDir texts) = some
        ((deletedManifest del scheme decoderOffsets layers visionOffsets blocks).dumps 0) →
      ∃ e, loadHardwareManifest exportDir texts sizes = .error e

/-- A manifest with missing keys is refused just when one of them is noticed, or when an
artifact is missing. -/
theorem loadHardwareManifest_refuses_iff {scheme : QuantSchemeSpec}
    {decoderOffsets visionOffsets : ℕ → ℕ × ℕ} {layers blocks : ℕ}
    (hscheme : scheme ∈ schemeRegistry) (hdecoder : GoodByteOffsets decoderOffsets layers)
    (hvision : GoodOffsets visionOffsets (1 + 4 * blocks)) (del : Deletion) {exportDir : String}
    {texts : String → Option (List Char)} {sizes : String → Option ℕ}
    (htext : texts (manifestPath exportDir texts) = some
      ((deletedManifest del scheme decoderOffsets layers visionOffsets blocks).dumps 0)) :
  (∃ e, loadHardwareManifest exportDir texts sizes = .error e)
    ↔ (∃ key ∈ entryKeys, del.connector key = true)
      ∨ (∃ l, layers = l + 1
        ∧ (del.decoder l "w_offset_bytes" = true ∨ del.decoder l "meta_offset_bytes" = true))
      ∨ blocks = 0
      ∨ (∃ i < 3, del.vision i "name" = true)
      ∨ ∃ name ∈ manifestArtifacts, sizes (exportDir ++ "/" ++ name) = none
  := by
  have hload : (∃ m, loadHardwareManifest exportDir texts sizes = .ok m) ↔ _ :=
    loadHardwareManifest_deleted_ok_iff hscheme hdecoder hvision del htext
  rw [Except.exists_eq_error_iff, hload]
  constructor
  · intro h
    by_contra hnot
    simp only [not_or, not_exists, not_and, Bool.not_eq_true, Option.ne_none_iff_isSome] at hnot
    obtain ⟨hconnector, hlast, hblocks, hnames, hfiles⟩ := hnot
    apply h
    exact ⟨⟨hconnector, hlast, Nat.one_le_iff_ne_zero.mpr hblocks, hnames⟩, hfiles⟩
  · rintro h ⟨hkeeps, hfiles⟩
    rcases h with ⟨key, hkey, hdel⟩ | ⟨l, hl, hdel⟩ | hblocks | ⟨i, hi, hdel⟩ | ⟨name, hname, hsize⟩
    · rw [hkeeps.connector key hkey] at hdel
      cases hdel
    · obtain ⟨hw, hm⟩ := hkeeps.lastLayer l hl
      rw [hw, hm] at hdel
      rcases hdel with hdel | hdel
      · cases hdel
      · cases hdel
    · have hpos := hkeeps.blocks
      omega
    · rw [hkeeps.names i hi] at hdel
      cases hdel
    · have hsome := hfiles name hname
      rw [hsize] at hsome
      cases hsome

/-- It is refused when the connector has no `M`. -/
theorem loadHardwareManifest_refuses_connector :
  ∃ e, loadHardwareManifest "export"
    (sampleTexts ((deletedManifest ⟨fun _ _ => false, fun _ _ => false, fun key => key == "M"⟩
      schemeRegistry[0] (fun _ => (0, 0)) 1 (fun _ => (0, 0)) 1).dumps 0))
    sampleSizes = .error e
  := by
  have hzero : GoodByteOffsets (fun _ => (0, 0)) 1 := by
    intro i _
    simp only
    omega
  have hvision : GoodOffsets (fun _ => (0, 0)) (1 + 4 * 1) := by
    intro i _
    simp only
    omega
  apply (loadHardwareManifest_refuses_iff (List.getElem_mem _) hzero hvision _
    (sampleTexts_eq _ _)).mpr
  apply Or.inl ⟨"M", by decide, rfl⟩

/-! ### An incomplete manifest that is loaded -/

/-- Offsets of layers of the size of those of the decoder. -/
def sampleOffsets (i : ℕ) : ℕ × ℕ := (2457600 * i, 307200 * i)

/-- The second layer has no offset of its weights in words. -/
def sampleDeletion : Deletion where
  decoder i key := i == 1 && key == "w_offset_axi256"
  vision _ _ := false
  connector _ := false

/-- The manifest of two layers and one block. -/
def sampleText : List Char :=
  (deletedManifest sampleDeletion schemeRegistry[1] sampleOffsets 2 sampleOffsets 1).dumps 0

theorem goodByteOffsets_sample :
  GoodByteOffsets sampleOffsets 2
  := by
  intro i hi
  simp only [sampleOffsets]
  omega

theorem goodOffsets_sample :
  GoodOffsets sampleOffsets (1 + 4 * 1)
  := by
  intro i hi
  simp only [sampleOffsets]
  omega

theorem sampleScheme_mem :
  schemeRegistry[1] ∈ schemeRegistry
  := List.getElem_mem _

/-- With the key deleted the second layer is given the offset of the first matrix of the vision
encoder. -/
theorem loadHardwareManifest_sampleText :
  ∃ m, loadHardwareManifest "export" (sampleTexts sampleText) sampleSizes = .ok m
    ∧ m.decoderLayers.map WeightOffsets.wgtAxi = [0, 0]
  := by
  have hgood := (goodManifest_export sampleScheme_mem goodByteOffsets_sample
    goodOffsets_sample).delete sampleDeletion
  have hread : (readManifest "export" sampleText).map
      (fun m => m.decoderLayers.map WeightOffsets.wgtAxi) = .ok [0, 0] := by
    rw [sampleText, deletedManifest, hgood.readManifest_eq]
    rfl
  obtain ⟨m, hm, hlayers⟩ := Except.map_eq_ok_iff.mp hread
  have hfiles : ∀ name ∈ manifestArtifacts,
      (sampleSizes ("export" ++ "/" ++ name)).isSome = true := fun _ _ => rfl
  exact ⟨_, loadHardwareManifest_of_readManifest (sampleTexts_eq _ _) hm hfiles, hlayers⟩

theorem not_refusesIncomplete :
  ¬ RefusesIncomplete
  := by
  intro h
  obtain ⟨m, hm, -⟩ := loadHardwareManifest_sampleText
  have hincomplete : Incomplete sampleDeletion 2 1 :=
    Or.inl ⟨1, by decide, "w_offset_axi256", by decide, by decide, by decide⟩
  obtain ⟨e, he⟩ := h _ sampleScheme_mem _ _ _ _ goodByteOffsets_sample goodOffsets_sample
    sampleDeletion hincomplete "export" (sampleTexts sampleText) sampleSizes rfl
  rw [hm] at he
  cases he

end Kv260.Manifest
