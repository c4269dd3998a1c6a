import SmolVlm2Kv260.Export.SavedState

/-!
# The replay of the exporter's own output

The replay of an export with the saved state of its student passes exactly when the quantiser
rounds the weight of every module as it rounds the effective weight: it says nothing about
low-rank factors and AWQ scales that change a code.  A scheme without a KV260 export has no
layers to compare, and passes on the files of an export before it.
-/

set_option autoImplicit false

namespace Kv260

open Py Checker Report Blocks

/-! ### Equal files -/

/-- Two rows have the same codes and the same scales. -/
def SameCodes (m : LayerMatrix) (v w : ℕ → ℚ) : Prop :=
  (∀ c < m.inCols, rtnStored grp v c = rtnStored grp w c)
    ∧ ∀ g < m.groups, rtnScaleByte grp v g = rtnScaleByte grp w g

/-- Sequences of parts of the same lengths are equal when the parts are. -/
theorem flatMap_inj {α β : Type} {l : List β} {f g : β → List α}
    (h : ∀ x ∈ l, (f x).length = (g x).length) :
  l.flatMap f = l.flatMap g ↔ ∀ x ∈ l, f x = g x
  := by
  induction l with
  | nil => exact iff_of_true rfl nofun
  | cons x l ih =>
      obtain ⟨hx, hl⟩ := List.forall_mem_cons.mp h
      rw [List.flatMap_cons, List.flatMap_cons, List.forall_mem_cons, ← ih hl]
      constructor
      · intro heq
        apply List.append_inj heq hx
      · rintro ⟨hhead, htail⟩
        rw [hhead, htail]

theorem rtnPacked_eq_iff {v w : ℕ → ℚ} {b : ℕ} :
  rtnPacked grp v b = rtnPacked grp w b
    ↔ rtnStored grp v (2 * b) = rtnStored grp w (2 * b)
      ∧ rtnStored grp v (2 * b + 1) = rtnStored grp w (2 * b + 1)
  := by
  constructor
  · intro h
    have hcolumn : ∀ j, j / 2 = b → rtnStored grp v j = rtnStored grp w j := by
      rintro j rfl
      apply BitVec.eq_of_getLsbD_eq
      intro i _
      rcases Nat.lt_or_ge i 4 with low | high
      · rw [← rtnPacked_getLsbD v j low, h, rtnPacked_getLsbD w j low]
      · have hzero : ∀ u : ℕ → ℚ, (rtnStored grp u j).getLsbD i = false := by
          intro u
          apply Nat.testBit_lt_two_pow
          calc (rtnStored grp u j).toNat
              < 2 ^ 4 := rtnStored_lt u j
            _ ≤ 2 ^ i := Nat.pow_le_pow_right (by decide) high
        rw [hzero, hzero]
    exact ⟨hcolumn _ (by omega), hcolumn _ (by omega)⟩
  · rintro ⟨heven, hodd⟩
    rw [rtnPacked, heven, hodd, rtnPacked]

/-- The packed bytes of two rows are equal when their codes are. -/
theorem packedRow_eq_iff {k : ℕ} (heven : 2 ∣ k) {v w : ℕ → ℚ} :
  packedRow k v = packedRow k w ↔ ∀ c < k, rtnStored grp v c = rtnStored grp w c
  := by
  rw [packedRow, packedRow, List.map_inj_left]
  simp only [List.mem_range, rtnPacked_eq_iff]
  constructor
  · intro h c hc
    obtain ⟨heven, hodd⟩ := h (c / 2) (by omega)
    rcases Nat.mod_two_eq_zero_or_one c with hmod | hmod
    · rwa [show 2 * (c / 2) = c by omega] at heven
    · rwa [show 2 * (c / 2) + 1 = c by omega] at hodd
  · intro h b hb
    exact ⟨h _ (by omega), h _ (by omega)⟩

theorem metaRow_eq_iff {k : ℕ} {v w : ℕ → ℚ} :
  metaRow k v = metaRow k w ↔ ∀ g < k / grp, rtnScaleByte grp v g = rtnScaleByte grp w g
  := by
  have hlength : ∀ u : ℕ → ℚ, ∀ g < k / grp, (metaBlock u g).length = 2 := fun _ _ _ => rfl
  have hinj := flatMap_range_inj (hlength v) (hlength w)
  simp only [metaBlock, List.cons.injEq, and_true] at hinj
  exact hinj

/-- The halves have all rows. -/
theorem forall_halfRows {n : ℕ} {P : ℕ → Prop} :
  (∀ h, ∀ row ∈ halfRows n h, P row) ↔ ∀ row < n, P row
  := by
  have hone : (1 : Fin 2) ≠ 0 := by decide
  simp only [Fin.forall_fin_two, halfRows, if_true, if_neg hone, List.mem_map, List.mem_range,
    forall_exists_index, and_imp, forall_apply_eq_imp_iff₂]
  constructor
  · rintro ⟨hfirst, hsecond⟩ row hrow
    rcases Nat.lt_or_ge row (n / 2) with low | high
    · exact hfirst row low
    · have hrest := hsecond (row - n / 2) (by omega)
      rwa [Nat.add_sub_cancel' high] at hrest
  · intro h
    exact ⟨fun row hrow => h row (by omega), fun i hi => h _ (by omega)⟩

/-- Half a layer is determined row by row. -/
theorem flatMap_layer_inj {f g : LayerMatrix → ℕ → List (BitVec 8)} (h : Fin 2)
    (hlength : ∀ m row, (f m row).length = (g m row).length) :
  (LayerMatrix.all.flatMap fun m => (halfRows m.outCols h).flatMap (f m))
      = (LayerMatrix.all.flatMap fun m => (halfRows m.outCols h).flatMap (g m))
    ↔ ∀ m : LayerMatrix, ∀ row ∈ halfRows m.outCols h, f m row = g m row
  := by
  have hall : ∀ m : LayerMatrix, m ∈ LayerMatrix.all := by
    intro m
    cases m <;> decide
  rw [flatMap_inj]
  · simp only [hall, true_implies]
    apply forall_congr'
    intro m
    apply flatMap_inj
    intro row _
    apply hlength
  · intro m _
    rw [List.length_flatMap, List.length_flatMap]
    simp only [hlength]

/-- The bytes of two layers are equal when the rows of their matrices have the same codes. -/
theorem halves_eq_iff {V W : LayerWeights} :
  (∀ h, weightHalf h V = weightHalf h W ∧ metaHalf h V = metaHalf h W)
    ↔ ∀ m : LayerMatrix, ∀ row < m.outCols, SameCodes m (V m row) (W m row)
  := by
  have hpacked : ∀ (k : ℕ) (v : ℕ → ℚ), (packedRow k v).length = k / 2 := by
    intro k v
    rw [packedRow, List.length_map, List.length_range]
  have hmeta : ∀ (k : ℕ) (v : ℕ → ℚ), (metaRow k v).length = k / grp * 2 := fun k v =>
    length_flatMap_range fun _ _ => rfl
  have hweight : ∀ h, weightHalf h V = weightHalf h W ↔ ∀ m : LayerMatrix,
      ∀ row ∈ halfRows m.outCols h,
        packedRow m.inCols (V m row) = packedRow m.inCols (W m row) := by
    intro h
    apply flatMap_layer_inj h
    intro m row
    rw [hpacked, hpacked]
  have hscales : ∀ h, metaHalf h V = metaHalf h W ↔ ∀ m : LayerMatrix,
      ∀ row ∈ halfRows m.outCols h, metaRow m.inCols (V m row) = metaRow m.inCols (W m row) := by
    intro h
    apply flatMap_layer_inj h
    intro m row
    rw [hmeta, hmeta]
  have heven : ∀ m : LayerMatrix, 2 ∣ m.inCols := by
    intro m
    cases m <;> decide
  simp only [hweight, hscales, packedRow_eq_iff (heven _), metaRow_eq_iff]
  constructor
  · intro h m
    rw [← forall_halfRows]
    intro half row hrow
    exact ⟨(h half).1 m row hrow, (h half).2 m row hrow⟩
  · intro h half
    have hboth := fun m => forall_halfRows.mpr (h m)
    exact ⟨fun m row hrow => (hboth m half row hrow).1, fun m row hrow => (hboth m half row hrow).2⟩

/-! ### Steps of the replay -/

section Steps

variable {α : Type} {a : α}

theorem passes_ofPy {x : Except PyError α} :
  (ofPy x).Passes a ↔ x = .ok a
  := by
  cases x with
  | ok b =>
      change (Report.ofExcept (.ok b) : Replay α).Passes a ↔ _
      rw [passes_ofExcept, Except.ok.injEq, Except.ok.injEq]
  | error e => exact ⟨nofun, nofun⟩

theorem passes_readBytes {dir : ExportDir Empty} {name : String} {bytes : List (BitVec 8)} :
  (readBytes dir name).Passes bytes ↔ dir.files name = some bytes
  := by
  rcases h : dir.files name with _ | found
  · simp only [readBytes, h, passes_ofExcept, reduceCtorEq]
  · simp only [readBytes, h, passes_ofExcept, Except.ok.injEq, Option.some.injEq]

/-- The bytes are at their offset. -/
theorem passes_compareSlice {label : String} {expected blob : List (BitVec 8)} {offset : ℕ} :
  (compareSlice label expected blob offset).Passes ()
    ↔ (blob.drop offset).take expected.length = expected
  := by
  have hslice : blobSlice blob offset (offset + expected.length)
      = (blob.drop offset).take expected.length := by
    have hstart : ¬ ((offset : ℤ) < 0) := by omega
    have hstop : ¬ ((offset : ℤ) + expected.length < 0) := by omega
    have hfirst : (min (offset : ℤ) blob.length).toNat = min offset blob.length := by omega
    have hlast : (min ((offset : ℤ) + expected.length) blob.length).toNat
        = min (offset + expected.length) blob.length := by omega
    simp only [blobSlice, if_neg hstart, if_neg hstop, hfirst, hlast, List.drop_take]
    rcases Nat.le_total offset blob.length with inside | outside
    · rw [Nat.min_eq_left inside, List.take_eq_take_iff, List.length_drop]
      omega
    · rw [Nat.min_eq_right outside, List.drop_length, List.drop_of_length_le outside,
        List.take_nil, List.take_nil]
  rw [compareSlice, passes_expect, hslice, beq_iff_eq]

/-- An item of a list. -/
theorem nth_natCast {items : List α} {i : ℕ} (h : items[i]? = some a) :
  nth items i = .ok a
  := by
  have hindex : ¬ ((i : ℤ) < 0) := by omega
  simp only [nth, if_neg hindex, Int.toNat_natCast, h]

end Steps

/-- A layer with an entry is compared at its offsets. -/
theorem passes_replayLayer {state : StateDict} {groupSize : ℤ} {files bytes : LayerBytes}
    {manifest entry : Json Empty} {entries : List (Json Empty)} {layer wOffset metaOffset : ℕ}
    (hlayers : manifest.getItem "decoder_layers" = .ok (.list entries))
    (hentry : entries[layer]? = some entry)
    (hw : entry.getItem "w_offset_bytes" = .ok (.int wOffset))
    (hmeta : entry.getItem "meta_offset_bytes" = .ok (.int metaOffset))
    (hbytes : quantizeDecoderLayer state layer groupSize = .ok bytes) :
  (replayLayer state groupSize files manifest layer).Passes ()
    ↔ ∀ h, ((files.wgt h).drop wOffset).take (bytes.wgt h).length = bytes.wgt h
      ∧ ((files.scales h).drop metaOffset).take (bytes.scales h).length = bytes.scales h
  := by
  have hitem : itemAt (.list entries) layer = .ok entry := nth_natCast hentry
  have hhasW := contains_of_getItem hw
  have hhasMeta := contains_of_getItem hmeta
  have hasW : asInt (.int wOffset) = .ok (wOffset : ℤ) := rfl
  have hasMeta : asInt (.int metaOffset) = .ok (metaOffset : ℤ) := rfl
  simp only [replayLayer, ↓passes_seq, passes_bind, passes_ofPy, passes_ofExcept, hlayers, hitem,
    hhasW, hhasMeta, hw, hmeta, hasW, hasMeta, hbytes, Except.ok.injEq, exists_eq_left',
    if_true, Bool.not_true, Bool.false_eq_true, if_false, passes_compareSlice]
  rw [Fin.forall_fin_two]
  constructor
  · rintro ⟨hw0, hw1, hm0, hm1⟩
    exact ⟨⟨hw0, hm0⟩, hw1, hm1⟩
  · rintro ⟨⟨hw0, hm0⟩, hw1, hm1⟩
    exact ⟨hw0, hw1, hm0, hm1⟩

/-- The names of the files of the decoder. -/
def decoderFiles : List String :=
  ["weights_half0.bin", "weights_half1.bin", "meta_half0.bin", "meta_half1.bin"]

theorem passes_readDecoderFiles {dir : ExportDir Empty} {files : LayerBytes} :
  (readDecoderFiles dir).Passes files
    ↔ dir.files "weights_half0.bin" = some (files.wgt 0)
      ∧ dir.files "weights_half1.bin" = some (files.wgt 1)
      ∧ dir.files "meta_half0.bin" = some (files.scales 0)
      ∧ dir.files "meta_half1.bin" = some (files.scales 1)
  := by
  simp only [readDecoderFiles, passes_bind, passes_readBytes, passes_pure]
  constructor
  · rintro ⟨w0, hw0, w1, hw1, m0, hm0, m1, hm1, rfl⟩
    exact ⟨hw0, hw1, hm0, hm1⟩
  · rintro ⟨hw0, hw1, hm0, hm1⟩
    refine ⟨_, hw0, _, hw1, _, hm0, _, hm1, ?_⟩
    obtain ⟨wgt, scales⟩ := files
    have hwgt : ![wgt 0, wgt 1] = wgt := by
      funext h
      fin_cases h <;> rfl
    have hscales : ![scales 0, scales 1] = scales := by
      funext h
      fin_cases h <;> rfl
    rw [hwgt, hscales]

/-! ### The replay of an export -/

section Exported

variable (student : Student) (scheme : QuantSchemeSpec) (before : ExportDir Empty)

/-- The files of the export. -/
theorem files_exportKv260W4a8Bundle (m : ExportedModel) {name : String}
    {bytes : List (BitVec 8)} (h : (name, bytes) ∈ m.artifacts) :
  (m.exportKv260W4a8Bundle scheme before).files name = some bytes
  := by
  have hnames : (m.artifacts.map Prod.fst).Nodup := by
    have hartifacts : m.artifacts.map Prod.fst = manifestArtifacts := rfl
    rw [hartifacts]
    decide
  have hfind : (m.artifacts.find? fun e => e.1 == name) = some (name, bytes) := by
    rw [← List.head?_filter, filter_key hnames h]
    rfl
  rw [ExportedModel.exportKv260W4a8Bundle]
  dsimp only
  rw [hfind]
  rfl

/-- The files of the decoder. -/
theorem decoderFiles_exportKv260W4a8Bundle :
  (student.exported.exportKv260W4a8Bundle scheme before).files "weights_half0.bin"
      = some (weightsFile 0 student.exported.decoder student.layers)
    ∧ (student.exported.exportKv260W4a8Bundle scheme before).files "weights_half1.bin"
      = some (weightsFile 1 student.exported.decoder student.layers)
    ∧ (student.exported.exportKv260W4a8Bundle scheme before).files "meta_half0.bin"
      = some (metaFile 0 student.exported.decoder student.layers)
    ∧ (student.exported.exportKv260W4a8Bundle scheme before).files "meta_half1.bin"
      = some (metaFile 1 student.exported.decoder student.layers)
  := by
  refine ⟨?_, ?_, ?_, ?_⟩
  all_goals
    apply files_exportKv260W4a8Bundle scheme before student.exported
    simp [ExportedModel.artifacts, Student.exported]

/-- The head is exported as it is saved. -/
theorem passes_replayLmhead :
  (replayLmhead student.stateDict grp
    (student.exported.exportKv260W4a8Bundle scheme before)).Passes ()
  := by
  have hflat : ∀ f : ℕ → List (BitVec 8), ((List.range 49280).map f).flatten
      = (halfRows vocab 0).flatMap f ++ (halfRows vocab 1).flatMap f := by
    intro f
    rw [flatMap_halves, List.flatMap_def]
  have hquantize : quantizeMatrix ⟨[49280, 960], matrixEntries student.lmHead⟩ grp
      = .ok (lmheadWgtHalf 0 student.exported.lmhead ++ lmheadWgtHalf 1 student.exported.lmhead,
          lmheadMetaHalf 0 student.exported.lmhead
            ++ lmheadMetaHalf 1 student.exported.lmhead) := by
    have hcols : grp ∣ 960 := by decide
    rw [quantizeMatrix, npQuantizeW4Rtn_matrix _ (OfNat.ofNat_ne_zero _) hcols]
    change Except.ok (_, _) = _
    rw [hflat, hflat]
    rfl
  have hsplit : ∀ a b : List (BitVec 8), a.length = b.length →
      (a ++ b).take ((a ++ b).length / 2) = a ∧ (a ++ b).drop ((a ++ b).length / 2) = b := by
    intro a b hlength
    have hhalf : (a ++ b).length / 2 = a.length := by
      rw [List.length_append]
      omega
    rw [hhalf]
    exact ⟨List.take_left, List.drop_left⟩
  obtain ⟨hwgt0, hwgt1⟩ := hsplit (lmheadWgtHalf 0 student.exported.lmhead)
    (lmheadWgtHalf 1 student.exported.lmhead) (by rw [length_lmheadWgtHalf, length_lmheadWgtHalf])
  obtain ⟨hmeta0, hmeta1⟩ := hsplit (lmheadMetaHalf 0 student.exported.lmhead)
    (lmheadMetaHalf 1 student.exported.lmhead)
    (by rw [length_lmheadMetaHalf, length_lmheadMetaHalf])
  have hfile : ∀ {name bytes}, (name, bytes) ∈ student.exported.artifacts →
      (student.exported.exportKv260W4a8Bundle scheme before).files name = some bytes :=
    fun hmem => files_exportKv260W4a8Bundle scheme before student.exported hmem
  have hself : ∀ (label : String) (bytes : List (BitVec 8)),
      (compareSlice label bytes bytes 0).Passes () := by
    intro label bytes
    change (compareSlice label bytes bytes (0 : ℕ)).Passes ()
    rw [passes_compareSlice, List.drop_zero, List.take_length]
  simp only [replayLmhead, ↓passes_seq, passes_bind, passes_ofExcept, student.findKey_stateDict,
    hquantize, Except.ok.injEq, exists_eq_left', passes_readBytes, hwgt0, hwgt1, hmeta0, hmeta1]
  exact ⟨_, hfile (by simp [ExportedModel.artifacts]), hself _ _,
    _, hfile (by simp [ExportedModel.artifacts]), hself _ _,
    _, hfile (by simp [ExportedModel.artifacts]), hself _ _,
    _, hfile (by simp [ExportedModel.artifacts]), hself _ _⟩

/-- The sizes of a layer in the files. -/
theorem length_halves (h : Fin 2) (W : LayerWeights) :
  (weightHalf h W).length = 2457600 ∧ (metaHalf h W).length = 307200
  := by
  have hwgt := length_weightsFile h (fun _ => W) 1
  have hscales := length_metaFile h (fun _ => W) 1
  rw [weightsFile, List.range_one, List.flatMap_singleton, Nat.one_mul] at hwgt
  rw [metaFile, List.range_one, List.flatMap_singleton, Nat.one_mul] at hscales
  exact ⟨hwgt, hscales⟩

/-- The files hold a layer at its offset. -/
theorem take_drop_files {l n : ℕ} (hl : l < n) (h : Fin 2) (W : ℕ → LayerWeights) :
  ((weightsFile h W n).drop (l * 2457600)).take 2457600 = weightHalf h (W l)
    ∧ ((metaFile h W n).drop (l * 307200)).take 307200 = metaHalf h (W l)
  := by
  constructor
  · apply take_drop_flatMap_range (fun i _ => (length_halves h (W i)).1) hl
  · apply take_drop_flatMap_range (fun i _ => (length_halves h (W i)).2) hl

/-- A layer of the export is compared with the weights of its modules. -/
theorem passes_replayLayer_iff {l : ℕ} (hl : l < student.layers) {files : LayerBytes}
    (hfiles : ∀ h, files.wgt h = weightsFile h student.exported.decoder student.layers
      ∧ files.scales h = metaFile h student.exported.decoder student.layers) :
  (replayLayer student.stateDict grp files (student.exported.manifest scheme) l).Passes ()
    ↔ ∀ m : LayerMatrix, ∀ row < m.outCols,
      SameCodes m (student.savedWeights l m row) (student.exported.decoder l m row)
  := by
  obtain ⟨-, hlayers, -, -, -⟩ := student.exported.getItem_manifest scheme
  have hentry : ((List.range student.exported.layers).map
      (student.exported.decoderLayer scheme))[l]?
        = some (student.exported.decoderLayer scheme l) := by
    have hrange : (List.range student.exported.layers)[l]? = some l := List.getElem?_range hl
    rw [List.getElem?_map, hrange]
    rfl
  have hints := student.exported.hasInts_decoderLayer scheme l
  simp only [decoderFields, HasInts, List.forall_mem_cons] at hints
  obtain ⟨-, hw, hmeta, -⟩ := hints
  have hwOffset : (2457600 : ℤ) * l = (l * 2457600 : ℕ) := by push_cast; ring
  have hmetaOffset : (307200 : ℤ) * l = (l * 307200 : ℕ) := by push_cast; ring
  rw [hwOffset] at hw
  rw [hmetaOffset] at hmeta
  rw [passes_replayLayer hlayers hentry hw hmeta (student.quantizeDecoderLayer_stateDict hl),
    ← halves_eq_iff]
  apply forall_congr'
  intro h
  obtain ⟨hwgt, hscales⟩ := hfiles h
  obtain ⟨hlenWgt, hlenScales⟩ := length_halves h (student.savedWeights l)
  obtain ⟨hcutWgt, hcutScales⟩ := take_drop_files hl h student.exported.decoder
  dsimp only
  rw [hwgt, hscales, hlenWgt, hlenScales, hcutWgt, hcutScales]
  exact and_congr eq_comm eq_comm

/-- What is read before the layers. -/
theorem passes_replayExport_iff {dir : ExportDir Empty} {state : StateDict} {checkLmhead : Bool}
    {manifest : Json Empty} {total : ℕ} (hmanifest : dir.manifest = some (.ok manifest))
    (hscheme : manifest.getItem "scheme" = .ok (.dict scheme.toManifest))
    (htotal : ∃ layers, manifest.get "decoder_layers" (.list []) = .ok layers
      ∧ pyLen layers = .ok total) :
  (replayExport ⟨.all, checkLmhead⟩ state dir).Passes ()
    ↔ ∃ files, (readDecoderFiles dir).Passes files
      ∧ (∀ l < total, (replayLayer state scheme.groupSize files manifest l).Passes ())
      ∧ (checkLmhead = true → (replayLmhead state scheme.groupSize dir).Passes ())
  := by
  obtain ⟨layers, hlayers, hlen⟩ := htotal
  have hread : readManifest dir = ofPy (.ok manifest) := by rw [readManifest, hmanifest]
  have hgroup : (Json.dict scheme.toManifest).getItem "group_size"
      = .ok (.int scheme.groupSize) := rfl
  have hint : asInt (.int scheme.groupSize) = .ok (scheme.groupSize : ℤ) := rfl
  simp only [replayExport, ↓passes_seq, passes_bind, passes_ofPy, passes_ofExcept, hread, hscheme,
    hgroup, hint, hlayers, hlen, Except.ok.injEq, exists_eq_left', parseLayers, passes_forM,
    List.forall_mem_map, List.mem_range]
  cases checkLmhead with
  | false =>
      simp only [Bool.false_eq_true, if_false, false_implies, passes_pure, and_true]
      rfl
  | true =>
      simp only [if_true, true_implies]
      rfl

/-- For a scheme with a KV260 export, the replay of all layers passes exactly when every row of
every matrix of every layer gets the same codes and scales from the saved weights as from the
exported ones. -/
theorem replayExport_passes_iff (checkLmhead : Bool) (hgroup : scheme.groupSize = grp) :
  (replayExport ⟨.all, checkLmhead⟩ student.stateDict
      (student.exported.exportKv260W4a8Bundle scheme before)).Passes ()
    ↔ ∀ l < student.layers, ∀ m : LayerMatrix, ∀ row < m.outCols,
      SameCodes m (student.savedWeights l m row) (student.exported.decoder l m row)
  := by
  obtain ⟨-, hlayers, -, -, -⟩ := student.exported.getItem_manifest scheme
  have hscheme : (student.exported.manifest scheme).getItem "scheme"
      = .ok (.dict scheme.toManifest) := rfl
  have hlength : pyLen (.list ((List.range student.exported.layers).map
      (student.exported.decoderLayer scheme))) = .ok student.layers := by
    rw [pyLen, List.length_map, List.length_range]
    rfl
  have hread : ∀ files : LayerBytes,
      (readDecoderFiles (student.exported.exportKv260W4a8Bundle scheme before)).Passes files
        ↔ ∀ h, files.wgt h = weightsFile h student.exported.decoder student.layers
          ∧ files.scales h = metaFile h student.exported.decoder student.layers := by
    intro files
    obtain ⟨hw0, hw1, hm0, hm1⟩ := decoderFiles_exportKv260W4a8Bundle student scheme before
    rw [passes_readDecoderFiles, Fin.forall_fin_two, hw0, hw1, hm0, hm1]
    simp only [Option.some.injEq]
    constructor
    · rintro ⟨hw0, hw1, hm0, hm1⟩
      exact ⟨⟨hw0.symm, hm0.symm⟩, hw1.symm, hm1.symm⟩
    · rintro ⟨⟨hw0, hm0⟩, hw1, hm1⟩
      exact ⟨hw0.symm, hw1.symm, hm0.symm, hm1.symm⟩
  rw [passes_replayExport_iff scheme rfl hscheme ⟨_, get_of_getItem hlayers, hlength⟩, hgroup]
  constructor
  · rintro ⟨files, hfiles, hpasses, -⟩ l hl
    rw [← passes_replayLayer_iff student scheme hl ((hread files).mp hfiles)]
    apply hpasses l hl
  · intro h
    refine ⟨⟨fun half => weightsFile half student.exported.decoder student.layers,
      fun half => metaFile half student.exported.decoder student.layers⟩, ?_, ?_, ?_⟩
    · exact (hread _).mpr fun _ => ⟨rfl, rfl⟩
    · intro l hl
      exact (passes_replayLayer_iff student scheme hl fun _ => ⟨rfl, rfl⟩).mpr (h l hl)
    · intro _
      apply passes_replayLmhead

/-- For every student, every scheme and every directory that the export is written to, the
replay of all layers passes exactly when no row changes its codes and scales by what is folded
into it.  Without a KV260 export nothing is compared but the head, and the replay passes on
files that were there before. -/
theorem replayExport_exportHardwareBundle_iff (scheme : GroupedScheme) (checkLmhead : Bool) :
  (replayExport ⟨.all, checkLmhead⟩ student.stateDict
      (student.exported.exportHardwareBundle scheme.toQuantSchemeSpec before)).Passes ()
    ↔ if scheme.exportMode.startsWith "kv260_w4a8" = true then
        ∀ l < student.layers, ∀ m : LayerMatrix, ∀ row < m.outCols,
          SameCodes m (student.savedWeights l m row) (student.exported.decoder l m row)
      else (∀ name ∈ decoderFiles, (before.files name).isSome = true)
        ∧ (checkLmhead = true
          → (replayLmhead student.stateDict scheme.groupSize before).Passes ())
  := by
  rw [ExportedModel.exportHardwareBundle]
  split
  · rename_i hmode
    apply replayExport_passes_iff
    apply scheme.groups hmode
  · have hscheme : (ExportedModel.replayManifest scheme.toQuantSchemeSpec).getItem "scheme"
        = .ok (.dict scheme.toManifest) := rfl
    have hempty : (ExportedModel.replayManifest scheme.toQuantSchemeSpec).get "decoder_layers"
        (.list []) = .ok (.list []) := rfl
    rw [passes_replayExport_iff scheme.toQuantSchemeSpec rfl hscheme ⟨_, hempty, rfl⟩]
    simp only [List.length_nil, Nat.not_lt_zero, false_implies, implies_true, true_and,
      passes_readDecoderFiles, decoderFiles, List.forall_mem_cons, Option.isSome_iff_exists]
    constructor
    · rintro ⟨files, ⟨hw0, hw1, hm0, hm1⟩, hhead⟩
      exact ⟨⟨⟨_, hw0⟩, ⟨_, hw1⟩, ⟨_, hm0⟩, ⟨_, hm1⟩, List.forall_mem_nil _⟩, hhead⟩
    · rintro ⟨⟨⟨w0, hw0⟩, ⟨w1, hw1⟩, ⟨m0, hm0⟩, ⟨m1, hm1⟩, -⟩, hhead⟩
      exact ⟨⟨![w0, w1], ![m0, m1]⟩, ⟨hw0, hw1, hm0, hm1⟩, hhead⟩

end Exported

end Kv260
