import SmolVlm2Kv260.Export.Replay

/-!
# The saved state of the student

The student that the pipeline exports is also saved as a checkpoint.  The replay finds the
weight of every module under the path of its layer, where no other tensor has its name, and
quantises the layers with the weights of the modules.
-/

set_option autoImplicit false

namespace Kv260

open Py Checker Report Blocks Matrix

/-! ### The student -/

/-- The entries of a matrix. -/
def matrixEntries {rows cols : ℕ} (M : Matrix (Fin rows) (Fin cols) ℚ) (i j : ℕ) : ℚ :=
  if h : i < rows ∧ j < cols then M ⟨i, h.1⟩ ⟨j, h.2⟩ else 0

/-- The entries of a vector, in every row. -/
def vectorEntries {n : ℕ} (v : Fin n → ℚ) (_ j : ℕ) : ℚ := if h : j < n then v ⟨j, h⟩ else 0

/-- A layer of the text model. -/
abbrev TextLayer : Type := DecoderLayer 960 960 320 2560

/-- The matrices of a layer, for what is read of its modules. -/
def layerMatrices (read : ∀ {i o : ℕ}, QuantizedLinear i o → Matrix (Fin o) (Fin i) ℚ)
    (layer : TextLayer) : LayerWeights
  | .qkv => stackRows 960 (matrixEntries (read layer.qProj))
      (stackRows 320 (matrixEntries (read layer.kProj)) (matrixEntries (read layer.vProj)))
  | .o => matrixEntries (read layer.oProj)
  | .gateUp => stackRows 2560 (matrixEntries (read layer.gateProj))
      (matrixEntries (read layer.upProj))
  | .down => matrixEntries (read layer.downProj)

/-- The tensors of a module. -/
def moduleState {i o : ℕ} (name : String) (m : QuantizedLinear i o) : StateDict :=
  (name ++ ".weight", ⟨[o, i], matrixEntries m.weight⟩)
    :: ((match m.bias with
        | none => []
        | some bias => [(name ++ ".bias", ⟨[o], vectorEntries bias⟩)])
      ++ (match m.lora with
        | none => []
        | some lora => [(name ++ ".lora_a", ⟨[lora.rank, i], matrixEntries lora.loraA⟩),
            (name ++ ".lora_b", ⟨[o, lora.rank], matrixEntries lora.loraB⟩)])
      ++ [(name ++ ".awq_input_scale", ⟨[i], vectorEntries m.awqInputScale⟩),
        (name ++ ".has_awq_scale", ⟨[], fun _ _ => m.hasAwqScale.toNat⟩)])

/-- The tensors of a layer. -/
def layerState (layer : TextLayer) : StateDict :=
  moduleState "self_attn.q_proj" layer.qProj
    ++ (moduleState "self_attn.k_proj" layer.kProj
    ++ (moduleState "self_attn.v_proj" layer.vProj
    ++ (moduleState "self_attn.o_proj" layer.oProj
    ++ (moduleState "mlp.gate_proj" layer.gateProj
    ++ (moduleState "mlp.up_proj" layer.upProj
    ++ (moduleState "mlp.down_proj" layer.downProj
    ++ [("input_layernorm.weight", ⟨[960], vectorEntries layer.inputLayernorm⟩),
      ("post_attention_layernorm.weight",
        ⟨[960], vectorEntries layer.postAttentionLayernorm⟩)]))))))

/-- The path of a layer. -/
def textPath (l : ℕ) : String := "model.text_model.layers." ++ toString (l : ℤ) ++ "."

/-- The student, after its linear modules were wrapped.  The head is not wrapped.  No other
tensor is named like a weight of a layer of the text model, or like the head. -/
structure Student where
  layers : ℕ
  layer : ℕ → TextLayer
  lmHead : Matrix (Fin 49280) (Fin 960) ℚ
  blocks : ℕ
  vision : List VisionMatrix
  vision_shapes : (vision.map fun m => (m.name, m.kDim, m.nDim)) = encoderShapes blocks
  connector : ℕ → ℕ → ℚ
  others : StateDict
  others_names : ∀ e ∈ others, keyEndsWith "lm_head.weight" e.1 = false
    ∧ ∀ layer, ∀ entry ∈ decoderLayerKeys, ∀ suffix ∈ entry.2, isTextKey layer suffix e.1 = false

namespace Student

variable (student : Student)

/-- What is exported. -/
def exported : ExportedModel where
  layers := student.layers
  decoder l := layerMatrices QuantizedLinear.exportFpWeight (student.layer l)
  norms :=
    { attn := fun l => vectorEntries (student.layer l).inputLayernorm 0
      ffn := fun l => vectorEntries (student.layer l).postAttentionLayernorm 0 }
  blocks := student.blocks
  vision := student.vision
  vision_shapes := student.vision_shapes
  connector := student.connector
  lmhead := matrixEntries student.lmHead

/-- The weights of the modules of a layer, as they are saved. -/
def savedWeights (l : ℕ) : LayerWeights :=
  layerMatrices QuantizedLinear.weight (student.layer l)

/-- `state_dict`. -/
def stateDict : StateDict :=
  ((List.range student.layers).flatMap fun l =>
      (layerState (student.layer l)).map fun e => (textPath l ++ e.1, e.2))
    ++ ("lm_head.weight", ⟨[49280, 960], matrixEntries student.lmHead⟩) :: student.others

end Student

/-! ### Keys -/

/-- The names of the tensors of a layer. -/
def layerNames : List String :=
  (["self_attn.q_proj", "self_attn.k_proj", "self_attn.v_proj", "self_attn.o_proj",
    "mlp.gate_proj", "mlp.up_proj", "mlp.down_proj"].flatMap fun name =>
      [name ++ ".weight", name ++ ".bias", name ++ ".lora_a", name ++ ".lora_b",
        name ++ ".awq_input_scale", name ++ ".has_awq_scale"])
    ++ ["input_layernorm.weight", "post_attention_layernorm.weight"]

theorem sublist_moduleState {i o : ℕ} (name : String) (m : QuantizedLinear i o) :
  ((moduleState name m).map Prod.fst).Sublist
    [name ++ ".weight", name ++ ".bias", name ++ ".lora_a", name ++ ".lora_b",
      name ++ ".awq_input_scale", name ++ ".has_awq_scale"]
  := by
  have hbias : ((match m.bias with
      | none => []
      | some bias => [(name ++ ".bias", ⟨[o], vectorEntries bias⟩)] : StateDict).map
        Prod.fst).Sublist [name ++ ".bias"] := by
    cases m.bias with
    | none => exact List.nil_sublist _
    | some bias => exact List.Sublist.refl _
  have hlora : ((match m.lora with
      | none => []
      | some lora => [(name ++ ".lora_a", ⟨[lora.rank, i], matrixEntries lora.loraA⟩),
          (name ++ ".lora_b", ⟨[o, lora.rank], matrixEntries lora.loraB⟩)] : StateDict).map
        Prod.fst).Sublist [name ++ ".lora_a", name ++ ".lora_b"] := by
    cases m.lora with
    | none => exact List.nil_sublist _
    | some lora => exact List.Sublist.refl _
  rw [moduleState, List.map_cons, List.map_append, List.map_append]
  exact ((hbias.append hlora).append (List.Sublist.refl _)).cons_cons _

/-- The names of a layer are all different. -/
theorem sublist_layerState (layer : TextLayer) :
  ((layerState layer).map Prod.fst).Sublist layerNames
  := by
  simp only [layerState, List.map_append]
  iterate 7
    apply List.Sublist.append (sublist_moduleState _ _)
  apply List.Sublist.refl

theorem nodup_layerNames :
  layerNames.Nodup
  := by decide +kernel

/-- In a list without repeated keys, one entry has a given key. -/
theorem filter_key {β : Type} {entries : List (String × β)} (h : (entries.map Prod.fst).Nodup)
    {e : String × β} (he : e ∈ entries) :
  (entries.filter fun e' => e'.1 == e.1) = [e]
  := by
  induction entries with
  | nil => cases he
  | cons e' entries ih =>
      rw [List.map_cons, List.nodup_cons] at h
      obtain ⟨hfresh, hnodup⟩ := h
      rcases List.mem_cons.mp he with rfl | he
      · have hnone : (entries.filter fun e' => e'.1 == e.1) = [] := by
          rw [List.filter_eq_nil_iff]
          intro e' he' hkey
          apply hfresh
          rw [← beq_iff_eq.mp hkey]
          apply List.mem_map_of_mem he'
        rw [List.filter_cons_of_pos (by rw [beq_self_eq_true]), hnone]
      · have hne : e'.1 ≠ e.1 := by
          intro heq
          apply hfresh
          rw [heq]
          apply List.mem_map_of_mem he
        rw [List.filter_cons_of_neg (by rwa [beq_iff_eq]), ih hnodup he]

/-- Two keys whose last dots are at different places are not suffixes of each other. -/
theorem eq_of_suffix_of_dot {A d e B : List Char} (hd : '.' ∉ d) (he : '.' ∉ e)
    (h : A ++ '.' :: d <:+ B ++ '.' :: e) :
  d = e
  := by
  have hd' : '.' :: d <:+ B ++ '.' :: e := (List.suffix_append A _).trans h
  have he' : '.' :: e <:+ B ++ '.' :: e := List.suffix_append B _
  rcases List.suffix_or_suffix_of_suffix hd' he' with hle | hle
  · rcases List.suffix_cons_iff.mp hle with heq | hle
    · injection heq
    · exact absurd (hle.subset List.mem_cons_self) he
  · rcases List.suffix_cons_iff.mp hle with heq | hle
    · injection heq with _ heq
      exact heq.symm
    · exact absurd (hle.subset List.mem_cons_self) hd

/-- The names by which the weights of a layer are looked up. -/
def weightNames : List String := decoderLayerKeys.flatMap Prod.snd

/-- A name that follows a path is found under no other name, and in no other layer. -/
theorem keyEndsWith_textPath (path : String) {suffix name : String} {layer layer' : ℤ}
    (hsuffix : suffix ∈ weightNames) (hname : name ∈ layerNames)
    (h : keyEndsWith (path ++ "." ++ toString layer ++ "." ++ suffix)
      ("model.text_model.layers." ++ toString layer' ++ "." ++ name) = true) :
  toString layer = toString layer' ∧ suffix = name
  := by
  have hdot : ∀ n : ℤ, '.' ∉ (toString n).toList := by
    intro n hmem
    exact absurd (Text.isDecimal_of_mem_toString hmem) (by decide)
  have hnames : ∀ suffix ∈ weightNames, ∀ name ∈ layerNames,
      '.' :: suffix.toList <:+ '.' :: name.toList ∨ '.' :: name.toList <:+ '.' :: suffix.toList →
        suffix = name := by decide +kernel
  have hkey : (path.toList ++ '.' :: (toString layer).toList) ++ '.' :: suffix.toList
      <:+ ("model.text_model.layers".toList ++ '.' :: (toString layer').toList)
        ++ '.' :: name.toList := by
    have hpath : "model.text_model.layers.".toList
        = "model.text_model.layers".toList ++ ['.'] := rfl
    have hdots : ".".toList = ['.'] := rfl
    rw [keyEndsWith, List.isSuffixOf_iff_suffix] at h
    simpa only [String.toList_append, hpath, hdots, List.append_assoc, List.cons_append,
      List.nil_append] using h
  have hsame : suffix = name := by
    apply hnames suffix hsuffix name hname
    apply List.suffix_or_suffix_of_suffix ((List.suffix_append _ _).trans hkey)
      (List.suffix_append _ _)
  subst hsame
  obtain ⟨front, hfront⟩ := hkey
  rw [← List.append_assoc] at hfront
  have hdigits := eq_of_suffix_of_dot (hdot layer) (hdot layer')
    ⟨front, List.append_cancel_right hfront⟩
  exact ⟨String.toList_inj.mp hdigits, rfl⟩

/-- The weights of the layers are found by their layer and name. -/
theorem isTextKey_textPath {suffix name : String} {l l' : ℕ} (hsuffix : suffix ∈ weightNames)
    (hname : name ∈ layerNames) :
  isTextKey l suffix (textPath l' ++ name) = true ↔ l = l' ∧ suffix = name
  := by
  constructor
  · intro h
    rw [isTextKey, List.any_eq_true] at h
    obtain ⟨tail, htail, hends⟩ := h
    have hfound : toString (l : ℤ) = toString (l' : ℤ) ∧ suffix = name := by
      simp only [textTails, List.mem_cons, List.not_mem_nil, or_false] at htail
      rcases htail with rfl | rfl | rfl
      · exact keyEndsWith_textPath "text_model.layers" hsuffix hname hends
      · exact keyEndsWith_textPath "language_model.model.layers" hsuffix hname hends
      · exact keyEndsWith_textPath "model.text_model.layers" hsuffix hname hends
    obtain ⟨hdigits, hsame⟩ := hfound
    have hrepr : l.repr = l'.repr := hdigits
    refine ⟨?_, hsame⟩
    rw [← Text.ofDigitChars_repr l, hrepr, Text.ofDigitChars_repr]
  · rintro ⟨rfl, rfl⟩
    rw [isTextKey, List.any_eq_true]
    use "model.text_model.layers." ++ toString (l : ℤ) ++ "." ++ suffix
    refine ⟨by simp [textTails], ?_⟩
    rw [keyEndsWith, List.isSuffixOf_iff_suffix]
    apply List.suffix_refl

/-- One part of a sequence is not empty. -/
theorem flatMap_range_of_single {α : Type} {n l : ℕ} {f : ℕ → List α} (hl : l < n)
    (h : ∀ i < n, i ≠ l → f i = []) :
  (List.range n).flatMap f = f l
  := by
  have hbelow : (List.range l).flatMap f = [] := by
    rw [List.flatMap_eq_nil_iff]
    intro i hi
    apply h i ((List.mem_range.mp hi).trans hl) (List.mem_range.mp hi).ne
  have habove : ((List.range (n - l - 1)).flatMap fun i => f (l + 1 + i)) = [] := by
    rw [List.flatMap_eq_nil_iff]
    intro i hi
    rw [List.mem_range] at hi
    apply h _ (by omega) (by omega)
  rw [flatMap_range_split f (Nat.succ_le_of_lt hl), Nat.sub_succ', habove, List.append_nil,
    List.range_succ, List.flatMap_append, hbelow, List.nil_append, List.flatMap_singleton]

namespace Student

variable (student : Student)

/-- The key of the head is too short for a weight of a layer. -/
theorem isTextKey_lmHead (layer : ℤ) (suffix : String) :
  isTextKey layer suffix "lm_head.weight" = false
  := by
  rw [← Bool.not_eq_true, isTextKey, List.any_eq_true]
  rintro ⟨tail, htail, hends⟩
  rw [keyEndsWith, List.isSuffixOf_iff_suffix] at hends
  have hshort : "lm_head.weight".toList.length = 14 := rfl
  have hfirst : "text_model.layers.".toList.length = 18 := rfl
  have hsecond : "language_model.model.layers.".toList.length = 28 := rfl
  have hthird : "model.text_model.layers.".toList.length = 24 := rfl
  have hle := hends.length_le
  simp only [textTails, List.mem_cons, List.not_mem_nil, or_false] at htail
  rcases htail with rfl | rfl | rfl
  all_goals
    simp only [String.toList_append, List.length_append] at hle
    omega

theorem layerWeight_stateDict {l : ℕ} (hl : l < student.layers) {suffix : String}
    {t : StateTensor} (hsuffix : suffix ∈ weightNames)
    (ht : (suffix, t) ∈ layerState (student.layer l)) :
  layerWeight student.stateDict l suffix = .ok t
  := by
  have hnames : ∀ l', ∀ e ∈ layerState (student.layer l'), e.1 ∈ layerNames := fun l' e he =>
    (sublist_layerState _).subset (List.mem_map_of_mem he)
  have hlayer : ∀ l', ((layerState (student.layer l')).map fun e =>
      (textPath l' ++ e.1, e.2)).filter (fun e => isTextKey l suffix e.1)
      = if l' = l then [(textPath l ++ suffix, t)] else [] := by
    intro l'
    rw [List.filter_map]
    split
    · rename_i heq
      subst heq
      have hkey : (layerState (student.layer l')).filter
          ((fun e => isTextKey l' suffix e.1) ∘ fun e => (textPath l' ++ e.1, e.2))
          = (layerState (student.layer l')).filter fun e => e.1 == suffix := by
        apply List.filter_congr
        intro e he
        rw [Function.comp_apply, Bool.eq_iff_iff, isTextKey_textPath hsuffix (hnames l' e he),
          beq_iff_eq, and_iff_right rfl, eq_comm]
      rw [hkey, filter_key ((sublist_layerState _).nodup nodup_layerNames) ht]
      rfl
    · rename_i hne
      rw [List.map_eq_nil_iff, List.filter_eq_nil_iff]
      intro e he
      rw [Function.comp_apply, isTextKey_textPath hsuffix (hnames l' e he)]
      rintro ⟨rfl, -⟩
      exact hne rfl
  have hothers : student.others.filter (fun e => isTextKey l suffix e.1) = [] := by
    rw [List.filter_eq_nil_iff]
    intro e he
    obtain ⟨entry, hentry, hmem⟩ := List.mem_flatMap.mp hsuffix
    rw [(student.others_names e he).2 l entry hentry suffix hmem]
    exact Bool.false_ne_true
  have hfound : student.stateDict.filter (fun e => isTextKey l suffix e.1)
      = [(textPath l ++ suffix, t)] := by
    rw [stateDict, List.filter_append, List.filter_flatMap]
    simp only [hlayer]
    rw [flatMap_range_of_single hl fun i _ hne => if_neg hne, if_pos rfl, List.filter_cons_of_neg
      (by rw [isTextKey_lmHead]; exact Bool.false_ne_true), hothers, List.append_nil]
  rw [layerWeight, hfound]

/-- The head is found by its key. -/
theorem findKey_stateDict :
  findKey student.stateDict "lm_head.weight"
    = .ok ⟨[49280, 960], matrixEntries student.lmHead⟩
  := by
  have hnames : ∀ name ∈ layerNames, "lm_head.weight".toList.length ≤ name.toList.length
      ∧ ¬ "lm_head.weight".toList <:+ name.toList := by decide +kernel
  have hlayers : ((List.range student.layers).flatMap fun l =>
      (layerState (student.layer l)).map fun e => (textPath l ++ e.1, e.2)).filter
        (fun e => keyEndsWith "lm_head.weight" e.1) = [] := by
    rw [List.filter_eq_nil_iff]
    intro e he
    obtain ⟨l, -, he⟩ := List.mem_flatMap.mp he
    obtain ⟨e, hmem, rfl⟩ := List.mem_map.mp he
    obtain ⟨hlength, hno⟩ :=
      hnames e.1 ((sublist_layerState _).subset (List.mem_map_of_mem hmem))
    rw [keyEndsWith, List.isSuffixOf_iff_suffix, String.toList_append]
    intro hends
    apply hno
    apply List.suffix_of_suffix_length_le hends (List.suffix_append _ _) hlength
  have hothers : student.others.filter (fun e => keyEndsWith "lm_head.weight" e.1) = [] := by
    rw [List.filter_eq_nil_iff]
    intro e he
    rw [(student.others_names e he).1]
    exact Bool.false_ne_true
  have hkey : keyEndsWith "lm_head.weight" "lm_head.weight" = true := by decide
  have hfound : student.stateDict.filter (fun e => keyEndsWith "lm_head.weight" e.1)
      = [("lm_head.weight", ⟨[49280, 960], matrixEntries student.lmHead⟩)] := by
    rw [stateDict, List.filter_append, hlayers, List.nil_append, List.filter_cons_of_pos
      (by exact hkey), hothers]
  rw [findKey, hfound]

end Student

/-! ### The quantised layers -/

/-- A matrix is stacked on others with as many columns. -/
theorem concatRows_cons {rows rows' cols : ℕ} (f : ℕ → ℕ → ℚ) {g : ℕ → ℕ → ℚ} (u : StateTensor)
    (rest : List StateTensor) (h : concatRows (u :: rest) = .ok ⟨[rows', cols], g⟩) :
  concatRows (⟨[rows, cols], f⟩ :: u :: rest)
    = .ok ⟨[rows + rows', cols], stackRows rows f g⟩
  := by
  rw [concatRows, h]
  change (if cols = cols then _ else _) = _
  rw [if_pos rfl]

/-- A matrix with whole groups is quantised row by row. -/
theorem npQuantizeW4Rtn_matrix {rows cols : ℕ} (W : ℕ → ℕ → ℚ) (hrows : rows ≠ 0)
    (hcols : grp ∣ cols) :
  npQuantizeW4Rtn ⟨[rows, cols], W⟩ grp
    = .ok ⟨(List.range rows).map fun r => packedRow cols (W r),
        (List.range rows).map fun r => metaRow cols (W r)⟩
  := by
  have hgrp : (grp : ℤ) ≠ 0 := by decide
  have hmod : (cols : ℤ) % grp = 0 := Int.emod_eq_zero_of_dvd (by exact_mod_cast hcols)
  have hpos : ¬ ((grp : ℤ) < 0 ∨ rows = 0) := by
    rintro (hneg | hzero)
    · exact absurd hneg (by decide)
    · exact hrows hzero
  have hnat : (grp : ℤ).toNat = grp := rfl
  simp only [npQuantizeW4Rtn, if_neg hgrp, hmod, ne_eq, not_true_eq_false, if_false, if_neg hpos,
    hnat]
  rfl

/-- Half of the rows. -/
theorem halfOf_map_range (h : Fin 2) (rows : ℕ) (f : ℕ → List (BitVec 8)) :
  halfOf h ((List.range rows).map f) = (halfRows rows h).flatMap f
  := by
  have hsplit : List.range rows
      = List.range (rows / 2) ++ (List.range (rows - rows / 2)).map (rows / 2 + ·) := by
    rw [← List.range_add, Nat.add_sub_cancel' (Nat.div_le_self rows 2)]
  have hlength : (List.range (rows / 2)).length = rows / 2 := List.length_range
  rw [halfOf, halfRows, List.length_map, List.length_range, ← List.map_take, ← List.map_drop,
    hsplit, List.take_left' hlength, List.drop_left' hlength]
  split
  · rw [List.flatMap_def]
  · rw [List.flatMap_def]

namespace Student

variable (student : Student)

/-- The tensors of the weights of a layer. -/
theorem layerWeights_stateDict {l : ℕ} (hl : l < student.layers) :
  layerWeight student.stateDict l "self_attn.q_proj.weight"
      = .ok ⟨[960, 960], matrixEntries (student.layer l).qProj.weight⟩
    ∧ layerWeight student.stateDict l "self_attn.k_proj.weight"
      = .ok ⟨[320, 960], matrixEntries (student.layer l).kProj.weight⟩
    ∧ layerWeight student.stateDict l "self_attn.v_proj.weight"
      = .ok ⟨[320, 960], matrixEntries (student.layer l).vProj.weight⟩
    ∧ layerWeight student.stateDict l "self_attn.o_proj.weight"
      = .ok ⟨[960, 960], matrixEntries (student.layer l).oProj.weight⟩
    ∧ layerWeight student.stateDict l "mlp.gate_proj.weight"
      = .ok ⟨[2560, 960], matrixEntries (student.layer l).gateProj.weight⟩
    ∧ layerWeight student.stateDict l "mlp.up_proj.weight"
      = .ok ⟨[2560, 960], matrixEntries (student.layer l).upProj.weight⟩
    ∧ layerWeight student.stateDict l "mlp.down_proj.weight"
      = .ok ⟨[960, 2560], matrixEntries (student.layer l).downProj.weight⟩
  := by
  have hmodule : ∀ {i o : ℕ} (name : String) (m : QuantizedLinear i o),
      (name ++ ".weight", (⟨[o, i], matrixEntries m.weight⟩ : StateTensor))
        ∈ moduleState name m := fun name m => List.mem_cons_self
  refine ⟨?_, ?_, ?_, ?_, ?_, ?_, ?_⟩
  all_goals
    apply student.layerWeight_stateDict hl (by decide)
    simp only [layerState, List.mem_append]
  · exact .inl (hmodule "self_attn.q_proj" _)
  · exact .inr (.inl (hmodule "self_attn.k_proj" _))
  · exact .inr (.inr (.inl (hmodule "self_attn.v_proj" _)))
  · exact .inr (.inr (.inr (.inl (hmodule "self_attn.o_proj" _))))
  · exact .inr (.inr (.inr (.inr (.inl (hmodule "mlp.gate_proj" _)))))
  · exact .inr (.inr (.inr (.inr (.inr (.inl (hmodule "mlp.up_proj" _))))))
  · exact .inr (.inr (.inr (.inr (.inr (.inr (.inl (hmodule "mlp.down_proj" _)))))))

/-- The layers of the state are quantised like layers with the weights of the modules. -/
theorem quantizeDecoderLayer_stateDict {l : ℕ} (hl : l < student.layers) :
  quantizeDecoderLayer student.stateDict l grp
    = .ok ⟨fun h => weightHalf h (student.savedWeights l),
        fun h => metaHalf h (student.savedWeights l)⟩
  := by
  obtain ⟨hq, hk, hv, ho, hgate, hup, hdown⟩ := student.layerWeights_stateDict hl
  have hrows : ∀ m : LayerMatrix, m.outCols ≠ 0 := by
    intro m
    cases m <;> exact OfNat.ofNat_ne_zero _
  have hbytes : ∀ (bytes : LayerBytes) (matrix : StateTensor) (m : LayerMatrix),
      matrix = ⟨[m.outCols, m.inCols], student.savedWeights l m⟩ →
        (do
          let q ← npQuantizeW4Rtn matrix grp
          .ok (bytes.extend q))
        = (Except.ok ⟨fun h => bytes.wgt h ++ (halfRows m.outCols h).flatMap
              fun row => packedRow m.inCols (student.savedWeights l m row),
            fun h => bytes.scales h ++ (halfRows m.outCols h).flatMap
              fun row => metaRow m.inCols (student.savedWeights l m row)⟩
          : Except ReplayError LayerBytes) := by
    rintro bytes _ m rfl
    rw [npQuantizeW4Rtn_matrix _ (hrows m) (by cases m <;> decide)]
    simp only [bind, Except.bind, LayerBytes.extend, halfOf_map_range]
  have hqkv : concatRows [⟨[960, 960], matrixEntries (student.layer l).qProj.weight⟩,
      ⟨[320, 960], matrixEntries (student.layer l).kProj.weight⟩,
      ⟨[320, 960], matrixEntries (student.layer l).vProj.weight⟩]
      = .ok ⟨[LayerMatrix.qkv.outCols, LayerMatrix.qkv.inCols], student.savedWeights l .qkv⟩ := by
    have hcols : LayerMatrix.qkv.outCols = 960 + (320 + 320) := by norm_num [LayerMatrix.outCols]
    rw [hcols]
    exact concatRows_cons _ _ _ (concatRows_cons _ _ _ rfl)
  have hgateUp : concatRows [⟨[2560, 960], matrixEntries (student.layer l).gateProj.weight⟩,
      ⟨[2560, 960], matrixEntries (student.layer l).upProj.weight⟩]
      = .ok ⟨[LayerMatrix.gateUp.outCols, LayerMatrix.gateUp.inCols],
          student.savedWeights l .gateUp⟩ := by
    have hcols : LayerMatrix.gateUp.outCols = 2560 + 2560 := by norm_num [LayerMatrix.outCols]
    rw [hcols]
    exact concatRows_cons _ _ _ rfl
  have hout : concatRows [⟨[960, 960], matrixEntries (student.layer l).oProj.weight⟩]
      = .ok ⟨[LayerMatrix.o.outCols, LayerMatrix.o.inCols], student.savedWeights l .o⟩ := rfl
  have hdownProj : concatRows [⟨[960, 2560], matrixEntries (student.layer l).downProj.weight⟩]
      = .ok ⟨[LayerMatrix.down.outCols, LayerMatrix.down.inCols],
          student.savedWeights l .down⟩ := rfl
  have hok : ∀ {α β : Type} (a : α) (f : α → Except ReplayError β), Except.ok a >>= f = f a :=
    fun _ _ => rfl
  simp only [quantizeDecoderLayer, decoderLayerKeys, List.foldlM_cons, List.foldlM_nil,
    List.mapM_cons, List.mapM_nil, hq, hk, hv, ho, hgate, hup, hdown, pure_bind, hok, hqkv, hout,
    hgateUp, hdownProj]
  rw [hbytes _ _ .qkv rfl, hok, hbytes _ _ .o rfl, hok, hbytes _ _ .gateUp rfl, hok,
    hbytes _ _ .down rfl]
  simp only [weightHalf, metaHalf, LayerMatrix.all, List.flatMap_cons, List.flatMap_nil,
    List.append_nil, List.nil_append, List.append_assoc]
  rfl

end Student

end Kv260
