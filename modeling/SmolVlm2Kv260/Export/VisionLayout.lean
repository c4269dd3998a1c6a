import SmolVlm2Kv260.Export.MatrixFile

/-!
# The matrices of the vision files

The vision section of `export_kv260_w4a8_bundle` appends the matrices of the vision encoder
to two files and records for each where it begins, in words of 32 bytes.  The vision kernel
adds these offsets to its ports and multiplies with `unified_gemm_w4a8_int8_in_int32_out`,
which then finds the codes of each row in their order.
-/

set_option autoImplicit false

namespace Kv260

open Blocks

/-! ### The export -/

/-- A matrix of `nDim` rows and `kDim` columns.  Its rows are made of whole groups, and its
bytes and metadata of whole words. -/
structure VisionMatrix where
  name : String
  kDim : ℕ
  nDim : ℕ
  weight : ℕ → ℕ → ℚ
  grp_dvd : grp ∣ kDim
  wgt_words : 32 ∣ nDim * kDim / 2
  meta_words : 32 ∣ nDim * kDim / 16

namespace VisionMatrix

variable (m : VisionMatrix)

/-- `packed.tobytes()`. -/
def wgtBytes : List (BitVec 8) := packedBytes m.nDim m.kDim m.weight

/-- `vision_meta.tobytes()`. -/
def metaBytes : List (BitVec 8) := Kv260.metaBytes m.nDim m.kDim m.weight

theorem dvd_length_wgtBytes :
  32 ∣ m.wgtBytes.length
  := by
  obtain ⟨g, hg⟩ := m.grp_dvd
  have hwords := m.wgt_words
  have hhalf : m.nDim * (32 * g) / 2 = m.nDim * (32 * g / 2) := by
    have hmul : 32 * g / 2 = 16 * g := by omega
    have hassoc : m.nDim * (32 * g) = m.nDim * (16 * g) * 2 := by
      rw [Nat.mul_assoc]
      congr 1
      omega
    rw [hmul, hassoc, Nat.mul_div_cancel _ (by decide)]
  rw [wgtBytes, length_packedBytes, hg, ← hhalf]
  rwa [hg] at hwords

theorem dvd_length_metaBytes :
  32 ∣ m.metaBytes.length
  := by
  obtain ⟨g, hg⟩ := m.grp_dvd
  have hwords := m.meta_words
  have hpair : m.nDim * (32 * g) / 16 = m.nDim * (32 * g / grp * 2) := by
    have hmul : 32 * g / grp = g := Nat.mul_div_cancel_left g (by decide)
    have hassoc : m.nDim * (32 * g) = m.nDim * (g * 2) * 16 := by
      rw [Nat.mul_assoc]
      congr 1
      omega
    rw [hmul, hassoc, Nat.mul_div_cancel _ (by decide)]
  rw [metaBytes, length_metaBytes, hg, ← hpair]
  rwa [hg] at hwords

end VisionMatrix

/-- An entry of `vision_layers`. -/
structure VisionEntry where
  name : String
  wOffsetAxi256 : ℕ
  metaOffsetAxi256 : ℕ
  M : ℕ
  K : ℕ
  N : ℕ

/-- The contents of `vision_wgt.bin` and `vision_meta.bin`, and the manifest. -/
structure VisionSection where
  wgt : List (BitVec 8) := []
  scales : List (BitVec 8) := []
  manifest : List VisionEntry := []

namespace VisionSection

/-- The entry of a matrix that is appended next. -/
def nextEntry (s : VisionSection) (m : VisionMatrix) : VisionEntry where
  name := m.name
  wOffsetAxi256 := s.wgt.length / 32
  metaOffsetAxi256 := s.scales.length / 32
  M := vitTokens
  K := m.kDim
  N := m.nDim

/-- Append a matrix. -/
def append (s : VisionSection) (m : VisionMatrix) : VisionSection where
  wgt := s.wgt ++ m.wgtBytes
  scales := s.scales ++ m.metaBytes
  manifest := s.manifest ++ [s.nextEntry m]

/-- Append matrices in turn. -/
def appendAll (s : VisionSection) (ms : List VisionMatrix) : VisionSection := ms.foldl append s

/-- A part of the section to which each matrix appends its own. -/
theorem appendAll_of_append {β : Type} {part : VisionSection → List β}
    {own : VisionMatrix → List β} (h : ∀ s m, part (append s m) = part s ++ own m)
    (s : VisionSection) (ms : List VisionMatrix) :
  part (s.appendAll ms) = part s ++ ms.flatMap own
  := by
  induction ms generalizing s with
  | nil => exact (List.append_nil _).symm
  | cons m ms ih =>
      rw [appendAll, List.foldl_cons]
      refine (ih (s.append m)).trans ?_
      rw [h, List.flatMap_cons, List.append_assoc]

theorem appendAll_wgt (s : VisionSection) (ms : List VisionMatrix) :
  (s.appendAll ms).wgt = s.wgt ++ ms.flatMap VisionMatrix.wgtBytes
  := appendAll_of_append (fun _ _ => rfl) s ms

theorem appendAll_scales (s : VisionSection) (ms : List VisionMatrix) :
  (s.appendAll ms).scales = s.scales ++ ms.flatMap VisionMatrix.metaBytes
  := appendAll_of_append (fun _ _ => rfl) s ms

/-- Matrices that are appended later leave the entries before them as they are. -/
theorem appendAll_manifest (s : VisionSection) (ms : List VisionMatrix) :
  ∃ es, (s.appendAll ms).manifest = s.manifest ++ es ∧ es.length = ms.length
  := by
  induction ms generalizing s with
  | nil => exact ⟨[], (List.append_nil _).symm, rfl⟩
  | cons m ms ih =>
      obtain ⟨es, hes, hlen⟩ := ih (s.append m)
      use s.nextEntry m :: es
      constructor
      · refine hes.trans ?_
        rw [append, List.append_assoc, List.singleton_append]
      · rw [List.length_cons, List.length_cons, hlen]

end VisionSection

/-- The vision section of the export. -/
def exportVision (ms : List VisionMatrix) : VisionSection := VisionSection.appendAll {} ms

/-- The words the kernel sees when it adds the offset of an entry to its port. -/
def VisionSection.wgtBase (s : VisionSection) (beyond : ℕ → BitVec 8) (e : VisionEntry) (a : ℕ) :
    AXI256 :=
  axiWord (fileMemory s.wgt beyond) (e.wOffsetAxi256 + a)

/-- The same for the metadata. -/
def VisionSection.scalesBase (s : VisionSection) (beyond : ℕ → BitVec 8) (e : VisionEntry)
    (a : ℕ) : AXI256 :=
  axiWord (fileMemory s.scales beyond) (e.metaOffsetAxi256 + a)

/-! ### Offsets -/

/-- A sum of whole words is a whole number of words. -/
theorem dvd_length_flatMap {f : VisionMatrix → List (BitVec 8)} (hf : ∀ m, 32 ∣ (f m).length)
    (ms : List VisionMatrix) :
  32 ∣ (ms.flatMap f).length
  := by
  induction ms with
  | nil => exact Nat.dvd_zero 32
  | cons m ms ih =>
      rw [List.flatMap_cons, List.length_append]
      apply Nat.dvd_add (hf m) ih

/-- The entry of a matrix records the lengths of the files before it. -/
theorem exportVision_entry {ms : List VisionMatrix} {i : ℕ} (hi : i < ms.length) :
  ∃ e, (exportVision ms).manifest[i]? = some e ∧ e.K = ms[i].kDim ∧ e.N = ms[i].nDim
    ∧ 32 * e.wOffsetAxi256 = ((ms.take i).flatMap VisionMatrix.wgtBytes).length
    ∧ 32 * e.metaOffsetAxi256 = ((ms.take i).flatMap VisionMatrix.metaBytes).length
  := by
  have hall : exportVision ms
      = ((exportVision (ms.take i)).append ms[i]).appendAll (ms.drop (i + 1)) := by
    have happend : (ms.take i ++ ms[i] :: ms.drop (i + 1)).foldl VisionSection.append {}
        = _ := List.foldl_append
    rw [List.getElem_cons_drop, List.take_append_drop, ← List.getElem_cons_drop hi] at happend
    exact happend
  obtain ⟨es, hes, -⟩ := ((exportVision (ms.take i)).append ms[i]).appendAll_manifest
    (ms.drop (i + 1))
  obtain ⟨es', hes', hlen'⟩ := VisionSection.appendAll_manifest {} (ms.take i)
  have hlen : (exportVision (ms.take i)).manifest.length = i := by
    rw [exportVision, hes', List.nil_append, hlen', List.length_take, Nat.min_eq_left hi.le]
  refine ⟨(exportVision (ms.take i)).nextEntry ms[i], ?_, rfl, rfl, ?_, ?_⟩
  · rw [hall, hes, VisionSection.append, List.append_assoc,
      List.getElem?_append_right (Nat.le_of_eq hlen), hlen, Nat.sub_self]
    rfl
  · rw [VisionSection.nextEntry, exportVision, VisionSection.appendAll_wgt, List.nil_append]
    apply Nat.mul_div_cancel' (dvd_length_flatMap VisionMatrix.dvd_length_wgtBytes _)
  · rw [VisionSection.nextEntry, exportVision, VisionSection.appendAll_scales, List.nil_append]
    apply Nat.mul_div_cancel' (dvd_length_flatMap VisionMatrix.dvd_length_metaBytes _)

/-! ### Fetching -/

/-- A byte of a matrix, read at its place behind the matrices before it. -/
theorem fileMemory_flatMap {f : VisionMatrix → List (BitVec 8)} {ms : List VisionMatrix}
    {i x : ℕ} (hi : i < ms.length) {v : BitVec 8} (hv : (f ms[i])[x]? = some v)
    (beyond : ℕ → BitVec 8) :
  fileMemory (ms.flatMap f) beyond (((ms.take i).flatMap f).length + x) = v
  := by
  have hsplit : ms.flatMap f
      = (ms.take i).flatMap f ++ (f ms[i] ++ (ms.drop (i + 1)).flatMap f) := by
    rw [← List.flatMap_cons, List.getElem_cons_drop, ← List.flatMap_append,
      List.take_append_drop]
  obtain ⟨hx, -⟩ := List.getElem?_eq_some_iff.mp hv
  rw [fileMemory, hsplit, List.getElem?_append_right (Nat.le_add_right _ _),
    Nat.add_sub_cancel_left, List.getElem?_append_left hx, hv, Option.getD_some]

section Fetch

variable {ms : List VisionMatrix} {i : ℕ} (hi : i < ms.length) {n kg : ℕ}
  (beyond : ℕ → BitVec 8) {e : VisionEntry}

/-- From the offset of its entry on, the kernel fetches the packs of a matrix. -/
theorem unifiedPack_vision
    (he : 32 * e.wOffsetAxi256 = ((ms.take i).flatMap VisionMatrix.wgtBytes).length)
    (hn : n < ms[i].nDim) (hkg : kg < ms[i].kDim / grp) :
  unifiedPack ((exportVision ms).wgtBase beyond e) (n * (ms[i].kDim / grp) + kg)
    = exportedPack (ms[i].weight n) kg
  := by
  apply unifiedPack_eq_exportedPack
  intro b hb
  have hbyte := getElem?_packedBytes ms[i].weight ms[i].grp_dvd hn hkg hb
  rw [he, exportVision, VisionSection.appendAll_wgt, List.nil_append]
  apply fileMemory_flatMap hi hbyte

/-- And its metadata. -/
theorem unifiedMeta_vision
    (he : 32 * e.metaOffsetAxi256 = ((ms.take i).flatMap VisionMatrix.metaBytes).length)
    (hn : n < ms[i].nDim) (hkg : kg < ms[i].kDim / grp) :
  unifiedMeta ((exportVision ms).scalesBase beyond e) (n * (ms[i].kDim / grp) + kg)
    = (rtnScaleByte grp (ms[i].weight n) kg, rtnZeroByte)
  := by
  apply unifiedMeta_eq_bytes
  intro b hb
  have hbyte := getElem?_metaBytes ms[i].weight hn hkg hb
  have hlt : b < (metaBlock (ms[i].weight n) kg).length := hb
  rw [List.getElem?_eq_getElem hlt] at hbyte
  rw [he, exportVision, VisionSection.appendAll_scales, List.nil_append,
    List.getElem?_eq_getElem hlt]
  congr 1
  apply fileMemory_flatMap hi hbyte

/-- Started at the offsets recorded for a matrix, the multiplication obtains for each row and
group the codes of the group in the order of the columns, with its scale and zero point;
these are the weights it multiplies with. -/
theorem visionLayout_roundTrip (scalesBeyond : ℕ → BitVec 8) (hn : n < ms[i].nDim)
    (hkg : kg < ms[i].kDim / grp) :
  ∃ e, (exportVision ms).manifest[i]? = some e ∧ e.K = ms[i].kDim ∧ e.N = ms[i].nDim
    ∧ (∀ j < grp, ((unifiedPack ((exportVision ms).wgtBase beyond e)
          (n * (e.K / grp) + kg)).extractLsb' (j * 4) 4).toNat
        = (rtnStored grp (ms[i].weight n) (kg * grp + j)).toNat)
    ∧ unifiedMeta ((exportVision ms).scalesBase scalesBeyond e) (n * (e.K / grp) + kg)
        = (rtnScaleByte grp (ms[i].weight n) kg, rtnZeroByte)
    ∧ ∀ j, unifiedWeight ((exportVision ms).wgtBase beyond e)
          ((exportVision ms).scalesBase scalesBeyond e) (e.K / grp) n kg j
        = dequantW4Group (exportedPack (ms[i].weight n) kg)
            (rtnScaleByte grp (ms[i].weight n) kg).toInt rtnZeroByte.toInt j
  := by
  obtain ⟨e, hentry, hK, hN, hwgt, hmeta⟩ := exportVision_entry hi
  have hpack := unifiedPack_vision hi beyond hwgt hn hkg
  have hscales := unifiedMeta_vision hi scalesBeyond hmeta hn hkg
  refine ⟨e, hentry, hK, hN, ?_, ?_, ?_⟩
  · intro j hj
    rw [hK, hpack, exportedPack_nibble _ _ hj]
  · rw [hK, hscales]
  · intro j
    simp only [unifiedWeight, hK, hpack, hscales]

end Fetch

/-- The integers from `-7` to `7`, again and again; the rows begin with different ones. -/
def ramp (n k : ℕ) : ℤ := ((n + k) % 15 : ℕ) - 7

/-- They are stored as they are. -/
theorem rtnStored_ramp (n k : ℕ) :
  rtnStored grp (fun k => ramp n k) k = BitVec.ofInt 8 (ramp n k + 8)
  := by
  apply rtnStored_intCast (by decide) (fun _ => rfl)
  · intro i _
    rw [ramp, abs_le]
    omega
  · have hseven : ∀ x : ℕ, x % 15 = 0 → |((x % 15 : ℕ) : ℤ) - 7| = 7 := by
      intro x hx
      rw [hx]
      rfl
    refine ⟨(15 - (n + k / grp * grp) % 15) % 15, ?_, hseven _ ?_⟩
    · exact (Nat.mod_lt _ (by decide)).trans (by decide)
    · omega

/-- A matrix of ramps, of 32 rows with two groups. -/
def rampMatrix (name : String) : VisionMatrix where
  name := name
  kDim := 64
  nDim := 32
  weight n k := ramp n k
  grp_dvd := by decide
  wgt_words := by decide
  meta_words := by decide

/-- The codes of the second group of a row, in the second of two such matrices. -/
theorem visionLayout_roundTrip_ramps :
  ∃ e, (exportVision [rampMatrix "patch_embed", rampMatrix "blk.0.qkv"]).manifest[1]? = some e
    ∧ e.K = 64 ∧ e.N = 32
    ∧ ∀ j < grp, ((unifiedPack
        ((exportVision [rampMatrix "patch_embed", rampMatrix "blk.0.qkv"]).wgtBase (fun _ => 0) e)
        (3 * (e.K / grp) + 1)).extractLsb' (j * 4) 4).toNat
      = (BitVec.ofInt 8 (ramp 3 (1 * grp + j) + 8)).toNat
  := by
  obtain ⟨e, he, hK, hN, hcodes, -⟩ := visionLayout_roundTrip
    (show 1 < [rampMatrix "patch_embed", rampMatrix "blk.0.qkv"].length by decide) (fun _ => 0)
    (fun _ => 0) (show 3 < 32 by decide) (show 1 < 64 / grp by decide)
  refine ⟨e, he, hK, hN, fun j hj => ?_⟩
  rw [hcodes j hj]
  exact congrArg BitVec.toNat (rtnStored_ramp 3 (1 * grp + j))

end Kv260
