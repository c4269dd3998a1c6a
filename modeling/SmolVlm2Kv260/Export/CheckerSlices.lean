import SmolVlm2Kv260.Export.Checker
import SmolVlm2Kv260.Memory.Slices

/-!
# The slices of an accepted export

The check compares the offset of an entry with the next offset, and the last one with the size
of the file.  Integer offsets that pass give slices that follow each other in the files, those
of the decoder from the start: 32 halves of a layer fill a file of the prescribed size.
-/

set_option autoImplicit false

namespace Kv260.Checker

open Py Report Slice

/-! ### Numbers of an entry -/

section Items

variable {F : Type}

/-- The number under a key. -/
def itemNum (v : Json F) (key : String) : Option (Num F) :=
  match v.getItem key with
  | .ok w => w.num?
  | .error _ => none

/-- The entries of a list of the manifest. -/
def entries (payload : Json F) (key : String) : List (Json F) :=
  match payload.get key (.list []) with
  | .error _ => []
  | .ok v =>
      match v.elements with
      | .error _ => []
      | .ok layers => layers

/-- No floating-point number stands under the keys. -/
def NoFloats (v : Json F) (keys : List String) : Prop :=
  ∀ key ∈ keys, ∀ x, itemNum v key ≠ some (.float x)

variable {v w : Json F} {key : String} {keys : List String} {x : Num F}

theorem NoFloats.exists_int (h : NoFloats v keys) (hkey : key ∈ keys)
    (hx : itemNum v key = some x) :
  ∃ n, x = .int n
  := by
  cases x with
  | int n => exact ⟨n, rfl⟩
  | float y => exact absurd hx (h key hkey y)

theorem NoFloats.mono {keys' : List String} (h : NoFloats v keys) (hsub : keys' ⊆ keys) :
  NoFloats v keys'
  := fun key hkey => h key (hsub hkey)

theorem entries_eq {payload : Json F} {layers : List (Json F)}
    (hv : payload.get key (.list []) = .ok v) (hlayers : v.elements = .ok layers) :
  entries payload key = layers
  := by
  simp only [entries, hv, hlayers]

theorem num?_eq_of_num (h : w.num = .ok x) :
  w.num? = some x
  := by
  rw [Json.num] at h
  split at h
  next y hy =>
    cases h
    apply hy
  next => cases h

theorem itemNum_of_getItem (h : v.getItem key = .ok w) :
  itemNum v key = w.num?
  := by
  rw [itemNum, h]

theorem contains_of_getItem [PyFloat F] (h : v.getItem key = .ok w) :
  v.contains key = .ok true
  := by
  cases v with
  | dict items =>
      simp only [Json.getItem] at h
      split at h
      next u hu => rw [Json.contains, hu, Option.isSome_some]
      next => cases h
  | none | bool | int | float | str | list => cases h

theorem passes_item :
  (item v key).Passes w ↔ v.getItem key = .ok w
  := passes_ofExcept

theorem passes_numItem (h : (numItem v key).Passes x) :
  itemNum v key = some x
  := by
  simp only [numItem, passes_bind, passes_item, passes_ofExcept] at h
  obtain ⟨w, hw, hx⟩ := h
  rw [itemNum_of_getItem hw, num?_eq_of_num hx]

variable [PyFloat F]

theorem num?_of_mulInt {u : Json F} {m : ℤ} (hmul : w.mulInt m = .ok u) (hx : u.num? = some x) :
  ∃ y, w.num? = some y ∧ y.mul (.int m) = .ok x
  := by
  have hnumber : ∀ y : Num F, (y.mul (.int m)).map Json.ofNum = .ok u → y.mul (.int m) = .ok x := by
    intro y hy
    rcases hprod : y.mul (.int m) with e | z
    · rw [hprod] at hy
      cases hy
    · rw [hprod] at hy
      cases hy
      cases z <;> cases hx <;> rfl
  cases w with
  | bool b => exact ⟨.int b.toNat, rfl, hnumber _ hmul⟩
  | int n => exact ⟨.int n, rfl, hnumber _ hmul⟩
  | float y => exact ⟨.float y, rfl, hnumber _ hmul⟩
  | str | list =>
      cases hmul
      cases hx
  | none | dict => cases hmul

theorem num?_of_eq (heq : v.eq w = true) (hx : v.num? = some x) :
  ∃ y, w.num? = some y ∧ x.eq y = true
  := by
  cases v with
  | bool | int | float =>
      cases hx
      cases w with
      | bool | int | float => exact ⟨_, rfl, heq⟩
      | none | str | list | dict => cases heq
  | none | str | list | dict => cases hx

/-- The number under the key, times 32. -/
theorem passes_axiItem (h : (axiItem v key).Passes x) :
  ∃ y, itemNum v key = some y ∧ y.mul (.int axi256Bytes) = .ok x
  := by
  simp only [axiItem, passes_bind, passes_item, passes_ofExcept] at h
  obtain ⟨w, hw, u, hmul, hx⟩ := h
  rw [itemNum_of_getItem hw]
  apply num?_of_mulInt hmul (num?_eq_of_num hx)

theorem passes_expectEq {actual expected : Num F} {msg : String} :
  (expectEq actual expected msg).Passes () ↔ actual.eq expected = true
  := passes_expect

/-- The keys are not looked for in vain. -/
theorem passes_hasKeys (hkeys : ∀ key ∈ keys, v.contains key = .ok true) {b : Bool}
    (h : (hasKeys v keys).Passes b) :
  b = true
  := by
  induction keys with
  | nil => exact (passes_pure.mp h).symm
  | cons key keys ih =>
      obtain ⟨hkey, hkeys⟩ := List.forall_mem_cons.mp hkeys
      simp only [hasKeys, hkey, passes_bind, passes_ofExcept] at h
      obtain ⟨c, hc, h⟩ := h
      cases hc
      apply ih hkeys h

end Items

/-! ### The decoder -/

/-- The weights of the decoder layers, or their metadata: the keys of the offsets, the bytes of
a half, and the files. -/
structure DecoderPart where
  bytesKey : String
  axiKey : String
  half : ℤ
  half0 : String
  half1 : String

def decoderWeights : DecoderPart :=
  ⟨"w_offset_bytes", "w_offset_axi256", decoderHalfWgtBytes, "weights_half0.bin",
    "weights_half1.bin"⟩

def decoderMeta : DecoderPart :=
  ⟨"meta_offset_bytes", "meta_offset_axi256", decoderHalfMetaBytes, "meta_half0.bin",
    "meta_half1.bin"⟩

def decoderParts : List DecoderPart := [decoderWeights, decoderMeta]

theorem mem_decoderParts {part : DecoderPart} :
  part ∈ decoderParts ↔ part = decoderWeights ∨ part = decoderMeta
  := List.mem_pair

section Decoder

variable {F : Type} [PyFloat F] {layers : List (Json F)} {idx : ℕ} {layer nxt : Json F}
variable {size : String → Option ℕ} {part : DecoderPart}

/-- The two offsets of a layer are compared. -/
theorem checkDecoderLayer_axi (h : (checkDecoderLayer layers idx layer).Passes ()) :
  ∀ part ∈ decoderParts, ∃ v w u, layer.getItem part.bytesKey = .ok v
    ∧ layer.getItem part.axiKey = .ok w ∧ w.mulInt axi256Bytes = .ok u ∧ v.eq u = true
  := by
  simp only [checkDecoderLayer, passes_bind, passes_item] at h
  obtain ⟨_, -, ⟨⟩, -, hasAxi, -, ⟨⟩, hhas, h⟩ := h
  rw [passes_expect.mp hhas, if_pos rfl] at h
  simp only [passes_bind, passes_item, passes_ofExcept] at h
  obtain ⟨v, hv, w, hw, u, hu, ⟨⟩, heq, v', hv', w', hw', u', hu', ⟨⟩, heq', -⟩ := h
  simp only [decoderParts, List.forall_mem_cons]
  exact ⟨⟨v, w, u, hv, hw, hu, passes_expect.mp heq⟩,
    ⟨v', w', u', hv', hw', hu', passes_expect.mp heq'⟩, nofun⟩

/-- Both byte offsets of a layer are there. -/
theorem contains_bytesKeys (h : (checkDecoderLayer layers idx layer).Passes ()) :
  ∀ key ∈ ["w_offset_bytes", "meta_offset_bytes"], layer.contains key = .ok true
  := by
  obtain ⟨⟨_, _, _, hw, -⟩, ⟨_, _, _, hm, -⟩, -⟩ :=
    List.forall_mem_cons.mp (checkDecoderLayer_axi h) |>.imp_right List.forall_mem_cons.mp
  simp only [List.forall_mem_cons]
  exact ⟨contains_of_getItem hw, contains_of_getItem hm, nofun⟩

/-- A layer is compared with the next one. -/
theorem checkDecoderLayer_next (h : (checkDecoderLayer layers idx layer).Passes ())
    (hnxt : layers[idx + 1]? = some nxt) :
  ∀ part ∈ decoderParts, ∃ x y z, itemNum layer part.bytesKey = some x
    ∧ itemNum nxt part.bytesKey = some y ∧ y.sub x = .ok z ∧ z.eq (.int part.half) = true
  := by
  have hkeys := contains_bytesKeys h
  simp only [checkDecoderLayer, passes_bind] at h
  obtain ⟨_, -, ⟨⟩, -, hasAxi, -, ⟨⟩, hhas, h⟩ := h
  rw [passes_expect.mp hhas, if_pos rfl] at h
  simp only [passes_bind, hnxt] at h
  obtain ⟨_, -, _, -, _, -, ⟨⟩, -, _, -, _, -, _, -, ⟨⟩, -, b, hb, h⟩ := h
  rw [passes_hasKeys hkeys hb, if_pos rfl] at h
  simp only [passes_bind, passes_ofExcept] at h
  obtain ⟨y, hy, x, hx, z, hz, ⟨⟩, heq, y', hy', x', hx', z', hz', heq'⟩ := h
  simp only [decoderParts, List.forall_mem_cons]
  exact ⟨⟨x, y, z, passes_numItem hx, passes_numItem hy, hz, passes_expectEq.mp heq⟩,
    ⟨x', y', z', passes_numItem hx', passes_numItem hy', hz', passes_expectEq.mp heq'⟩, nofun⟩

/-- The end of the last layer is compared with the file. -/
theorem checkLastDecoderLayer_end (h : (checkLastDecoderLayer size layer).Passes ())
    (hkeys : ∀ key ∈ ["w_offset_bytes", "meta_offset_bytes"], layer.contains key = .ok true) :
  ∀ part ∈ decoderParts, ∃ x z, ∃ k : ℕ, itemNum layer part.bytesKey = some x
    ∧ x.add (.int part.half) = .ok z ∧ size part.half0 = some k ∧ z.eq (.int k) = true
  := by
  simp only [checkLastDecoderLayer, passes_bind] at h
  obtain ⟨b, hb, h⟩ := h
  rw [passes_hasKeys hkeys hb, if_pos rfl] at h
  simp only [passes_bind, passes_ofExcept, passes_fileSize] at h
  obtain ⟨x, hx, z, hz, _, ⟨k, hk, rfl⟩, ⟨⟩, heq, x', hx', z', hz', _, ⟨k', hk', rfl⟩, heq'⟩ := h
  simp only [decoderParts, List.forall_mem_cons]
  exact ⟨⟨x, z, k, passes_numItem hx, hz, hk, passes_expectEq.mp heq⟩,
    ⟨x', z', k', passes_numItem hx', hz', hk', passes_expectEq.mp heq'⟩, nofun⟩

/-- The entries of `decoder_layers` pass one by one. -/
theorem checkDecoderLayers_entries {payload : Json F}
    (h : (checkDecoderLayers size payload).Passes ()) :
  (entries payload "decoder_layers").length = numLayers
    ∧ (∀ idx layer, (entries payload "decoder_layers")[idx]? = some layer →
      (checkDecoderLayer (entries payload "decoder_layers") idx layer).Passes ())
    ∧ ∀ last, (entries payload "decoder_layers").getLast? = some last →
      (checkLastDecoderLayer size last).Passes ()
  := by
  simp only [checkDecoderLayers, passes_bind, passes_ofExcept] at h
  obtain ⟨v, hv, layers, hlayers, ⟨⟩, hlength, ⟨⟩, hforM, hlast⟩ := h
  rw [entries_eq hv hlayers]
  refine ⟨beq_iff_eq.mp (passes_expect.mp hlength), ?_, ?_⟩
  · intro idx layer hlayer
    apply passes_forM.mp hforM (layer, idx)
    apply List.mem_zipIdx_iff_getElem?.mpr hlayer
  · intro last hgetLast
    rwa [hgetLast] at hlast

/-- Integer offsets of a layer: one is the other times 32. -/
theorem decoderLayer_int (h : (checkDecoderLayer layers idx layer).Passes ())
    (hpart : part ∈ decoderParts) (hfloat : NoFloats layer [part.bytesKey, part.axiKey])
    {x : Num F} (hx : itemNum layer part.bytesKey = some x) :
  ∃ a, itemNum layer part.axiKey = some (.int a) ∧ x = .int (a * axi256Bytes)
  := by
  obtain ⟨v, w, u, hv, hw, hmul, heq⟩ := checkDecoderLayer_axi h part hpart
  obtain ⟨n, rfl⟩ := hfloat.exists_int List.mem_cons_self hx
  rw [itemNum_of_getItem hv] at hx
  obtain ⟨y, hy, heq⟩ := num?_of_eq heq hx
  obtain ⟨z, hz, hprod⟩ := num?_of_mulInt hmul hy
  rw [← itemNum_of_getItem hw] at hz
  obtain ⟨a, rfl⟩ := hfloat.exists_int (List.mem_cons_of_mem _ List.mem_cons_self) hz
  cases hprod
  exact ⟨a, hz, congrArg Num.int (beq_iff_eq.mp heq)⟩

variable {payload : Json F}

/-- Both offsets of a layer are there. -/
theorem decoderOffset (h : (checkDecoderLayers size payload).Passes ())
    (hpart : part ∈ decoderParts)
    (hlayer : layer ∈ entries payload "decoder_layers")
    (hfloat : NoFloats layer [part.bytesKey, part.axiKey]) :
  ∃ a, itemNum layer part.axiKey = some (.int a)
    ∧ itemNum layer part.bytesKey = some (.int (a * axi256Bytes))
  := by
  obtain ⟨-, hlayers, hlast⟩ := checkDecoderLayers_entries h
  obtain ⟨idx, hidx⟩ := List.mem_iff_getElem?.mp hlayer
  have hpass := hlayers idx layer hidx
  have hx : ∃ x, itemNum layer part.bytesKey = some x := by
    rcases hnxt : (entries payload "decoder_layers")[idx + 1]? with _ | nxt
    · have hgetLast : (entries payload "decoder_layers").getLast? = some layer := by
        obtain ⟨hlt, -⟩ := List.getElem?_eq_some_iff.mp hidx
        have hle := List.getElem?_eq_none_iff.mp hnxt
        rw [List.getLast?_eq_getElem?, ← hidx]
        congr 1
        omega
      obtain ⟨x, _, _, hx, -⟩ :=
        checkLastDecoderLayer_end (hlast layer hgetLast) (contains_bytesKeys hpass) part hpart
      exact ⟨x, hx⟩
    · obtain ⟨x, _, _, hx, -⟩ := checkDecoderLayer_next hpass hnxt part hpart
      exact ⟨x, hx⟩
  obtain ⟨x, hx⟩ := hx
  obtain ⟨a, ha, rfl⟩ := decoderLayer_int hpass hpart hfloat hx
  exact ⟨a, ha, hx⟩

/-- The files of the halves have 32 halves of a layer. -/
theorem size_half (h : AcceptedSizes size) (hpart : part ∈ decoderParts) :
  ∀ file ∈ [part.half0, part.half1], ∃ n : ℕ, size file = some n ∧ (n : ℤ) = 32 * part.half
  := by
  rcases mem_decoderParts.mp hpart with rfl | rfl <;> simp only [List.forall_mem_cons]
  · exact ⟨⟨_, h.fixed ("weights_half0.bin", 78643200) (by decide), by decide⟩,
      ⟨_, h.fixed ("weights_half1.bin", 78643200) (by decide), by decide⟩, nofun⟩
  · exact ⟨⟨_, h.fixed ("meta_half0.bin", 9830400) (by decide), by decide⟩,
      ⟨_, h.fixed ("meta_half1.bin", 9830400) (by decide), by decide⟩, nofun⟩

theorem half_nonneg (hpart : part ∈ decoderParts) :
  0 ≤ part.half
  := by
  rcases mem_decoderParts.mp hpart with rfl | rfl <;> decide

/-- The half of a layer that begins at an offset. -/
def halfSlice (part : DecoderPart) (offset : Json F → ℤ) (layer : Json F) : Slice ℤ :=
  ⟨offset layer, part.half⟩

/-- The halves follow each other up to the end of the file. -/
theorem decoder_tiles_last (h : (checkDecoderLayers size payload).Passes ())
    (hsize : AcceptedSizes size) (hpart : part ∈ decoderParts) {offset : Json F → ℤ}
    (hoffset : ∀ layer ∈ entries payload "decoder_layers",
      itemNum layer part.bytesKey = some (.int (offset layer))) :
  Tiles ((entries payload "decoder_layers").map (halfSlice part offset))
    (firstStart ((entries payload "decoder_layers").map (halfSlice part offset))
      (32 * part.half)) (32 * part.half)
  := by
  obtain ⟨-, hlayers, hlast⟩ := checkDecoderLayers_entries h
  apply tiles_map
  · intro layer hlayer
    apply half_nonneg hpart
  · intro i layer nxt hlayer hnxt
    obtain ⟨x, y, z, hx, hy, hz, heq⟩ :=
      checkDecoderLayer_next (hlayers i layer hlayer) hnxt part hpart
    rw [hoffset layer (List.mem_of_getElem? hlayer)] at hx
    rw [hoffset nxt (List.mem_of_getElem? hnxt)] at hy
    cases hx
    cases hy
    cases hz
    have hdiff : offset nxt - offset layer = part.half := beq_iff_eq.mp heq
    change offset layer + part.half = offset nxt
    omega
  · intro last hgetLast
    have hmem := List.mem_of_getLast? hgetLast
    obtain ⟨idx, hidx⟩ := List.mem_iff_getElem?.mp hmem
    obtain ⟨x, z, k, hx, hz, hk, heq⟩ := checkLastDecoderLayer_end (hlast last hgetLast)
      (contains_bytesKeys (hlayers idx last hidx)) part hpart
    rw [hoffset last hmem] at hx
    cases hx
    cases hz
    obtain ⟨n, hn, hnsize⟩ := size_half hsize hpart part.half0 List.mem_cons_self
    cases hk.symm.trans hn
    rw [← hnsize]
    apply beq_iff_eq.mp heq

/-- The halves tile the file: 32 of them fill it, so nothing comes before the first one. -/
theorem decoder_tiles (h : (checkDecoderLayers size payload).Passes ())
    (hsize : AcceptedSizes size) (hpart : part ∈ decoderParts) {offset : Json F → ℤ}
    (hoffset : ∀ layer ∈ entries payload "decoder_layers",
      itemNum layer part.bytesKey = some (.int (offset layer))) :
  Tiles ((entries payload "decoder_layers").map (halfSlice part offset)) 0 (32 * part.half)
  := by
  have htiles := decoder_tiles_last h hsize hpart hoffset
  have hcount : (entries payload "decoder_layers").length = 32 := by
    have hlength := (checkDecoderLayers_entries h).1
    change (_ : ℤ) = 32 at hlength
    omega
  have hhalf : ∀ s ∈ (entries payload "decoder_layers").map (halfSlice part offset),
      s.length = part.half := by
    intro s hs
    obtain ⟨layer, -, rfl⟩ := List.mem_map.mp hs
    rfl
  have hfirst := htiles.eq_of_length hhalf
  rw [List.length_map, hcount] at hfirst
  have hzero : firstStart ((entries payload "decoder_layers").map (halfSlice part offset))
      (32 * part.half) = 0 := by
    change _ + 32 * part.half = 32 * part.half at hfirst
    omega
  rwa [hzero] at htiles

end Decoder

/-! ### The vision model -/

/-- The weights of the vision model, or their metadata: the key of the offset, the bytes of an
entry, and the file. -/
structure VisionPart (F : Type) where
  axiKey : String
  bytes : Num F → Num F → Except PyError (Num F)
  file : String

section Vision

variable {F : Type} [PyFloat F]

def visionWeights : VisionPart F := ⟨"w_offset_axi256", packedW4BytesOf, "vision_wgt.bin"⟩

def visionMeta : VisionPart F := ⟨"meta_offset_axi256", metaBytesOf, "vision_meta.bin"⟩

variable (F) in
def visionParts : List (VisionPart F) := [visionWeights, visionMeta]

theorem mem_visionParts {part : VisionPart F} :
  part ∈ visionParts F ↔ part = visionWeights ∨ part = visionMeta
  := List.mem_pair

variable {layers : List (Json F)} {idx : ℕ} {layer nxt : Json F}
variable {size : String → Option ℕ} {part : VisionPart F} {payload : Json F}

/-- The bytes of an entry with a positive shape. -/
theorem bytes_int (hpart : part ∈ visionParts F) {k n : ℤ} (hk : 0 < k) (hn : 0 < n) :
  ∃ b, 0 ≤ b ∧ part.bytes (.int k) (.int n) = .ok (.int b)
  := by
  rcases mem_visionParts.mp hpart with rfl | rfl
  · exact ⟨packedW4Bytes k n, Int.fdiv_nonneg (by positivity) (by decide), rfl⟩
  · have hgroups : 0 ≤ k.fdiv 32 := Int.fdiv_nonneg hk.le (by decide)
    exact ⟨metaBytes k n, by unfold metaBytes; positivity, rfl⟩

/-- The offsets of an entry are not negative. -/
theorem checkVisionLayer_nonneg (h : (checkVisionLayer layers idx layer).Passes ()) :
  ∀ part ∈ visionParts F, ∃ x, (axiItem layer part.axiKey).Passes x ∧ x.nonneg = true
  := by
  simp only [checkVisionLayer, passes_bind] at h
  obtain ⟨⟨⟩, hkeys, b, hb, h⟩ := h
  have hcontains : ∀ key ∈ ["w_offset_axi256", "meta_offset_axi256", "K", "N"],
      layer.contains key = .ok true := by
    intro key hkey
    have hsub : ["w_offset_axi256", "meta_offset_axi256", "K", "N"]
        ⊆ ["name", "w_offset_axi256", "meta_offset_axi256", "M", "K", "N"] := by decide
    have hround := passes_forM.mp hkeys key (hsub hkey)
    simp only [passes_bind, passes_ofExcept] at hround
    obtain ⟨c, hc, hexpect⟩ := hround
    rw [hc, passes_expect.mp hexpect]
  rw [passes_hasKeys hcontains hb, if_pos rfl] at h
  simp only [passes_bind] at h
  obtain ⟨w, hw, ⟨⟩, hwpos, m, hm, ⟨⟩, hmpos, -⟩ := h
  simp only [visionParts, List.forall_mem_cons]
  exact ⟨⟨w, hw, passes_expect.mp hwpos⟩, ⟨m, hm, passes_expect.mp hmpos⟩, nofun⟩

/-- An entry ends at an offset: the difference is its bytes. -/
def EndsAt (part : VisionPart F) (layer : Json F) (next : Num F) : Prop :=
  ∃ cur diff k n bytes, (axiItem layer part.axiKey).Passes cur ∧ next.sub cur = .ok diff
    ∧ itemNum layer "K" = some k ∧ itemNum layer "N" = some n ∧ part.bytes k n = .ok bytes
    ∧ diff.eq bytes = true

variable {visionWBytes visionMBytes : ℕ}

/-- An entry ends where the next one begins. -/
theorem checkVisionSpan_next
    (h : (checkVisionSpan visionWBytes visionMBytes layers idx layer).Passes ())
    (hnxt : layers[idx + 1]? = some nxt) :
  ∀ part ∈ visionParts F, ∃ next, (axiItem nxt part.axiKey).Passes next ∧ EndsAt part layer next
  := by
  simp only [checkVisionSpan, hnxt, passes_bind, passes_ofExcept] at h
  obtain ⟨cw, hcw, cm, hcm, nw, hnw, nm, hnm, dw, hdw, kw, hkw, nw', hnw', bw, hbw, ⟨⟩, heqw,
    dm, hdm, km, hkm, nm', hnm', bm, hbm, heqm⟩ := h
  simp only [visionParts, List.forall_mem_cons]
  exact ⟨⟨nw, hnw, cw, dw, kw, nw', bw, hcw, hdw, passes_numItem hkw, passes_numItem hnw', hbw,
      passes_expectEq.mp heqw⟩,
    ⟨nm, hnm, cm, dm, km, nm', bm, hcm, hdm, passes_numItem hkm, passes_numItem hnm', hbm,
      passes_expectEq.mp heqm⟩, nofun⟩

/-- The last entry ends with the file. -/
theorem checkVisionSpan_last
    (h : (checkVisionSpan visionWBytes visionMBytes layers idx layer).Passes ())
    (hnxt : layers[idx + 1]? = none) (hw : size "vision_wgt.bin" = some visionWBytes)
    (hm : size "vision_meta.bin" = some visionMBytes) :
  ∀ part ∈ visionParts F, ∃ k : ℕ, size part.file = some k ∧ EndsAt part layer (.int k)
  := by
  simp only [checkVisionSpan, hnxt, passes_bind, passes_ofExcept, passes_pure] at h
  obtain ⟨cw, hcw, cm, hcm, nw, rfl, nm, rfl, dw, hdw, kw, hkw, nw', hnw', bw, hbw, ⟨⟩, heqw,
    dm, hdm, km, hkm, nm', hnm', bm, hbm, heqm⟩ := h
  simp only [visionParts, List.forall_mem_cons]
  exact ⟨⟨visionWBytes, hw, cw, dw, kw, nw', bw, hcw, hdw, passes_numItem hkw,
      passes_numItem hnw', hbw, passes_expectEq.mp heqw⟩,
    ⟨visionMBytes, hm, cm, dm, km, nm', bm, hcm, hdm, passes_numItem hkm, passes_numItem hnm',
      hbm, passes_expectEq.mp heqm⟩, nofun⟩

/-- The entries of `vision_layers` pass one by one. -/
theorem checkVisionLayers_entries (h : (checkVisionLayers size payload).Passes ()) :
  (∃ patch, (entries payload "vision_layers").head? = some patch
      ∧ (checkVisionLayer (entries payload "vision_layers") 0 patch).Passes ())
    ∧ ∃ w m : ℕ, size "vision_wgt.bin" = some w ∧ size "vision_meta.bin" = some m
      ∧ ∀ idx layer, (entries payload "vision_layers")[idx]? = some layer →
        (checkVisionSpan w m (entries payload "vision_layers") idx layer).Passes ()
  := by
  simp only [checkVisionLayers, passes_bind, passes_ofExcept] at h
  obtain ⟨v, hv, layers, hlayers, ⟨⟩, hlength, h⟩ := h
  rw [entries_eq hv hlayers]
  cases layers with
  | nil => cases of_decide_eq_true (passes_expect.mp hlength)
  | cons patch rest =>
      simp only [passes_bind, passes_fileSize] at h
      obtain ⟨⟨⟩, -, ⟨⟩, hchecks, _, ⟨w, hw, rfl⟩, _, ⟨m, hm, rfl⟩, ⟨⟩, hspans, -⟩ := h
      constructor
      · use patch, rfl
        apply passes_forM.mp hchecks (patch, 0)
        apply List.mem_zipIdx_iff_getElem?.mpr rfl
      · use w, m, hw, hm
        intro idx layer hlayer
        apply passes_forM.mp hspans (layer, idx)
        apply List.mem_zipIdx_iff_getElem?.mpr hlayer

/-- The entry has integers, which make a slice. -/
structure IsSlice (part : VisionPart F) (layer : Json F) (s : Slice ℤ) : Prop where
  start : ∃ a, itemNum layer part.axiKey = some (.int a) ∧ s.start = a * axi256Bytes
  bytes : ∃ k n, itemNum layer "K" = some (.int k) ∧ itemNum layer "N" = some (.int n)
    ∧ part.bytes (.int k) (.int n) = .ok (.int s.length)
  nonneg : 0 ≤ s.length

/-- An entry without floating-point numbers, of a positive shape. -/
structure Regular (part : VisionPart F) (layer : Json F) : Prop where
  noFloats : NoFloats layer [part.axiKey, "K", "N"]
  pos : ∀ key ∈ ["K", "N"], ∀ n, itemNum layer key = some (.int n) → 0 < n

theorem Regular.axiItem (h : Regular part layer) {x : Num F}
    (hx : (axiItem layer part.axiKey).Passes x) :
  ∃ a, itemNum layer part.axiKey = some (.int a) ∧ x = .int (a * axi256Bytes)
  := by
  obtain ⟨y, hy, hprod⟩ := passes_axiItem hx
  obtain ⟨a, rfl⟩ := h.noFloats.exists_int List.mem_cons_self hy
  cases hprod
  exact ⟨a, hy, rfl⟩

/-- A regular entry that ends at an integer. -/
theorem EndsAt.isSlice (h : Regular part layer) (hpart : part ∈ visionParts F) {next : ℤ}
    (hends : EndsAt part layer (.int next)) :
  ∃ s, IsSlice part layer s ∧ s.stop = next
  := by
  obtain ⟨cur, diff, k, n, bytes, hcur, hdiff, hk, hn, hbytes, heq⟩ := hends
  obtain ⟨a, ha, rfl⟩ := h.axiItem hcur
  obtain ⟨k, rfl⟩ := h.noFloats.exists_int (List.mem_cons_of_mem _ (by decide)) hk
  obtain ⟨n, rfl⟩ := h.noFloats.exists_int (List.mem_cons_of_mem _ (by decide)) hn
  obtain ⟨b, hnonneg, hb⟩ :=
    bytes_int hpart (h.pos "K" (by decide) k hk) (h.pos "N" (by decide) n hn)
  cases hbytes.symm.trans hb
  cases hdiff
  have hlength : next - a * axi256Bytes = b := beq_iff_eq.mp heq
  refine ⟨⟨a * axi256Bytes, b⟩, ⟨⟨a, ha, rfl⟩, ⟨k, n, hk, hn, hb⟩, hnonneg⟩, ?_⟩
  change a * axi256Bytes + b = next
  omega

omit [PyFloat F] in
/-- The slice of an entry is determined. -/
theorem IsSlice.eq {s t : Slice ℤ} (hs : IsSlice part layer s) (ht : IsSlice part layer t) :
  s = t
  := by
  obtain ⟨⟨a, ha, hstart⟩, ⟨k, n, hk, hn, hlength⟩, -⟩ := hs
  obtain ⟨⟨a', ha', hstart'⟩, ⟨k', n', hk', hn', hlength'⟩, -⟩ := ht
  cases ha.symm.trans ha'
  cases hk.symm.trans hk'
  cases hn.symm.trans hn'
  cases s
  cases t
  cases hstart
  cases hstart'
  cases hlength.symm.trans hlength'
  rfl

/-- An entry with another one after it ends there. -/
theorem isSlice_of_next
    (hspan : (checkVisionSpan visionWBytes visionMBytes layers idx layer).Passes ())
    (hnxt : layers[idx + 1]? = some nxt) (hpart : part ∈ visionParts F)
    (hlayer : Regular part layer) (hregular : Regular part nxt) :
  ∃ a s, itemNum nxt part.axiKey = some (.int a) ∧ IsSlice part layer s
    ∧ s.stop = a * axi256Bytes
  := by
  obtain ⟨next, haxi, hends⟩ := checkVisionSpan_next hspan hnxt part hpart
  obtain ⟨a, ha, rfl⟩ := hregular.axiItem haxi
  obtain ⟨s, hs, hstop⟩ := hends.isSlice hlayer hpart
  exact ⟨a, s, ha, hs, hstop⟩

/-- An entry is a slice wherever it stands, the last one up to the end of the file. -/
theorem isSlice_of_span
    (hspan : (checkVisionSpan visionWBytes visionMBytes layers idx layer).Passes ())
    (hidx : layers[idx]? = some layer) (hw : size "vision_wgt.bin" = some visionWBytes)
    (hm : size "vision_meta.bin" = some visionMBytes) (hpart : part ∈ visionParts F)
    (hregular : ∀ layer ∈ layers, Regular part layer) :
  ∃ s, IsSlice part layer s
    ∧ (layers[idx + 1]? = none → ∃ k : ℕ, size part.file = some k ∧ s.stop = k)
  := by
  have hlayer := hregular layer (List.mem_of_getElem? hidx)
  rcases hnxt : layers[idx + 1]? with _ | nxt
  · obtain ⟨k, hk, hends⟩ := checkVisionSpan_last hspan hnxt hw hm part hpart
    obtain ⟨s, hs, hstop⟩ := hends.isSlice hlayer hpart
    exact ⟨s, hs, fun _ => ⟨k, hk, hstop⟩⟩
  · obtain ⟨-, s, -, hs, -⟩ :=
      isSlice_of_next hspan hnxt hpart hlayer (hregular nxt (List.mem_of_getElem? hnxt))
    exact ⟨s, hs, nofun⟩

/-- The entries tile the end of a file. -/
theorem vision_tiles (h : (checkVisionLayers size payload).Passes ())
    (hpart : part ∈ visionParts F)
    (hregular : ∀ layer ∈ entries payload "vision_layers", Regular part layer) :
  ∃ (f : Json F → Slice ℤ) (a : ℤ) (k : ℕ), size part.file = some k ∧ 0 ≤ a
    ∧ (∀ layer ∈ entries payload "vision_layers", IsSlice part layer (f layer))
    ∧ Tiles ((entries payload "vision_layers").map f) a k
  := by
  obtain ⟨⟨patch, hpatch, hfirst⟩, w, m, hw, hm, hspans⟩ := checkVisionLayers_entries h
  obtain ⟨k, hk⟩ : ∃ k, size part.file = some k := by
    rcases mem_visionParts.mp hpart with rfl | rfl
    · exact ⟨w, hw⟩
    · exact ⟨m, hm⟩
  have hslice : ∀ layer ∈ entries payload "vision_layers", ∃ s, IsSlice part layer s := by
    intro layer hlayer
    obtain ⟨i, hi⟩ := List.mem_iff_getElem?.mp hlayer
    obtain ⟨s, hs, -⟩ := isSlice_of_span (hspans i layer hi) hi hw hm hpart hregular
    exact ⟨s, hs⟩
  choose! f hf using hslice
  have htiles : Tiles ((entries payload "vision_layers").map f)
      (firstStart ((entries payload "vision_layers").map f) k) k := by
    apply tiles_map
    · intro layer hlayer
      exact (hf layer hlayer).nonneg
    · intro i layer nxt hi hnxt
      have hlayer := List.mem_of_getElem? hi
      have hmem := List.mem_of_getElem? hnxt
      obtain ⟨a, s, ha, hs, hstop⟩ := isSlice_of_next (hspans i layer hi) hnxt hpart
        (hregular layer hlayer) (hregular nxt hmem)
      obtain ⟨a', ha', hstart⟩ := (hf nxt hmem).start
      cases ha.symm.trans ha'
      rw [(hf layer hlayer).eq hs, hstop, hstart]
    · intro last hgetLast
      have hi := hgetLast
      rw [List.getLast?_eq_getElem?] at hi
      obtain ⟨s, hs, hstop⟩ := isSlice_of_span (hspans _ last hi) hi hw hm hpart hregular
      obtain ⟨k', hk', hstop⟩ := hstop (List.getElem?_eq_none_iff.mpr (by omega))
      cases hk.symm.trans hk'
      rw [(hf last (List.mem_of_getLast? hgetLast)).eq hs, hstop]
  refine ⟨f, _, k, hk, ?_, hf, htiles⟩
  -- the first entry does not begin before the file
  obtain ⟨x, haxi, hx⟩ := checkVisionLayer_nonneg hfirst part hpart
  have hmem := List.mem_of_head? hpatch
  obtain ⟨a, ha, rfl⟩ := (hregular patch hmem).axiItem haxi
  obtain ⟨a', ha', hstart⟩ := (hf patch hmem).start
  cases ha.symm.trans ha'
  rw [firstStart, List.head?_map, hpatch, Option.map_some, Option.map_some, Option.getD_some,
    hstart]
  apply of_decide_eq_true hx

end Vision

/-! ### Soundness of the check -/

section Soundness

variable {F : Type}

/-- The value of a number. -/
def numValue (value : F → Option ℚ) : Num F → Option ℚ
  | .int n => some n
  | .float x => value x

/-- The value of the number under a key. -/
def itemValue (value : F → Option ℚ) (v : Json F) (key : String) : Option ℚ :=
  (itemNum v key).bind (numValue value)

/-- The slice of a layer in the files of the decoder. -/
def decoderSlice (value : F → Option ℚ) (part : DecoderPart) (layer : Json F) :
    Option (Slice ℚ) := do
  pure ⟨← itemValue value layer part.bytesKey, part.half⟩

/-- The slice of an entry in the file of the vision model. -/
def visionSlice (value : F → Option ℚ) (part : VisionPart F) (layer : Json F) :
    Option (Slice ℚ) := do
  let start ← itemValue value layer part.axiKey
  let bytes ← (part.bytes (← itemNum layer "K") (← itemNum layer "N")).toOption
  pure ⟨start * axi256Bytes, ← numValue value bytes⟩

/-- The shapes of the vision model are positive. -/
def PositiveShapes (value : F → Option ℚ) (payload : Json F) : Prop :=
  ∀ layer ∈ entries payload "vision_layers", ∀ key ∈ ["K", "N"],
    ∀ q ∈ itemValue value layer key, 0 < q

/-- No offset and no shape is a floating-point number. -/
structure IntegerOffsets (payload : Json F) : Prop where
  decoder : ∀ layer ∈ entries payload "decoder_layers", NoFloats layer
    ["w_offset_bytes", "w_offset_axi256", "meta_offset_bytes", "meta_offset_axi256"]
  vision : ∀ layer ∈ entries payload "vision_layers", NoFloats layer
    ["w_offset_axi256", "meta_offset_axi256", "K", "N"]

/-- The offsets of a manifest fit the files: the layers of the decoder tile their files, and the
entries of the vision model the end of theirs. -/
structure SlicesSound [PyFloat F] (value : F → Option ℚ) (payload : Json F)
    (size : String → Option ℕ) : Prop where
  axi : ∀ layer ∈ entries payload "decoder_layers", ∀ part ∈ decoderParts,
    ∃ a, itemValue value layer part.axiKey = some a
      ∧ itemValue value layer part.bytesKey = some (a * axi256Bytes)
  decoder : ∀ part ∈ decoderParts, ∀ file ∈ [part.half0, part.half1],
    ∃ (n : ℕ) (slices : List (Slice ℚ)), size file = some n
      ∧ (entries payload "decoder_layers").map (decoderSlice value part) = slices.map some
      ∧ Tiling slices 0 n
  vision : ∀ part ∈ visionParts F,
    ∃ (n : ℕ) (a : ℚ) (slices : List (Slice ℚ)), size part.file = some n ∧ 0 ≤ a
      ∧ (entries payload "vision_layers").map (visionSlice value part) = slices.map some
      ∧ Tiling slices a n

variable {value : F → Option ℚ} {payload : Json F} {layer : Json F}

theorem itemValue_int {key : String} {n : ℤ} (h : itemNum layer key = some (.int n)) :
  itemValue value layer key = some (n : ℚ)
  := by
  rw [itemValue, h]
  rfl

theorem IntegerOffsets.decoderPart (h : IntegerOffsets payload) {part : DecoderPart}
    (hpart : part ∈ decoderParts) (hlayer : layer ∈ entries payload "decoder_layers") :
  NoFloats layer [part.bytesKey, part.axiKey]
  := by
  apply (h.decoder layer hlayer).mono
  rcases mem_decoderParts.mp hpart with rfl | rfl
  · decide
  · decide

theorem IntegerOffsets.regular [PyFloat F] (h : IntegerOffsets payload)
    (hpos : PositiveShapes value payload) {part : VisionPart F} (hpart : part ∈ visionParts F)
    (hlayer : layer ∈ entries payload "vision_layers") :
  Regular part layer
  := by
  constructor
  · have hkeys : ∀ key ∈ ["w_offset_axi256", "meta_offset_axi256"],
        [key, "K", "N"] ⊆ ["w_offset_axi256", "meta_offset_axi256", "K", "N"] := by decide
    apply (h.vision layer hlayer).mono
    rcases mem_visionParts.mp hpart with rfl | rfl
    · apply hkeys _ List.mem_cons_self
    · apply hkeys _ (List.mem_cons_of_mem _ List.mem_cons_self)
  · intro key hkey n hn
    have hq := hpos layer hlayer key hkey n (itemValue_int hn)
    exact_mod_cast hq

/-- The layers of the decoder make slices. -/
theorem decoder_slices [PyFloat F] {size : String → Option ℕ} (hint : IntegerOffsets payload)
    (h : (checkDecoderLayers size payload).Passes ()) (hsize : AcceptedSizes size)
    {part : DecoderPart} (hpart : part ∈ decoderParts) :
  ∃ slices : List (Slice ℚ),
    (entries payload "decoder_layers").map (decoderSlice value part) = slices.map some
      ∧ Tiles slices 0 (32 * part.half)
  := by
  have hoffset : ∀ layer ∈ entries payload "decoder_layers",
      ∃ n, itemNum layer part.bytesKey = some (.int n) := by
    intro layer hlayer
    obtain ⟨a, -, hbytes⟩ := decoderOffset h hpart hlayer (hint.decoderPart hpart hlayer)
    exact ⟨_, hbytes⟩
  choose! offset hoffset using hoffset
  have htiles := (decoder_tiles h hsize hpart hoffset).map (f := ((↑) : ℤ → ℚ))
    (fun _ _ => Int.cast_add _ _) (fun _ hx => Int.cast_nonneg hx)
  rw [Int.cast_zero, Int.cast_mul, Int.cast_ofNat] at htiles
  refine ⟨_, ?_, htiles⟩
  rw [List.map_map, List.map_map]
  apply List.map_congr_left
  intro layer hlayer
  rw [decoderSlice, itemValue_int (hoffset layer hlayer)]
  rfl

/-- The entries of the vision model make slices. -/
theorem vision_slices [PyFloat F] {size : String → Option ℕ} (hint : IntegerOffsets payload)
    (hpos : PositiveShapes value payload) (h : (checkVisionLayers size payload).Passes ())
    {part : VisionPart F} (hpart : part ∈ visionParts F) :
  ∃ (n : ℕ) (a : ℚ) (slices : List (Slice ℚ)), size part.file = some n ∧ 0 ≤ a
    ∧ (entries payload "vision_layers").map (visionSlice value part) = slices.map some
    ∧ Tiles slices a n
  := by
  obtain ⟨f, a, n, hn, ha, hf, htiles⟩ := vision_tiles h hpart
    (fun layer hlayer => hint.regular hpos hpart hlayer)
  have hcast := htiles.map (f := ((↑) : ℤ → ℚ)) (fun _ _ => Int.cast_add _ _)
    (fun _ hx => Int.cast_nonneg hx)
  rw [Int.cast_natCast] at hcast
  refine ⟨n, a, _, hn, Int.cast_nonneg ha, ?_, hcast⟩
  rw [List.map_map, List.map_map]
  apply List.map_congr_left
  intro layer hlayer
  obtain ⟨⟨i, hi, hstart⟩, ⟨k, m, hk, hm, hbytes⟩, -⟩ := hf layer hlayer
  have hslice : visionSlice value part layer
      = some ⟨(i : ℚ) * axi256Bytes, ((f layer).length : ℚ)⟩ := by
    rw [visionSlice, itemValue_int hi, hk, hm]
    simp only [Option.bind_eq_bind, Option.bind_some, hbytes, Except.toOption]
    rfl
  rw [hslice, Function.comp_apply, Function.comp_apply, Slice.map, hstart, Int.cast_mul]

/-- The check is sound for integers. -/
theorem slicesSound_of_reportsPass [PyFloat F] {dir : ExportDir F}
    (hmanifest : dir.manifest = some (.ok payload)) (hint : IntegerOffsets payload)
    (hpos : PositiveShapes value payload) (hpass : dir.ReportsPass) :
  SlicesSound value payload dir.size
  := by
  have hsize := ExportDir.acceptedSizes hpass
  obtain ⟨payload', hpayload, hcheck⟩ := dir.reportsPass_iff.mp hpass
  cases hmanifest.symm.trans hpayload
  simp only [checkPayload, passes_seq] at hcheck
  obtain ⟨-, hdecoder, -, -, -, hvision, -⟩ := hcheck
  constructor
  · intro layer hlayer part hpart
    obtain ⟨a, haxi, hbytes⟩ :=
      decoderOffset hdecoder hpart hlayer (hint.decoderPart hpart hlayer)
    refine ⟨a, itemValue_int haxi, ?_⟩
    rw [itemValue_int hbytes, Int.cast_mul]
  · intro part hpart file hfile
    obtain ⟨n, hn, hbytes⟩ := size_half hsize hpart file hfile
    obtain ⟨slices, hslices, htiles⟩ := decoder_slices hint hdecoder hsize hpart
    have hend : (32 * part.half : ℚ) = n := by exact_mod_cast hbytes.symm
    rw [hend] at htiles
    exact ⟨n, slices, hn, hslices, htiles.tiling⟩
  · intro part hpart
    obtain ⟨n, a, slices, hn, ha, hslices, htiles⟩ := vision_slices hint hpos hvision hpart
    exact ⟨n, a, slices, hn, ha, hslices, htiles.tiling⟩

/-- The export with twelve blocks has this layout. -/
theorem slicesSound_of_reportsPass_sampleExport :
  SlicesSound (fun x : Empty => nomatch x) sampleManifest sampleExport.size
  := by
  have hint : IntegerOffsets sampleManifest :=
    ⟨fun _ _ _ _ => nofun, fun _ _ _ _ => nofun⟩
  have hpos : PositiveShapes (fun x : Empty => nomatch x) sampleManifest := by
    unfold PositiveShapes
    decide +kernel
  apply slicesSound_of_reportsPass rfl hint hpos reportsPass_sampleExport

end Soundness

/-! ### A layer at a fraction of a byte -/

/-- The first layer, `2 ^ -60` bytes from the start of the weights: this is lost when it is
subtracted from the offset of the second layer. -/
def shiftedEntry : Json Float :=
  .dict [("layer", .int 0), ("w_offset_bytes", .float (Float.ofInt 1 / Float.ofInt (2 ^ 60))),
    ("meta_offset_bytes", .int 0),
    ("w_offset_axi256", .float (Float.ofInt 1 / Float.ofInt (2 ^ 65))),
    ("meta_offset_axi256", .int 0)]

/-- The manifest of the export with twelve blocks, with this layer. -/
def shiftedManifest : Json Float :=
  .dict [("kv260_status", .str "native_w4a8_ready_host_folded_awq"),
    ("decoder_layers",
      .list (shiftedEntry ::
        (List.range' 1 31).map fun layer => (decoderEntry layer).map Empty.elim)),
    ("vision_layers",
      .list ((gemmEntry "patch_embed" 0 0 1024 768 768 ::
        (List.range 12).flatMap blockEntries).map (Json.map Empty.elim))),
    ("connector", (gemmEntry "connector.projector" 0 0 64 12288 960).map Empty.elim),
    ("artifacts", .list (requiredArtifacts.map .str))]

/-- Its files have the same sizes. -/
def shiftedExport : ExportDir Float where
  manifestPath := "export/hardware_export_manifest.json"
  manifest := some (.ok shiftedManifest)
  files := sampleExport.files

theorem reportsPass_shiftedExport :
  shiftedExport.ReportsPass
  := by
  have hcheck : (checkPayload sampleSize shiftedManifest).Passes () := by decide +kernel
  rw [← size_sampleExport] at hcheck
  apply shiftedExport.reportsPass_iff.mpr ⟨shiftedManifest, rfl, hcheck⟩

/-- The weights of its layers leave out the first byte. -/
theorem not_slicesSound_shiftedExport :
  ¬ ∀ (dir : ExportDir Float) (payload : Json Float), dir.manifest = some (.ok payload) →
    PositiveShapes floatValue payload → dir.ReportsPass →
    SlicesSound floatValue payload dir.size
  := by
  intro hsound
  have hpos : PositiveShapes floatValue shiftedManifest := by
    unfold PositiveShapes
    decide +kernel
  have hstart : ∀ layer ∈ entries shiftedManifest "decoder_layers",
      ∀ s ∈ decoderSlice floatValue decoderWeights layer, 0 < s.start := by
    decide +kernel
  have hfile : shiftedExport.size "weights_half0.bin" = some 78643200 :=
    congrFun size_sampleExport "weights_half0.bin"
  obtain ⟨n, slices, hn, hslices, htiling⟩ :=
    (hsound shiftedExport shiftedManifest rfl hpos reportsPass_shiftedExport).decoder
      decoderWeights List.mem_cons_self "weights_half0.bin" List.mem_cons_self
  cases hfile.symm.trans hn
  -- no slice has the first byte
  have hzero : (0 : ℚ) ∈ ⋃ s ∈ slices, s.cells := by
    rw [htiling.cover]
    exact ⟨le_refl 0, by norm_num⟩
  obtain ⟨s, hs, hcell⟩ := Set.mem_iUnion₂.mp hzero
  have hmem : some s ∈ slices.map some := List.mem_map_of_mem hs
  rw [← hslices] at hmem
  obtain ⟨layer, hlayer, hslice⟩ := List.mem_map.mp hmem
  exact absurd hcell.1 (not_le.mpr (hstart layer hlayer s hslice))

end Kv260.Checker
