import Mathlib.Algebra.Group.Nat.Defs
import SmolVlm2Kv260.Host.ServerTask

/-!
# The image of a request

`fpga_write_first_image_chunk` looks for the image of a request, checks its shape and hands it to
the FPGA session, one INT8 value for each float and in the order of the floats.  It asks for an
image of `16 * 16` pixels whose data are those of `1024` such patches, so no image that has a
float for each pixel and channel is accepted.
-/

set_option autoImplicit false

namespace Kv260

/-! ### The code -/

section Write

variable {F : Type} (lrint127 : F → ℤ)

/-- `fpga_quantize_f32_to_i8`, where `lrint127 v` is `lrint(v * 127.0f)`, a `long` that is cast to
`int` before it is clamped. -/
def fpgaQuantizeF32ToI8 (v : F) : ℤ :=
  let q := (lrint127 v).bmod (2 ^ 32)
  max (-127) (min 127 q)

abbrev expectedPatches : ℕ := 32 * 32
abbrev expectedHidden : ℕ := 16 * 16 * 3

/-- The values that are handed over for a chunk, if it passes the checks. -/
def visionI8 (chunk : InputChunk F) : Except String (List ℤ) :=
  if chunk.type ≠ .image then
    .error "FPGA path currently supports image chunks only, not audio chunks"
  else
    match chunk.tokensImage with
    | none => .error "image chunk does not contain preprocessed image tokens"
    | some imageTokens =>
        if imageTokens.entries.length ≠ 1 then
          .error "FPGA path expects exactly one preprocessed image entry"
        else
          match imageTokens.imageF32 0 with
          | none => .error "image chunk f32 data is unavailable"
          | some f32 =>
              if imageTokens.imageNx 0 * imageTokens.imageNy 0 * 3 ≠ expectedHidden
                  ∨ f32.length ≠ expectedPatches * expectedHidden then
                .error ("preprocessed image shape does not match FPGA ViT patch input " ++
                  "1024x768")
              else .ok (f32.map (fpgaQuantizeF32ToI8 lrint127))

variable (session : FpgaSession) (st : ServerTokens F)

/-- The loop over the positions: whether it goes through, and the text of the error buffer if it
does not. -/
def writeImageLoop (pos : ℕ) (sawImage : Bool) : ServerM (Bool × String) :=
  if hpos : pos < st.tokens.length then
    if st.tokens[pos] ≠ llamaTokenNull then writeImageLoop (pos + 1) sawImage
    else if hsaw : sawImage then
      throw "FPGA path currently supports exactly one image per request"
    else do
      let chunk ← Fallible.ofExcept (st.findChunk pos)
      let patches ← Fallible.ofExcept (visionI8 lrint127 chunk)
      let reply ← ServerM.call session
        (.writeVisionPatchesI8 patches expectedPatches expectedHidden)
      if reply.rc ≠ 0 then return (false, reply.err)
      else writeImageLoop (pos + chunk.nPos) true
  else if sawImage then return (true, "")
  else throw "FPGA multimodal path requires an image chunk"
termination_by (if sawImage then 0 else 1, st.tokens.length - pos)
decreasing_by
  · apply Prod.Lex.right
    omega
  · apply Prod.Lex.left
    rw [if_neg hsaw]
    decide

/-- `fpga_write_first_image_chunk`. -/
def fpgaWriteFirstImageChunk : ServerM (Bool × String) :=
  writeImageLoop lrint127 session st 0 false

/-! ### What is accepted -/

/-- The images that pass the checks. -/
def AcceptedShape (t : ImageTokens F) : Prop :=
  ∃ img, t.entries = [img] ∧ img.nx * img.ny * 3 = expectedHidden
    ∧ img.buf.length = expectedPatches * expectedHidden

theorem visionI8_isOk_iff (t : ImageTokens F) :
  (∃ patches, visionI8 lrint127 (.image t) = .ok patches) ↔ AcceptedShape t
  := by
  simp only [visionI8, InputChunk.type, InputChunk.tokensImage, ne_eq, not_true_eq_false, if_false]
  by_cases hlen : t.entries.length = 1
  case neg =>
    rw [if_pos hlen]
    constructor
    · rintro ⟨_, h⟩
      cases h
    · rintro ⟨img, hentries, -⟩
      rw [hentries] at hlen
      exact absurd rfl hlen
  case pos =>
    obtain ⟨img, hentries⟩ := List.length_eq_one_iff.mp hlen
    have hnx : t.imageNx 0 = img.nx := by rw [ImageTokens.imageNx, hentries]; rfl
    have hny : t.imageNy 0 = img.ny := by rw [ImageTokens.imageNy, hentries]; rfl
    have hshape : AcceptedShape t ↔ img.nx * img.ny * 3 = expectedHidden
        ∧ img.buf.length = expectedPatches * expectedHidden := by
      constructor
      · rintro ⟨img', hentries', h⟩
        obtain rfl := List.singleton_inj.mp (hentries.symm.trans hentries')
        apply h
      · intro h
        exact ⟨img, hentries, h⟩
    have hf32 : t.imageF32 0 = if img.buf.isEmpty then none else some img.buf := by
      rw [ImageTokens.imageF32, hentries]
      change Option.filter (fun buf : List F => !buf.isEmpty) (some img.buf) = _
      cases img.buf <;> rfl
    rw [if_neg (not_not.mpr hlen), hshape, hnx, hny, hf32]
    split
    · rename_i hnone
      have hempty : img.buf = [] := by
        split_ifs at hnone with hempty
        apply List.isEmpty_iff.mp hempty
      constructor
      · rintro ⟨_, h⟩
        cases h
      · rintro ⟨-, h⟩
        rw [hempty] at h
        cases h
    · rename_i f32 hsome
      split_ifs at hsome
      obtain rfl := Option.some.inj hsome
      split_ifs with hmismatch
      · constructor
        · rintro ⟨_, h⟩
          cases h
        · rintro ⟨hnxy, hbuf⟩
          exact absurd hmismatch (not_or.mpr ⟨not_not.mpr hnxy, not_not.mpr hbuf⟩)
      · rw [not_or, not_not, not_not] at hmismatch
        constructor
        · rintro -
          apply hmismatch
        · rintro -
          exact ⟨_, rfl⟩

/-- An image with a float for each pixel and channel does not pass, whatever its size. -/
theorem not_acceptedShape {t : ImageTokens F} {img : ClipImageF32 F} (hentries : t.entries = [img])
    (hbuf : img.buf.length = img.nx * img.ny * 3) :
  ¬ AcceptedShape t
  := by
  rintro ⟨img', hentries', hnxy, hlen⟩
  obtain rfl := List.singleton_inj.mp (hentries.symm.trans hentries')
  rw [hbuf, hnxy] at hlen
  revert hlen
  decide

/-- An image that does not pass is refused. -/
theorem visionI8_of_not_acceptedShape {t : ImageTokens F} (h : ¬ AcceptedShape t) :
  ∃ e, visionI8 lrint127 (.image t) = .error e
  := by
  rcases hvision : visionI8 lrint127 (.image t) with e | patches
  · exact ⟨e, rfl⟩
  · exact absurd ((visionI8_isOk_iff lrint127 t).mp ⟨patches, hvision⟩) h

/-- When no chunk passes the checks, the loop throws before any call. -/
theorem writeImageLoop_throws
    (h : ∀ pos chunk, st.findChunk pos = .ok chunk → ∃ e, visionI8 lrint127 chunk = .error e)
    (pos : ℕ) (log : ServerLog) :
  ∃ e, (writeImageLoop lrint127 session st pos false).run log = (.error e, log)
  := by
  induction hn : st.tokens.length - pos generalizing pos with
  | zero =>
      have hend : ¬ pos < st.tokens.length := by omega
      rw [writeImageLoop, dif_neg hend]
      exact ⟨_, rfl⟩
  | succ n ih =>
      have hpos : pos < st.tokens.length := by omega
      rw [writeImageLoop, dif_pos hpos]
      by_cases htoken : st.tokens[pos] ≠ llamaTokenNull
      · rw [if_pos htoken]
        apply ih
        omega
      · rw [if_neg htoken, dif_neg Bool.false_ne_true]
        rcases hfind : st.findChunk pos with e | chunk
        · exact ⟨e, rfl⟩
        · obtain ⟨e, he⟩ := h pos chunk hfind
          rw [Fallible.run_bind_of_ok rfl, he]
          exact ⟨e, rfl⟩

/-! ### The order of the patches -/

/-- A pixel of an image, row by row and with the channels side by side. -/
def ClipImageF32.pixel (img : ClipImageF32 F) (row col c : ℕ) : Option F :=
  img.buf[(row * img.nx + col) * 3 + c]?

/-- The rows are the patches of the image, row by row, and inside a row the channels, and the
rows and columns of the patch, in the order of the weights of the patch embedding. -/
def PatchRows (img : ClipImageF32 F) (patches : List ℤ) : Prop :=
  ∀ py < 32, ∀ px < 32, ∀ c < 3, ∀ ky < 16, ∀ kx < 16,
    patches[(py * 32 + px) * expectedHidden + (c * 256 + ky * 16 + kx)]?
      = (img.pixel (py * 16 + ky) (px * 16 + kx) c).map (fpgaQuantizeF32ToI8 lrint127)

/-- The image is accepted, and its patches are handed over in this order. -/
def HandsPatches (img : ClipImageF32 F) : Prop :=
  ∃ patches, ((fpgaWriteFirstImageChunk lrint127 session st).run {}).2.calls
      = [.writeVisionPatchesI8 patches expectedPatches expectedHidden]
    ∧ PatchRows lrint127 img patches

/-- Nothing is handed over when the loop throws before any call. -/
theorem not_handsPatches_of_throws {img : ClipImageF32 F}
    (h : ∃ e, (fpgaWriteFirstImageChunk lrint127 session st).run {} = (.error e, {})) :
  ¬ HandsPatches lrint127 session st img
  := by
  rintro ⟨patches, hcalls, -⟩
  obtain ⟨e, he⟩ := h
  rw [he] at hcalls
  cases hcalls

/-- The chunks of a request with one image chunk, which holds a well-formed image of
`512 * 512` pixels. -/
structure CarriesImage (chunks : List (InputChunk F)) (st : ServerTokens F)
    (img : ClipImageF32 F) : Prop where
  ofChunks : ServerTokens.ofChunks chunks true = .ok st
  one_image : ∃ t, chunks.filter (·.type = .image) = [.image t] ∧ t.entries = [img]
  nx_eq : img.nx = 512
  ny_eq : img.ny = 512
  length_buf : img.buf.length = img.nx * img.ny * 3

/-- Every such request is refused before any call. -/
theorem CarriesImage.throws {chunks : List (InputChunk F)} {st : ServerTokens F}
    {img : ClipImageF32 F} (h : CarriesImage chunks st img) (log : ServerLog) :
  ∃ e, (fpgaWriteFirstImageChunk lrint127 session st).run log = (.error e, log)
  := by
  obtain ⟨t, hfilter, hentries⟩ := h.one_image
  apply writeImageLoop_throws
  intro pos chunk hfind
  obtain ⟨e, he, rfl⟩ := ServerTokens.mem_of_findChunk hfind
  have hmem := ServerTokens.mem_of_ofChunks h.ofChunks he
  by_cases htype : e.2.type = .image
  · have himage : e.2 ∈ chunks.filter (·.type = .image) :=
      List.mem_filter.mpr ⟨hmem, decide_eq_true htype⟩
    rw [hfilter, List.mem_singleton] at himage
    rw [himage]
    apply visionI8_of_not_acceptedShape lrint127 (not_acceptedShape hentries h.length_buf)
  · rw [visionI8, if_pos htype]
    exact ⟨_, rfl⟩

/-- No request with a well-formed image of `512 * 512` pixels is accepted: every one throws, and
no patches are handed over. -/
theorem not_handsPatches {chunks : List (InputChunk F)} {img : ClipImageF32 F}
    (h : CarriesImage chunks st img) :
  (∃ e, (fpgaWriteFirstImageChunk lrint127 session st).run {} = (.error e, {}))
    ∧ ¬ HandsPatches lrint127 session st img
  := by
  constructor
  · apply h.throws
  · apply not_handsPatches_of_throws
    apply h.throws

end Write

/-! ### A black image -/

/-- A black image. -/
def blackImage : ClipImageF32 ℤ := ⟨512, 512, List.replicate (512 * 512 * 3) 0⟩

/-- The chunk that carries it. -/
def blackChunk : ImageTokens ℤ := ⟨8, 8, true, [blackImage]⟩

/-- The tokens of a request of one word and the image. -/
def blackTokens : ServerTokens ℤ := ⟨true, [(1, .image blackChunk)], [7, llamaTokenNull]⟩

theorem carriesImage_black :
  CarriesImage [.text [7], .image blackChunk] blackTokens blackImage
  where
  ofChunks := rfl
  one_image := ⟨blackChunk, rfl, rfl⟩
  nx_eq := rfl
  ny_eq := rfl
  length_buf := List.length_replicate

/-- A session in which every call succeeds. -/
def idleSession : FpgaSession := fun _ => ⟨0, "", 0, fun _ => 0⟩

theorem not_forall_handsPatches :
  ¬ ∀ (chunks : List (InputChunk ℤ)) (st : ServerTokens ℤ) (img : ClipImageF32 ℤ),
    CarriesImage chunks st img → HandsPatches id idleSession st img
  := by
  intro h
  apply not_handsPatches_of_throws id idleSession blackTokens (carriesImage_black.throws _ _ _)
    (h _ _ _ carriesImage_black)

theorem not_handsPatches_black :
  (∃ e, (fpgaWriteFirstImageChunk id idleSession blackTokens).run {} = (.error e, {}))
    ∧ ¬ HandsPatches id idleSession blackTokens blackImage
  := not_handsPatches id idleSession blackTokens carriesImage_black

end Kv260
