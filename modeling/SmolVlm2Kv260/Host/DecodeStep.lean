import SmolVlm2Kv260.Host.Runner

/-!
# The embedding of a decode step

`write_decode_token_activation` puts the embedding of a token in the row of its position,
while a decode launch works on row 0.  The two are the same row for position 0 only.
-/

set_option autoImplicit false

namespace Kv260

/-! ### Writing an embedding -/

section Write

variable (b : FpgaBuffer) (e : ℕ → BitVec 8) (pos : ℕ)

/-- The accepted positions are those below `max_seq`. -/
theorem writeDecodeTokenActivation_ok {maxSeq stride : ℕ} (hpos : pos < maxSeq)
    (hstride : C ≤ stride) :
  writeDecodeTokenActivation maxSeq pos (some e) stride b
    = .ok ((b.memcpy (pos * C) e C).syncToDevice C (pos * C))
  := by
  have haccept : ¬((pos : ℤ) < 0 ∨ maxSeq ≤ (pos : ℤ).toNat) := by omega
  rw [writeDecodeTokenActivation, if_neg haccept, if_neg (Nat.not_lt.mpr hstride)]
  rfl

/-- The written row holds the embedding, on the device as well. -/
theorem device_written {c : ℕ} (hc : c < C) :
  ((b.memcpy (pos * C) e C).syncToDevice C (pos * C)).device (pos * C + c) = e c
  := by
  have hin : pos * C ≤ pos * C + c ∧ pos * C + c < pos * C + C :=
    ⟨Nat.le_add_right _ _, Nat.add_lt_add_left hc _⟩
  simp only [FpgaBuffer.syncToDevice, FpgaBuffer.memcpy, if_pos hin, Nat.add_sub_cancel_left]

/-- Every other row is as it was. -/
theorem device_other {r c : ℕ} (hr : r ≠ pos) (hc : c < C) :
  ((b.memcpy (pos * C) e C).syncToDevice C (pos * C)).device (r * C + c) = b.device (r * C + c)
  := by
  have hout : ¬(pos * C ≤ r * C + c ∧ r * C + c < pos * C + C) := by
    change c < 960 at hc
    change ¬(pos * 960 ≤ r * 960 + c ∧ r * 960 + c < pos * 960 + 960)
    omega
  simp only [FpgaBuffer.syncToDevice, if_neg hout, FpgaBuffer.memcpy]

/-- Row 0 holds the embedding when it is the written row, or when it did before. -/
theorem device_row_zero_iff :
  (∀ c < C, ((b.memcpy (pos * C) e C).syncToDevice C (pos * C)).device c = e c)
    ↔ pos = 0 ∨ ∀ c < C, b.device c = e c
  := by
  rcases Nat.eq_zero_or_pos pos with rfl | hpos
  · have hwritten : ∀ c < C, ((b.memcpy (0 * C) e C).syncToDevice C (0 * C)).device c = e c := by
      intro c hc
      have h := device_written b e 0 hc
      rw [Nat.zero_mul, Nat.zero_add] at h
      rw [Nat.zero_mul]
      apply h
    simp only [true_or, iff_true]
    apply hwritten
  · have hother : ∀ c < C,
        ((b.memcpy (pos * C) e C).syncToDevice C (pos * C)).device c = b.device c := by
      intro c hc
      have h := device_other b e pos hpos.ne hc
      rw [Nat.zero_mul, Nat.zero_add] at h
      apply h
    rw [or_iff_right hpos.ne']
    apply forall₂_congr
    intro c hc
    rw [hother c hc]

end Write

/-! ### Consuming it -/

/-- The calls that decode one token at `pos`. -/
def decodeStepCalls (pos kvLen : ℕ) : List RunnerCall :=
  [.decodeTtftToken pos kvLen, .decodeThroughputWindow pos kvLen 1]

/-- The rows that a launch loads into its residual buffer are the embedding `e`. -/
def Launch.LoadsEmbedding (l : Launch) (bufs : ActBuffer → FpgaBuffer) (e : ℕ → BitVec 8) : Prop :=
  ∀ (resBuf : ResBuf), ∀ t < l.workTokenCount, ∀ c < C,
    loadAct (axiWord (bufs l.src).device) l.workTokenOffset l.workTokenCount resBuf
      (l.workTokenOffset + t) c = (e c).toInt <<< (8 : ℕ)

/-- When `e` has been written for `pos`, the first launch of the call works on it. -/
def ConsumesEmbedding (call : RunnerCall) (maxSeq pos stride : ℕ) (bufs : ActBuffer → FpgaBuffer)
    (e : ℕ → BitVec 8) : Prop :=
  ∃ written, writeDecodeTokenActivation maxSeq pos (some e) stride (bufs .ping) = .ok written
    ∧ ∀ offsets, ∃ l, (call.launches offsets).head? = some l
      ∧ l.LoadsEmbedding (Function.update bufs .ping written) e

section Consume

variable {call : RunnerCall} {pos kvLen : ℕ}

/-- The first launch of a decode step works on row 0 of `act_ping_`. -/
theorem exists_first_launch (hcall : call ∈ decodeStepCalls pos kvLen)
    (offsets : List WeightOffsets) :
  ∃ l, (call.launches offsets).head? = some l
    ∧ l.src = .ping ∧ l.workTokenOffset = 0 ∧ l.workTokenCount = 1
  := by
  rcases List.mem_pair.mp hcall with rfl | rfl
  · exact ⟨_, rfl, rfl, rfl, rfl⟩
  · exact ⟨_, rfl, rfl, rfl, rfl⟩

theorem loadsEmbedding_iff {l : Launch} (hoffset : l.workTokenOffset = 0)
    (hcount : l.workTokenCount = 1) (bufs : ActBuffer → FpgaBuffer) (e : ℕ → BitVec 8) :
  l.LoadsEmbedding bufs e ↔ ∀ c < C, (bufs l.src).device c = e c
  := by
  have hvalue : ∀ resBuf : ResBuf, ∀ c < C,
      loadAct (axiWord (bufs l.src).device) 0 1 resBuf (0 + 0) c
        = ((bufs l.src).device c).toInt <<< (8 : ℕ) := by
    intro resBuf c hc
    have hrow : 0 ≤ 0 + 0 ∧ 0 + 0 < 0 + 1 := ⟨le_refl 0, Nat.one_pos⟩
    rw [loadAct, Memory.Grid.mapRows, Memory.Grid.get_ofFn_of_lt _ (by decide) hc, if_pos hrow,
      actValue_axiWord, Nat.zero_add, Nat.sub_zero, Nat.zero_mul, Nat.zero_add]
  have hinj : ∀ x y : BitVec 8, x.toInt <<< (8 : ℕ) = y.toInt <<< (8 : ℕ) ↔ x = y := by
    intro x y
    rw [Int.shiftLeft_eq, Int.shiftLeft_eq, ← BitVec.toInt_inj]
    constructor
    · intro h
      apply Int.eq_of_mul_eq_mul_right (by decide) h
    · intro h
      rw [h]
  unfold Launch.LoadsEmbedding
  rw [hoffset, hcount]
  constructor
  · intro h c hc
    apply (hinj _ _).mp
    rw [← hvalue ⟨fun _ _ => 0⟩ c hc]
    apply h _ 0 Nat.one_pos c hc
  · intro h resBuf t ht c hc
    obtain rfl := Nat.lt_one_iff.mp ht
    rw [hvalue resBuf c hc, h c hc]

/-- A decode step works on the embedding written for it when row 0 holds it. -/
theorem consumesEmbedding_iff_row {maxSeq stride : ℕ} (hpos : pos < maxSeq) (hstride : C ≤ stride)
    (hcall : call ∈ decodeStepCalls pos kvLen) (bufs : ActBuffer → FpgaBuffer)
    (e : ℕ → BitVec 8) :
  ConsumesEmbedding call maxSeq pos stride bufs e ↔ ∀ c < C,
    (((bufs .ping).memcpy (pos * C) e C).syncToDevice C (pos * C)).device c = e c
  := by
  constructor
  · rintro ⟨written, hwrite, h⟩
    rw [writeDecodeTokenActivation_ok _ _ _ hpos hstride] at hwrite
    obtain rfl := Except.ok.inj hwrite
    obtain ⟨l, hl, hloads⟩ := h []
    obtain ⟨l', hl', hsrc, hoffset, hcount⟩ := exists_first_launch hcall []
    obtain rfl := Option.some.inj (hl.symm.trans hl')
    rw [loadsEmbedding_iff hoffset hcount, hsrc, Function.update_self] at hloads
    apply hloads
  · intro h
    refine ⟨_, writeDecodeTokenActivation_ok _ _ _ hpos hstride, ?_⟩
    intro offsets
    obtain ⟨l, hl, hsrc, hoffset, hcount⟩ := exists_first_launch hcall offsets
    refine ⟨l, hl, ?_⟩
    rw [loadsEmbedding_iff hoffset hcount, hsrc, Function.update_self]
    apply h

/-- A decode step works on the embedding written for it when its position is 0, or when row
0 held the same embedding before. -/
theorem consumesEmbedding_iff {maxSeq stride : ℕ} (hpos : pos < maxSeq) (hstride : C ≤ stride)
    (hcall : call ∈ decodeStepCalls pos kvLen) (bufs : ActBuffer → FpgaBuffer)
    (e : ℕ → BitVec 8) :
  ConsumesEmbedding call maxSeq pos stride bufs e
    ↔ pos = 0 ∨ ∀ c < C, (bufs .ping).device c = e c
  := by
  rw [consumesEmbedding_iff_row hpos hstride hcall, device_row_zero_iff]

end Consume

/-- Buffers of zeros. -/
def zeroBuffers : ActBuffer → FpgaBuffer := fun _ => ⟨fun _ => 0, fun _ => 0⟩

/-- Buffers of ones. -/
def oneBuffers : ActBuffer → FpgaBuffer := fun _ => ⟨fun _ => 1, fun _ => 1⟩

/-- Position 64 after a prompt of 64 tokens: the step works on an embedding of ones when row 0
holds ones, and not when it holds zeros. -/
theorem consumesEmbedding_after_prompt :
  ((64 = 0 ∨ ∀ c < C, (oneBuffers .ping).device c = 1)
      ∧ ConsumesEmbedding (.decodeTtftToken 64 64) 512 64 C oneBuffers fun _ => 1)
    ∧ ¬ (64 = 0 ∨ ∀ c < C, (zeroBuffers .ping).device c = 1)
    ∧ ¬ ConsumesEmbedding (.decodeTtftToken 64 64) 512 64 C zeroBuffers fun _ => 1
  := by
  have hones : 64 = 0 ∨ ∀ c < C, (oneBuffers .ping).device c = 1 := .inr fun _ _ => rfl
  have hzeros : ¬ (64 = 0 ∨ ∀ c < C, (zeroBuffers .ping).device c = 1) := by
    rintro (hpos | hrow)
    · cases hpos
    · absurd hrow 0 (by decide)
      decide
  refine ⟨⟨hones, ?_⟩, hzeros, ?_⟩
  · apply (consumesEmbedding_iff (by decide) (le_refl C) List.mem_cons_self _ _).mpr hones
  · rwa [consumesEmbedding_iff (by decide) (le_refl C) List.mem_cons_self]

/-- Position 64 after a prompt of 64 tokens: the step works on row 0, which holds zeros. -/
theorem not_consumesEmbedding_after_prompt :
  ¬ ConsumesEmbedding (.decodeTtftToken 64 64) 512 64 C zeroBuffers fun _ => 1
  := by
  rw [consumesEmbedding_iff_row (by decide) (le_refl C) List.mem_cons_self, device_row_zero_iff]
  rintro (hpos | hrow)
  · cases hpos
  · have hzero : (0 : BitVec 8) = 1 := hrow 0 (by decide)
    revert hzero
    decide

end Kv260
