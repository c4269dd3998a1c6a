import SmolVlm2Kv260.Ggml.Sidecar

/-!
# Multiplications on the accelerator

`ggml_backend_xrt_mul_mat` keeps its buffers between calls: a scratch, which is allocated again
when the shape of a call is not that of the call before, and the unpacked weights of each tensor.
Every call overwrites the part of the scratch that it reads, so that nothing is left over from the
calls before.

A call that fails while it allocates the scratch leaves buffers of one shape with the key of
another.
-/

set_option autoImplicit false

namespace Kv260

open Blocks Fallible

/-! ### Buffers -/

/-- `block_q8_0`. -/
structure BlockQ8 where
  d : BitVec 16
  qs : Fin 32 → BitVec 8

/-- A block of zero bytes. -/
def BlockQ8.zero : BlockQ8 := ⟨0, fun _ => 0⟩

/-- `xrt::bo`: the mapping of the host and the memory of the device. -/
structure Bo (α : Type) where
  host : List α
  device : List α

namespace Bo

variable {α : Type}

/-- A new buffer; what it holds is left open. -/
def alloc (n : ℕ) (fill : ℕ → α) : Bo α := ⟨(List.range n).map fill, (List.range n).map fill⟩

/-- `sync(XCL_BO_SYNC_BO_TO_DEVICE)`. -/
def syncToDevice (bo : Bo α) : Bo α := { bo with device := bo.host }

/-- `sync(XCL_BO_SYNC_BO_FROM_DEVICE)`. -/
def syncFromDevice (bo : Bo α) : Bo α := { bo with host := bo.device }

end Bo

section Lists

variable {α : Type}

/-- The first places of a buffer are written. -/
def writeFront (xs old : List α) : List α := xs ++ old.drop xs.length

/-- `std::vector::resize`. -/
def resize (n : ℕ) (zero : α) (xs : List α) : List α :=
  xs.take n ++ List.replicate (n - xs.length) zero

theorem length_alloc (n : ℕ) (fill : ℕ → α) :
  (Bo.alloc n fill).host.length = n
  := by
  rw [Bo.alloc, List.length_map, List.length_range]

theorem writeFront_eq {xs old : List α} (h : old.length = xs.length) :
  writeFront xs old = xs
  := by
  rw [writeFront, ← h, List.drop_length, List.append_nil]

theorem length_resize (n : ℕ) (zero : α) (xs : List α) :
  (resize n zero xs).length = n
  := by
  rw [resize, List.length_append, List.length_take, List.length_replicate]
  omega

end Lists

/-- `xrt_scratch`. -/
structure XrtScratch (Y : Type) where
  actBo : Bo (BitVec 8)
  actSBo : Bo (BitVec 16)
  outBo : Bo Y
  q8Workbuf : List BlockQ8
  outHost : List Y
  M : ℕ
  K : ℕ
  N : ℕ

/-- `xrt_weight_cache`. -/
structure XrtWeightCache where
  wBo : Bo (BitVec 8)
  sBo : Bo (BitVec 16)
  fromSidecar : Bool

/-- The scratch, and the weights that the tensors keep as `extra`. -/
structure XrtState (ι Y : Type) where
  scratch : XrtScratch Y
  extra : ι → Option XrtWeightCache

/-- Before the first call. -/
def XrtState.init {ι Y : Type} : XrtState ι Y where
  scratch := ⟨⟨[], []⟩, ⟨[], []⟩, ⟨[], []⟩, [], [], 0, 0, 0⟩
  extra _ := none

/-! ### Calls -/

/-- A weight tensor; a `Q8_0` tensor has the bytes of its blocks. -/
structure WeightTensor where
  tensor : GgmlTensor
  data : List (BitVec 8)
  length_data : tensor.type = .q8_0 →
    data.length = unpackBytes (tensor.ne 1).toNat (tensor.ne 0).toNat

/-- The runtime, the weights, and what is computed: the blocks of a row by
`quantize_row_q8_0_ref`, and a row of results by the kernel, from the values and scales of a row
of activations and from the weights. -/
structure XrtBackend (ι X Y : Type) where
  rt : XrtRuntime
  weight : ι → WeightTensor
  quantizeRow : List X → ℕ → BlockQ8
  gemmRow (K N : ℕ) (act : List (BitVec 8)) (actS : List (BitVec 16)) (w : List (BitVec 8))
    (s : List (BitVec 16)) : ℕ → Y
  zero : Y

/-- What may throw: allocations, mappings, transfers, and the launch of the kernel and the wait for
it.  When the wait throws, the kernel has written its results. -/
inductive XrtStep where
  | allocAct
  | allocActS
  | allocOut
  | resizeWorkbuf
  | resizeOutHost
  | newCache
  | allocW
  | allocS
  | mapW
  | mapS
  | syncW
  | syncS
  | mapAct
  | mapActS
  | syncAct
  | syncActS
  | launch
  | wait
  | syncOut
  | mapOut
  deriving DecidableEq

/-- The steps that throw, and what new buffers hold. -/
structure XrtEnv (Y : Type) where
  fails : XrtStep → Bool
  fillValue : ℕ → BitVec 8
  fillScale : ℕ → BitVec 16
  fillOut : ℕ → Y

inductive XrtFailure where
  | exception
  | outOfBounds

namespace XrtBackend

variable {ι X Y : Type} (b : XrtBackend ι X Y) (i : ι)

/-- The shape of a weight. -/
def K : ℕ := ((b.weight i).tensor.ne 0).toNat
def N : ℕ := ((b.weight i).tensor.ne 1).toNat

/-- The bytes from which a weight is unpacked: those of its entry, or its own. -/
def source : ℕ → BitVec 8 :=
  match b.rt.sidecarFor (b.weight i).tensor with
  | some t => fun p => b.rt.sidecar.weightsBlob.getD (t.offsetBytes.toNat + p) 0
  | none => fun p => (b.weight i).data.getD p 0

/-- How many bytes there are. -/
def available : ℕ :=
  match b.rt.sidecarFor (b.weight i).tensor with
  | some t => b.rt.sidecar.weightsBlob.length - t.offsetBytes.toNat
  | none => (b.weight i).data.length

/-- All of its blocks are there. -/
def SourceInBounds : Prop := unpackBytes (b.N i) (b.K i) ≤ b.available i

instance : Decidable (b.SourceInBounds i) := inferInstanceAs (Decidable (_ ≤ _))

/-- The unpacked values and scales of a weight. -/
def weightValues : List (BitVec 8) := unpackValues (b.source i) (b.N i) (b.K i)
def weightScales : List (BitVec 16) := unpackScales (b.source i) (b.N i) (b.K i)

end XrtBackend

section MulMat

variable {ι X Y : Type}

/-- A multiplication: a weight, and an activation with as many columns. -/
structure MulMatCall (b : XrtBackend ι X Y) where
  src0 : ι
  src1 : GgmlTensor
  data : List X
  env : XrtEnv Y
  canMulMat : (b.weight src0).tensor.ne 0 = src1.ne 0
  length_data : data.length = (src1.ne 1).toNat * (src1.ne 0).toNat

/-- A step that may throw. -/
def attempt (env : XrtEnv Y) (step : XrtStep) : Fallible (XrtState ι Y) XrtFailure Unit :=
  if env.fails step then throw .exception else pure ()

/-- An access that has to lie inside the buffers. -/
def access (inBounds : Prop) [Decidable inBounds] : Fallible (XrtState ι Y) XrtFailure Unit :=
  if inBounds then pure () else throw .outOfBounds

/-- A change of the scratch. -/
def updateScratch (f : XrtScratch Y → XrtScratch Y) : Fallible (XrtState ι Y) XrtFailure Unit :=
  update fun st => { st with scratch := f st.scratch }

namespace MulMatCall

variable [DecidableEq ι] {b : XrtBackend ι X Y} (c : MulMatCall b)

/-- `kTileM`. -/
abbrev kTileM : ℕ := 64

/-- The shape of the call, with its rows padded to full tiles. -/
def K : ℕ := b.K c.src0
def N : ℕ := b.N c.src0
def M : ℕ := (c.src1.ne 1).toNat
def mPad : ℕ := (c.M + kTileM - 1) / kTileM * kTileM
def kG : ℕ := c.K / 32

/-- The scratch is allocated again when the shape changes; its key is set last. -/
def rekey : Fallible (XrtState ι Y) XrtFailure Unit := do
  let st ← state
  if st.scratch.M = c.mPad ∧ st.scratch.K = c.K ∧ st.scratch.N = c.N then pure ()
  else do
    attempt c.env .allocAct
    updateScratch fun sc => { sc with actBo := .alloc (c.mPad * c.K) c.env.fillValue }
    attempt c.env .allocActS
    updateScratch fun sc => { sc with actSBo := .alloc (c.mPad * c.kG) c.env.fillScale }
    attempt c.env .allocOut
    updateScratch fun sc => { sc with outBo := .alloc (c.mPad * c.N) c.env.fillOut }
    attempt c.env .resizeWorkbuf
    updateScratch fun sc => { sc with q8Workbuf := resize (c.mPad * c.kG) .zero sc.q8Workbuf }
    attempt c.env .resizeOutHost
    updateScratch fun sc => { sc with outHost := resize (c.mPad * c.N) b.zero sc.outHost }
    updateScratch fun sc => { sc with M := c.mPad, K := c.K, N := c.N }

/-- The cache of a weight that was unpacked and transferred. -/
def newCache : XrtWeightCache :=
  let wBo : Bo (BitVec 8) := .alloc (c.N * c.K) c.env.fillValue
  let sBo : Bo (BitVec 16) := .alloc (c.N * c.kG) c.env.fillScale
  { wBo := Bo.syncToDevice { wBo with host := writeFront (b.weightValues c.src0) wBo.host }
    sBo := Bo.syncToDevice { sBo with host := writeFront (b.weightScales c.src0) sBo.host }
    fromSidecar := (b.rt.sidecarFor (b.weight c.src0).tensor).isSome }

/-- The weights are unpacked the first time they are used. -/
def weightCache : Fallible (XrtState ι Y) XrtFailure XrtWeightCache := do
  let st ← state
  match st.extra c.src0 with
  | some wc => pure wc
  | none => do
      attempt c.env .newCache
      attempt c.env .allocW
      attempt c.env .allocS
      attempt c.env .mapW
      attempt c.env .mapS
      access (b.SourceInBounds c.src0)
      access ((b.weightValues c.src0).length ≤ c.N * c.K
        ∧ (b.weightScales c.src0).length ≤ c.N * c.kG)
      attempt c.env .syncW
      attempt c.env .syncS
      update fun st => { st with extra := Function.update st.extra c.src0 (some c.newCache) }
      pure c.newCache

/-- The blocks of row `m`: a quantised row, or zeros to pad the last tile. -/
def rowBlocks (m : ℕ) : List BlockQ8 :=
  if m < c.M then (List.range c.kG).map (b.quantizeRow ((c.data.drop (m * c.K)).take c.K))
  else List.replicate c.kG .zero

/-- The activation is quantised into the work buffer. -/
def quantize : Fallible (XrtState ι Y) XrtFailure Unit := do
  let st ← state
  access (c.M * c.K ≤ c.data.length ∧ c.mPad * c.kG ≤ st.scratch.q8Workbuf.length)
  updateScratch fun sc =>
    { sc with q8Workbuf := writeFront ((List.range c.mPad).flatMap c.rowBlocks) sc.q8Workbuf }

/-- Its values and scales are written apart, and transferred. -/
def deinterleave : Fallible (XrtState ι Y) XrtFailure Unit := do
  attempt c.env .mapAct
  attempt c.env .mapActS
  let st ← state
  access (c.mPad * c.kG ≤ st.scratch.q8Workbuf.length
    ∧ c.mPad * c.K ≤ st.scratch.actBo.host.length
    ∧ c.mPad * c.kG ≤ st.scratch.actSBo.host.length)
  let blocks := st.scratch.q8Workbuf.take (c.mPad * c.kG)
  updateScratch fun sc =>
    { sc with
      actBo := { sc.actBo with
        host := writeFront (blocks.flatMap fun block => List.ofFn block.qs) sc.actBo.host }
      actSBo := { sc.actSBo with host := writeFront (blocks.map BlockQ8.d) sc.actSBo.host } }
  attempt c.env .syncAct
  updateScratch fun sc => { sc with actBo := sc.actBo.syncToDevice }
  attempt c.env .syncActS
  updateScratch fun sc => { sc with actSBo := sc.actSBo.syncToDevice }

/-- What the kernel computes from the buffers on the device, row by row. -/
def gemm (sc : XrtScratch Y) (wc : XrtWeightCache) : List Y :=
  (List.range c.mPad).flatMap fun m =>
    (List.range c.N).map (b.gemmRow c.K c.N
      ((sc.actBo.device.drop (m * c.K)).take c.K) ((sc.actSBo.device.drop (m * c.kG)).take c.kG)
      (wc.wBo.device.take (c.N * c.K)) (wc.sBo.device.take (c.N * c.kG)))

def launch (wc : XrtWeightCache) : Fallible (XrtState ι Y) XrtFailure Unit := do
  attempt c.env .launch
  let st ← state
  access (c.mPad * c.K ≤ st.scratch.actBo.device.length
    ∧ c.mPad * c.kG ≤ st.scratch.actSBo.device.length
    ∧ c.N * c.K ≤ wc.wBo.device.length ∧ c.N * c.kG ≤ wc.sBo.device.length
    ∧ c.mPad * c.N ≤ st.scratch.outBo.device.length)
  updateScratch fun sc =>
    { sc with outBo := { sc.outBo with device := writeFront (c.gemm sc wc) sc.outBo.device } }
  attempt c.env .wait

/-- The padded results are read back; the rows of the call are those that `dst` receives. -/
def readBack : Fallible (XrtState ι Y) XrtFailure (List Y) := do
  attempt c.env .syncOut
  updateScratch fun sc => { sc with outBo := sc.outBo.syncFromDevice }
  attempt c.env .mapOut
  let st ← state
  access (c.mPad * c.N ≤ st.scratch.outBo.host.length ∧ c.mPad * c.N ≤ st.scratch.outHost.length)
  let outHost := writeFront (st.scratch.outBo.host.take (c.mPad * c.N)) st.scratch.outHost
  updateScratch fun sc => { sc with outHost := outHost }
  pure ((List.range c.M).flatMap fun m => (outHost.drop (m * c.N)).take c.N)

/-- `ggml_backend_xrt_mul_mat`: what is written to `dst`. -/
def mulMat : Fallible (XrtState ι Y) XrtFailure (List Y) := do
  c.rekey
  let wc ← c.weightCache
  c.quantize
  c.deinterleave
  c.launch wc
  c.readBack

/-- `supports_op` accepts the multiplication. -/
def Supported : Prop :=
  b.rt.supportsOp ⟨.mulMat, some (b.weight c.src0).tensor, some c.src1⟩ = true

instance : Decidable c.Supported := inferInstanceAs (Decidable (_ = true))

end MulMatCall

/-! ### Consistent states -/

/-- The buffers have the sizes of the key, and the tensors keep their unpacked weights. -/
structure XrtState.Consistent (b : XrtBackend ι X Y) (st : XrtState ι Y) : Prop where
  act : st.scratch.actBo.host.length = st.scratch.M * st.scratch.K
  actS : st.scratch.actSBo.host.length = st.scratch.M * (st.scratch.K / 32)
  outHost : st.scratch.outBo.host.length = st.scratch.M * st.scratch.N
  outDevice : st.scratch.outBo.device.length = st.scratch.M * st.scratch.N
  workbuf : st.scratch.q8Workbuf.length = st.scratch.M * (st.scratch.K / 32)
  host : st.scratch.outHost.length = st.scratch.M * st.scratch.N
  cached : ∀ i wc, st.extra i = some wc → b.SourceInBounds i
    ∧ wc.wBo.device = b.weightValues i ∧ wc.sBo.device = b.weightScales i

theorem XrtState.consistent_init (b : XrtBackend ι X Y) :
  (XrtState.init : XrtState ι Y).Consistent b
  := by
  constructor
  · rfl
  · apply (Nat.zero_mul _).symm
  · rfl
  · rfl
  · apply (Nat.zero_mul _).symm
  · rfl
  · rintro i wc ⟨⟩

namespace MulMatCall

variable {b : XrtBackend ι X Y} {c : MulMatCall b}

/-- The scratch has the shape of the call. -/
def SameShape (c : MulMatCall b) (st : XrtState ι Y) : Prop :=
  st.scratch.M = c.mPad ∧ st.scratch.K = c.K ∧ st.scratch.N = c.N

instance (c : MulMatCall b) (st : XrtState ι Y) : Decidable (c.SameShape st) :=
  inferInstanceAs (Decidable (_ ∧ _))

/-- A call is clean when a weight that it unpacks has all of its blocks, and when it does not
throw between the first allocation of a new scratch and its key. -/
structure Clean (c : MulMatCall b) (st : XrtState ι Y) : Prop where
  unpacks : st.extra c.src0 = none → b.SourceInBounds c.src0
  rekeys : ¬ c.SameShape st → c.env.fails .allocAct = true
    ∨ c.env.fails .allocActS = false ∧ c.env.fails .allocOut = false
      ∧ c.env.fails .resizeWorkbuf = false ∧ c.env.fails .resizeOutHost = false

/-- A call throws because a step fails, and leaves a consistent state. -/
def Throws (c : MulMatCall b) (e : XrtFailure) (st : XrtState ι Y) : Prop :=
  e = .exception ∧ (∃ step, c.env.fails step = true) ∧ st.Consistent b

/-- The values and scales of row `m` of the activation. -/
def rowValues (c : MulMatCall b) (m : ℕ) : List (BitVec 8) :=
  (c.rowBlocks m).flatMap fun block => List.ofFn block.qs
def rowScales (c : MulMatCall b) (m : ℕ) : List (BitVec 16) := (c.rowBlocks m).map BlockQ8.d

/-- Row `m` of the results of the call alone. -/
def row (c : MulMatCall b) (m : ℕ) : List Y :=
  (List.range c.N).map (b.gemmRow c.K c.N (c.rowValues m) (c.rowScales m)
    (b.weightValues c.src0) (b.weightScales c.src0))

/-- What `dst` receives. -/
def rows (c : MulMatCall b) : List Y := (List.range c.M).flatMap c.row

section Shape

variable (hc : c.Supported)

include hc

theorem shapeOk_of_supported :
  shapeOk ((b.weight c.src0).tensor.ne 0) ((b.weight c.src0).tensor.ne 1)
  := by
  rw [Supported, XrtRuntime.supportsOp, Bool.and_eq_true, decide_eq_true_iff] at hc
  obtain ⟨-, -, -, -, -, -, -, -, -, hshape, -⟩ := hc
  apply hshape

theorem K_eq :
  c.K = c.kG * 32
  := by
  have hdvd : 32 ∣ c.K := by
    rcases shapeOk_of_supported hc with ⟨hK, -⟩ | ⟨hK, -⟩ <;> rw [K, XrtBackend.K, hK] <;> decide
  rw [kG, Nat.div_mul_cancel hdvd]

/-- The blocks of the weight are its bytes, or those of its entry. -/
theorem sourceInBounds_of_not_sidecar
    (hnone : b.rt.sidecarFor (b.weight c.src0).tensor = none) :
  b.SourceInBounds c.src0
  := by
  rw [Supported, XrtRuntime.supportsOp, Bool.and_eq_true, decide_eq_true_iff] at hc
  obtain ⟨-, -, -, -, -, -, -, -, htype, -⟩ := hc
  rw [hnone] at htype
  have hq8 : (b.weight c.src0).tensor.type = .q8_0 := by
    rcases htype with h | h
    · apply h
    · cases h
  rw [XrtBackend.SourceInBounds, XrtBackend.available, hnone]
  apply le_of_eq ((b.weight c.src0).length_data hq8).symm

theorem length_weightValues :
  (b.weightValues c.src0).length = c.N * c.K
  := by
  have hrow : ∀ n, ((List.range (b.K c.src0 / 32)).flatMap fun kg => (List.range 32).map fun i =>
      b.source c.src0 (blockByte (b.K c.src0) n kg (2 + i))).length = c.kG * 32 := by
    intro n
    apply length_flatMap_range
    intro kg _
    rw [List.length_map, List.length_range]
  rw [K_eq hc]
  apply length_flatMap_range fun n _ => hrow n

omit hc in
theorem length_weightScales :
  (b.weightScales c.src0).length = c.N * c.kG
  := by
  apply length_flatMap_range
  intro n _
  rw [List.length_map, List.length_range]
  rfl

end Shape

theorem length_rowBlocks (c : MulMatCall b) (m : ℕ) :
  (c.rowBlocks m).length = c.kG
  := by
  rw [rowBlocks]
  split
  · rw [List.length_map, List.length_range]
  · rw [List.length_replicate]

theorem length_rowValues (c : MulMatCall b) (m : ℕ) :
  (c.rowValues m).length = c.kG * 32
  := by
  rw [rowValues, ← c.length_rowBlocks m]
  induction c.rowBlocks m with
  | nil => rfl
  | cons block blocks ih =>
      rw [List.flatMap_cons, List.length_append, ih, List.length_ofFn, List.length_cons,
        Nat.succ_mul, Nat.add_comm]

theorem length_rowScales (c : MulMatCall b) (m : ℕ) :
  (c.rowScales m).length = c.kG
  := by
  rw [rowScales, List.length_map, length_rowBlocks]

theorem length_row (c : MulMatCall b) (m : ℕ) :
  (c.row m).length = c.N
  := by
  rw [row, List.length_map, List.length_range]

theorem length_rows (c : MulMatCall b) :
  c.rows.length = c.M * c.N
  := by
  apply length_flatMap_range fun m _ => c.length_row m

theorem M_le_mPad (c : MulMatCall b) :
  c.M ≤ c.mPad
  := by
  rw [mPad]
  change c.M ≤ (c.M + 64 - 1) / 64 * 64
  omega

/-! ### One call -/

section Steps

/-- A call whose scratch has its shape. -/
def Ready (c : MulMatCall b) (st : XrtState ι Y) : Prop := st.Consistent b ∧ c.SameShape st

theorem triple_attempt {P : XrtState ι Y → Prop} (step : XrtStep)
    (h : ∀ st, P st → st.Consistent b) :
  Triple P (attempt c.env step) (fun _ => P) c.Throws
  := by
  rw [attempt]
  split
  · rename_i hfails
    apply triple_throw
    intro st hst
    exact ⟨rfl, ⟨step, hfails⟩, h st hst⟩
  · apply triple_pure
    intro st hst
    apply hst

theorem triple_access {P : XrtState ι Y → Prop} {inBounds : Prop} [Decidable inBounds]
    (h : ∀ st, P st → inBounds) :
  Triple P (access inBounds) (fun _ => P) c.Throws
  := by
  rw [access]
  split
  · apply triple_pure
    intro st hst
    apply hst
  · rename_i hout
    apply triple_throw
    intro st hst
    exfalso
    apply hout (h st hst)

/-- The scratch that a call with a new shape allocates. -/
def newScratch (c : MulMatCall b) (sc : XrtScratch Y) : XrtScratch Y where
  actBo := .alloc (c.mPad * c.K) c.env.fillValue
  actSBo := .alloc (c.mPad * c.kG) c.env.fillScale
  outBo := .alloc (c.mPad * c.N) c.env.fillOut
  q8Workbuf := resize (c.mPad * c.kG) .zero sc.q8Workbuf
  outHost := resize (c.mPad * c.N) b.zero sc.outHost
  M := c.mPad
  K := c.K
  N := c.N

theorem ready_newScratch {st : XrtState ι Y} (h : st.Consistent b) :
  c.Ready { st with scratch := c.newScratch st.scratch }
  := by
  refine ⟨?_, rfl, rfl, rfl⟩
  constructor
  · apply length_alloc
  · apply length_alloc
  · apply length_alloc
  · apply length_alloc
  · apply length_resize
  · apply length_resize
  · apply h.cached

theorem run_rekey_of_sameShape {st : XrtState ι Y} (hsame : c.SameShape st) :
  c.rekey.run st = (.ok (), st)
  := by
  rw [SameShape] at hsame
  rw [rekey, run_bind_of_ok (run_state st), if_pos hsame]
  rfl

theorem run_rekey_of_new {st : XrtState ι Y} (hsame : ¬ c.SameShape st)
    (hact : c.env.fails .allocAct = false) (hactS : c.env.fails .allocActS = false)
    (hout : c.env.fails .allocOut = false) (hworkbuf : c.env.fails .resizeWorkbuf = false)
    (hhost : c.env.fails .resizeOutHost = false) :
  c.rekey.run st = (.ok (), { st with scratch := c.newScratch st.scratch })
  := by
  rw [SameShape] at hsame
  rw [rekey, run_bind_of_ok (run_state st), if_neg hsame]
  simp only [attempt, hact, hactS, hout, hworkbuf, hhost]
  rfl

theorem run_rekey_of_fails {st : XrtState ι Y} (hsame : ¬ c.SameShape st)
    (hact : c.env.fails .allocAct = true) :
  c.rekey.run st = (.error .exception, st)
  := by
  rw [SameShape] at hsame
  rw [rekey, run_bind_of_ok (run_state st), if_neg hsame, attempt, if_pos hact]
  rfl

theorem triple_rekey :
  Triple (fun st => st.Consistent b ∧ c.Clean st) c.rekey
    (fun _ st => c.Ready st ∧ (st.extra c.src0 = none → b.SourceInBounds c.src0)) c.Throws
  := by
  rintro st ⟨hst, hclean⟩
  by_cases hsame : c.SameShape st
  · rw [run_rekey_of_sameShape hsame]
    constructor
    · rintro _ _ ⟨⟩
      exact ⟨⟨hst, hsame⟩, hclean.unpacks⟩
    · rintro _ _ ⟨⟩
  by_cases hact : c.env.fails .allocAct = true
  · rw [run_rekey_of_fails hsame hact]
    constructor
    · rintro _ _ ⟨⟩
    · rintro _ _ ⟨⟩
      exact ⟨rfl, ⟨_, hact⟩, hst⟩
  · obtain ⟨hactS, hout, hworkbuf, hhost⟩ := (hclean.rekeys hsame).resolve_left hact
    rw [run_rekey_of_new hsame (Bool.not_eq_true _ ▸ hact) hactS hout hworkbuf hhost]
    constructor
    · rintro _ _ ⟨⟩
      exact ⟨ready_newScratch hst, hclean.unpacks⟩
    · rintro _ _ ⟨⟩

theorem triple_updateScratch {P Q : XrtState ι Y → Prop} {f : XrtScratch Y → XrtScratch Y}
    (h : ∀ st, P st → Q { st with scratch := f st.scratch }) :
  Triple P (updateScratch f) (fun _ => Q) c.Throws
  := by
  apply triple_update h

/-- The unpacked weights of the call are on the device. -/
def Unpacked (c : MulMatCall b) (wc : XrtWeightCache) : Prop :=
  wc.wBo.device = b.weightValues c.src0 ∧ wc.sBo.device = b.weightScales c.src0

theorem unpacked_newCache (hc : c.Supported) :
  c.Unpacked c.newCache
  := by
  constructor
  · apply writeFront_eq
    rw [length_alloc, length_weightValues hc]
  · apply writeFront_eq
    rw [length_alloc, length_weightScales]

theorem ready_cache [DecidableEq ι] {st : XrtState ι Y} {wc : XrtWeightCache} (h : c.Ready st)
    (hsource : b.SourceInBounds c.src0) (hwc : c.Unpacked wc) :
  c.Ready { st with extra := Function.update st.extra c.src0 (some wc) }
  := by
  obtain ⟨hst, hshape⟩ := h
  refine ⟨{ hst with cached := ?_ }, hshape⟩
  intro i wc' hi
  simp only [Function.update_apply] at hi
  split at hi
  · rename_i hsame
    obtain rfl := Option.some.inj hi
    rw [hsame]
    exact ⟨hsource, hwc⟩
  · apply hst.cached i wc' hi

theorem triple_weightCache [DecidableEq ι] (hc : c.Supported) :
  Triple (fun st => c.Ready st ∧ (st.extra c.src0 = none → b.SourceInBounds c.src0))
    c.weightCache (fun wc st => c.Unpacked wc ∧ c.Ready st) c.Throws
  := by
  rw [weightCache]
  apply triple_state_bind
  intro st₀
  split
  · rename_i wc hwc
    apply triple_pure
    rintro _ ⟨rfl, hst, -⟩
    obtain ⟨-, hunpacked⟩ := hst.1.cached _ wc hwc
    exact ⟨hunpacked, hst⟩
  · rename_i hnone
    have hconsistent : ∀ st, b.SourceInBounds c.src0 ∧ c.Ready st → st.Consistent b := by
      rintro st ⟨-, hst⟩
      apply hst.1
    have hvalues := (length_weightValues hc).le
    have hscales := c.length_weightScales.le
    apply triple_pre (P := fun st => b.SourceInBounds c.src0 ∧ c.Ready st)
    · iterate 5
        apply triple_bind (triple_attempt _ hconsistent)
        intro _
      apply triple_bind (triple_access fun st hst => hst.1)
      intro _
      apply triple_bind (triple_access fun _ _ => ⟨hvalues, hscales⟩)
      intro _
      iterate 2
        apply triple_bind (triple_attempt _ hconsistent)
        intro _
      apply triple_bind (Q := fun _ => c.Ready)
      · apply triple_update
        intro st hst
        apply ready_cache hst.2 hst.1 (unpacked_newCache hc)
      intro _
      apply triple_pure
      intro st hst
      exact ⟨unpacked_newCache hc, hst⟩
    · rintro _ ⟨rfl, hst, hsource⟩
      exact ⟨hsource hnone, hst⟩

/-- The work buffer has the blocks of the call. -/
def Quantized (c : MulMatCall b) (st : XrtState ι Y) : Prop :=
  c.Ready st ∧ st.scratch.q8Workbuf = (List.range c.mPad).flatMap c.rowBlocks

theorem length_blocks (c : MulMatCall b) :
  ((List.range c.mPad).flatMap c.rowBlocks).length = c.mPad * c.kG
  := by
  apply length_flatMap_range fun m _ => c.length_rowBlocks m

theorem Ready.length_workbuf {st : XrtState ι Y} (h : c.Ready st) :
  st.scratch.q8Workbuf.length = c.mPad * c.kG
  := by
  obtain ⟨hst, hM, hK, -⟩ := h
  rw [hst.workbuf, hM, hK, kG]

theorem triple_quantize :
  Triple c.Ready c.quantize (fun _ => c.Quantized) c.Throws
  := by
  have hdata : c.M * c.K ≤ c.data.length := by
    rw [c.length_data, ← c.canMulMat]
    apply le_refl
  apply triple_state_bind
  intro st₀
  apply triple_bind (triple_access _)
  · intro _
    apply triple_updateScratch
    rintro st ⟨-, hst⟩
    have hwrite : writeFront ((List.range c.mPad).flatMap c.rowBlocks) st.scratch.q8Workbuf
        = (List.range c.mPad).flatMap c.rowBlocks := by
      apply writeFront_eq
      rw [hst.length_workbuf, length_blocks]
    refine ⟨⟨{ hst.1 with workbuf := ?_ }, hst.2⟩, hwrite⟩
    rw [hwrite, length_blocks, ← hst.length_workbuf, hst.1.workbuf]
  · rintro _ ⟨rfl, hst⟩
    exact ⟨hdata, hst.length_workbuf.ge⟩

/-- All rows of values, and of scales. -/
def values (c : MulMatCall b) : List (BitVec 8) := (List.range c.mPad).flatMap c.rowValues
def scales (c : MulMatCall b) : List (BitVec 16) := (List.range c.mPad).flatMap c.rowScales

theorem length_values (hc : c.Supported) :
  c.values.length = c.mPad * c.K
  := by
  rw [values, K_eq hc]
  apply length_flatMap_range fun m _ => c.length_rowValues m

theorem length_scales (c : MulMatCall b) :
  c.scales.length = c.mPad * c.kG
  := by
  apply length_flatMap_range fun m _ => c.length_rowScales m

/-- The activation is in its buffers. -/
def Written (c : MulMatCall b) (st : XrtState ι Y) : Prop :=
  c.Ready st ∧ st.scratch.actBo.host = c.values ∧ st.scratch.actSBo.host = c.scales

/-- The activation is on the device. -/
def Loaded (c : MulMatCall b) (st : XrtState ι Y) : Prop :=
  c.Ready st ∧ st.scratch.actBo.device = c.values ∧ st.scratch.actSBo.device = c.scales

theorem Ready.length_act {st : XrtState ι Y} (h : c.Ready st) :
  st.scratch.actBo.host.length = c.mPad * c.K
  := by
  obtain ⟨hst, hM, hK, -⟩ := h
  rw [hst.act, hM, hK]

theorem Ready.length_actS {st : XrtState ι Y} (h : c.Ready st) :
  st.scratch.actSBo.host.length = c.mPad * c.kG
  := by
  obtain ⟨hst, hM, hK, -⟩ := h
  rw [hst.actS, hM, hK, kG]

/-- The blocks of the work buffer are taken apart. -/
theorem written_of_quantized (hc : c.Supported) {st : XrtState ι Y} (h : c.Quantized st) :
  let blocks := st.scratch.q8Workbuf.take (c.mPad * c.kG)
  writeFront (blocks.flatMap fun block => List.ofFn block.qs) st.scratch.actBo.host = c.values
    ∧ writeFront (blocks.map BlockQ8.d) st.scratch.actSBo.host = c.scales
  := by
  obtain ⟨hst, hworkbuf⟩ := h
  intro blocks
  have hblocks : blocks = (List.range c.mPad).flatMap c.rowBlocks := by
    rw [← hworkbuf]
    apply List.take_of_length_le hst.length_workbuf.le
  have hvalues : ((List.range c.mPad).flatMap c.rowBlocks).flatMap
      (fun block => List.ofFn block.qs) = c.values := List.flatMap_assoc
  have hscales : ((List.range c.mPad).flatMap c.rowBlocks).map BlockQ8.d = c.scales :=
    List.map_flatMap
  rw [hblocks, hvalues, hscales]
  constructor
  · apply writeFront_eq
    rw [hst.length_act, length_values hc]
  · apply writeFront_eq
    rw [hst.length_actS, length_scales]

theorem triple_deinterleave (hc : c.Supported) :
  Triple c.Quantized c.deinterleave (fun _ => c.Loaded) c.Throws
  := by
  iterate 2
    apply triple_bind (triple_attempt _ fun st hst => hst.1.1)
    intro _
  apply triple_state_bind
  intro st₀
  apply triple_bind (triple_access _)
  · intro _
    apply triple_bind (Q := fun _ => c.Written)
    · apply triple_updateScratch
      rintro st ⟨rfl, hst⟩
      obtain ⟨hvalues, hscales⟩ := written_of_quantized hc hst
      refine ⟨⟨{ hst.1.1 with act := ?_, actS := ?_ }, hst.1.2⟩, hvalues, hscales⟩
      · rw [hvalues, length_values hc, ← hst.1.length_act, hst.1.1.act]
      · rw [hscales, length_scales, ← hst.1.length_actS, hst.1.1.actS]
    intro _
    apply triple_bind (triple_attempt _ fun st hst => hst.1.1)
    intro _
    apply triple_bind (Q := fun _ st => c.Written st ∧ st.scratch.actBo.device = c.values)
    · apply triple_updateScratch
      rintro st ⟨hst, hvalues, hscales⟩
      exact ⟨⟨⟨{ hst.1 with }, hst.2⟩, hvalues, hscales⟩, hvalues⟩
    intro _
    apply triple_bind (triple_attempt _ fun st hst => hst.1.1.1)
    intro _
    apply triple_updateScratch
    rintro st ⟨⟨hst, -, hscales⟩, hvalues⟩
    exact ⟨⟨{ hst.1 with }, hst.2⟩, hvalues, hscales⟩
  · rintro _ ⟨rfl, hst, -⟩
    exact ⟨hst.length_workbuf.ge, hst.length_act.ge, hst.length_actS.ge⟩

/-- The kernel computes the rows of the call, those of the padding among them. -/
theorem gemm_eq (hc : c.Supported) {st : XrtState ι Y} {wc : XrtWeightCache} (h : c.Loaded st)
    (hwc : c.Unpacked wc) :
  c.gemm st.scratch wc = (List.range c.mPad).flatMap c.row
  := by
  obtain ⟨-, hact, hactS⟩ := h
  have hvalues := c.length_rowValues
  rw [← K_eq hc] at hvalues
  apply List.flatMap_congr
  intro m hm
  have hm := List.mem_range.mp hm
  rw [hact, hactS, values, scales, take_drop_flatMap_range (fun m _ => hvalues m) hm,
    take_drop_flatMap_range (fun m _ => c.length_rowScales m) hm, hwc.1, hwc.2,
    List.take_of_length_le (length_weightValues hc).le,
    List.take_of_length_le c.length_weightScales.le, row]

/-- The results are on the device. -/
def Computed (c : MulMatCall b) (st : XrtState ι Y) : Prop :=
  c.Ready st ∧ st.scratch.outBo.device = (List.range c.mPad).flatMap c.row

theorem length_results (c : MulMatCall b) :
  ((List.range c.mPad).flatMap c.row).length = c.mPad * c.N
  := by
  apply length_flatMap_range fun m _ => c.length_row m

theorem Ready.length_out {st : XrtState ι Y} (h : c.Ready st) :
  st.scratch.outBo.device.length = c.mPad * c.N
  := by
  obtain ⟨hst, hM, -, hN⟩ := h
  rw [hst.outDevice, hM, hN]

theorem Ready.length_outHost {st : XrtState ι Y} (h : c.Ready st) :
  st.scratch.outHost.length = c.mPad * c.N
  := by
  obtain ⟨hst, hM, -, hN⟩ := h
  rw [hst.host, hM, hN]

theorem triple_launch (hc : c.Supported) {wc : XrtWeightCache} (hwc : c.Unpacked wc) :
  Triple c.Loaded (c.launch wc) (fun _ => c.Computed) c.Throws
  := by
  apply triple_bind (triple_attempt _ fun st hst => hst.1.1)
  intro _
  apply triple_state_bind
  intro st₀
  apply triple_bind (triple_access _)
  · intro _
    apply triple_bind (Q := fun _ => c.Computed) _ fun _ => triple_attempt _ fun st hst => hst.1.1
    apply triple_updateScratch
    rintro st ⟨-, hst⟩
    have hwrite : writeFront (c.gemm st.scratch wc) st.scratch.outBo.device
        = (List.range c.mPad).flatMap c.row := by
      rw [gemm_eq hc hst hwc]
      apply writeFront_eq
      rw [hst.1.length_out, length_results]
    refine ⟨⟨{ hst.1.1 with outDevice := ?_ }, hst.1.2⟩, hwrite⟩
    rw [hwrite, length_results, ← hst.1.length_out, hst.1.1.outDevice]
  · rintro _ ⟨rfl, hst, hact, hactS⟩
    rw [hact, hactS, hwc.1, hwc.2]
    exact ⟨(length_values hc).ge, c.length_scales.ge, (length_weightValues hc).ge,
      c.length_weightScales.ge, hst.length_out.ge⟩

/-- The rows of the call are the first ones; the padding is not read. -/
theorem rows_of_results (c : MulMatCall b) :
  ((List.range c.M).flatMap fun m =>
      (((List.range c.mPad).flatMap c.row).drop (m * c.N)).take c.N) = c.rows
  := by
  apply List.flatMap_congr
  intro m hm
  apply take_drop_flatMap_range (fun m _ => c.length_row m)
  apply Nat.lt_of_lt_of_le (List.mem_range.mp hm) c.M_le_mPad

/-- The results are in the mapping of the host. -/
def Received (c : MulMatCall b) (st : XrtState ι Y) : Prop :=
  c.Ready st ∧ st.scratch.outBo.host = (List.range c.mPad).flatMap c.row

theorem Received.writeFront_eq {st : XrtState ι Y} (h : c.Received st) :
  writeFront (st.scratch.outBo.host.take (c.mPad * c.N)) st.scratch.outHost
    = (List.range c.mPad).flatMap c.row
  := by
  obtain ⟨hst, hhost⟩ := h
  rw [hhost, List.take_of_length_le c.length_results.le]
  apply Kv260.writeFront_eq
  rw [hst.length_outHost, length_results]

theorem triple_readBack :
  Triple c.Computed c.readBack (fun ys st => ys = c.rows ∧ c.Ready st) c.Throws
  := by
  apply triple_bind (triple_attempt _ fun st hst => hst.1.1)
  intro _
  apply triple_bind (Q := fun _ => c.Received)
  · apply triple_updateScratch
    rintro st ⟨hst, hdevice⟩
    exact ⟨⟨{ hst.1 with outHost := hst.1.outDevice }, hst.2⟩, hdevice⟩
  intro _
  apply triple_bind (triple_attempt _ fun st hst => hst.1.1)
  intro _
  apply triple_state_bind
  intro st₀
  apply triple_bind (triple_access _)
  · intro _
    apply triple_bind (Q := fun _ st =>
      writeFront (st₀.scratch.outBo.host.take (c.mPad * c.N)) st₀.scratch.outHost
        = (List.range c.mPad).flatMap c.row ∧ c.Ready st)
    · apply triple_updateScratch
      rintro st ⟨rfl, hst⟩
      have hwrite := hst.writeFront_eq
      refine ⟨hwrite, { hst.1.1 with host := ?_ }, hst.1.2⟩
      rw [hwrite, length_results, ← hst.1.length_outHost, hst.1.1.host]
    intro _
    apply triple_pure
    rintro st ⟨hwrite, hst⟩
    rw [hwrite, rows_of_results]
    exact ⟨rfl, hst⟩
  · rintro _ ⟨rfl, hst, hhost⟩
    rw [hhost]
    exact ⟨c.length_results.ge, hst.length_outHost.ge⟩

/-- One call: the rows are those of the call alone, and the state stays consistent. -/
theorem triple_mulMat [DecidableEq ι] (hc : c.Supported) :
  Triple (fun st => st.Consistent b ∧ c.Clean st) c.mulMat
    (fun ys st => ys = c.rows ∧ c.Ready st) c.Throws
  := by
  apply triple_bind triple_rekey
  intro _
  apply triple_bind (triple_weightCache hc)
  intro wc
  apply triple_fact
  intro hwc
  apply triple_bind triple_quantize
  intro _
  apply triple_bind (triple_deinterleave hc)
  intro _
  apply triple_bind (triple_launch hc hwc)
  intro _
  apply triple_readBack

/-- A weight that a clean call uses has all of its blocks. -/
theorem sourceInBounds_of_clean {st : XrtState ι Y} (hst : st.Consistent b)
    (hclean : c.Clean st) :
  b.SourceInBounds c.src0
  := by
  rcases hextra : st.extra c.src0 with - | wc
  · apply hclean.unpacks hextra
  · apply (hst.cached _ wc hextra).1

end Steps

/-! ### Runs -/

section Runs

variable [DecidableEq ι]

/-- No step fails. -/
def FaultFree (env : XrtEnv Y) : Prop := ∀ step, env.fails step = false

omit [DecidableEq ι] in
theorem run_attempt {env : XrtEnv Y} (henv : FaultFree env) (step : XrtStep) (st : XrtState ι Y) :
  (attempt env step).run st = (.ok (), st)
  := by
  rw [attempt, henv]
  rfl

/-- The call with other faults, and other contents of new buffers. -/
def withEnv (c : MulMatCall b) (env : XrtEnv Y) : MulMatCall b := { c with env := env }

/-- No access is out of bounds, and what is written are the rows that a fresh backend writes for
the call alone. -/
def Independent (c : MulMatCall b) (st : XrtState ι Y) : Prop :=
  (c.mulMat.run st).1 ≠ .error .outOfBounds
    ∧ ∀ ys, (c.mulMat.run st).1 = .ok ys → ys.length = c.M * c.N
      ∧ ∀ env, FaultFree env → ((c.withEnv env).mulMat.run .init).1 = .ok ys

/-- The states after sequences of allowed calls; an exception ends a call, not the sequence. -/
inductive Reachable (allowed : MulMatCall b → XrtState ι Y → Prop) : XrtState ι Y → Prop
  | init : Reachable allowed .init
  | call {st : XrtState ι Y} (c : MulMatCall b) (hst : Reachable allowed st)
      (hc : allowed c st) : Reachable allowed (c.mulMat.run st).2

/-- How a clean call ends. -/
theorem mulMat_cases (hc : c.Supported) {st : XrtState ι Y} (hst : st.Consistent b)
    (hclean : c.Clean st) :
  (∃ st', c.mulMat.run st = (.ok c.rows, st') ∧ c.Ready st')
    ∨ ∃ st', c.mulMat.run st = (.error .exception, st') ∧ (∃ step, c.env.fails step = true)
      ∧ st'.Consistent b
  := by
  obtain ⟨hok, herror⟩ := triple_mulMat hc st ⟨hst, hclean⟩
  rcases hrun : c.mulMat.run st with ⟨e | ys, st'⟩
  · right
    obtain ⟨rfl, hfails, hst'⟩ := herror e st' hrun
    exact ⟨st', rfl, hfails, hst'⟩
  · left
    obtain ⟨rfl, hst'⟩ := hok ys st' hrun
    exact ⟨st', rfl, hst'⟩

/-- A call without faults ends with its rows. -/
theorem mulMat_of_faultFree (hc : c.Supported) {st : XrtState ι Y} (hst : st.Consistent b)
    (hsource : b.SourceInBounds c.src0) (henv : FaultFree c.env) :
  ∃ st', c.mulMat.run st = (.ok c.rows, st') ∧ c.Ready st'
  := by
  have hclean : c.Clean st :=
    ⟨fun _ => hsource, fun _ => .inr ⟨henv _, henv _, henv _, henv _⟩⟩
  rcases mulMat_cases hc hst hclean with hok | ⟨-, -, ⟨step, hfails⟩, -⟩
  · apply hok
  · rw [henv step] at hfails
    cases hfails

theorem consistent_of_reachable {st : XrtState ι Y}
    (h : Reachable (fun (c : MulMatCall b) st => c.Supported ∧ c.Clean st) st) :
  st.Consistent b
  := by
  induction h with
  | init => apply XrtState.consistent_init
  | call c _ hc ih =>
      rcases mulMat_cases hc.1 ih hc.2 with ⟨st', hrun, hst'⟩ | ⟨st', hrun, -, hst'⟩
      · rw [hrun]
        apply hst'.1
      · rw [hrun]
        apply hst'

/-- In every sequence of supported calls that are clean, each call is independent of those before
it, and succeeds unless one of its steps fails. -/
theorem mulMat_independent {st : XrtState ι Y}
    (hst : Reachable (fun (c : MulMatCall b) st => c.Supported ∧ c.Clean st) st)
    (hc : c.Supported) (hclean : c.Clean st) :
  c.Independent st ∧ (FaultFree c.env → ∃ ys, (c.mulMat.run st).1 = .ok ys)
  := by
  have hconsistent := consistent_of_reachable hst
  have hsource := sourceInBounds_of_clean hconsistent hclean
  have hfresh : ∀ env, FaultFree env → ((c.withEnv env).mulMat.run .init).1 = .ok c.rows := by
    intro env henv
    obtain ⟨st', hrun, -⟩ := mulMat_of_faultFree (c := c.withEnv env) hc
      (XrtState.consistent_init b) hsource henv
    rw [hrun]
    rfl
  constructor
  · rcases mulMat_cases hc hconsistent hclean with ⟨st', hrun, -⟩ | ⟨st', hrun, -, -⟩
    · rw [Independent, hrun]
      constructor
      · rintro ⟨⟩
      · rintro _ ⟨⟩
        exact ⟨c.length_rows, hfresh⟩
    · rw [Independent, hrun]
      constructor
      · rintro ⟨⟩
      · rintro _ ⟨⟩
  · intro henv
    obtain ⟨st', hrun, -⟩ := mulMat_of_faultFree hc hconsistent hsource henv
    rw [hrun]
    exact ⟨_, rfl⟩

/-! ### Weights without all of their blocks -/

omit [DecidableEq ι] in
theorem run_rekey (henv : FaultFree c.env) (st : XrtState ι Y) :
  ∃ st', c.rekey.run st = (.ok (), st') ∧ st'.extra = st.extra
  := by
  by_cases hsame : c.SameShape st
  · exact ⟨st, run_rekey_of_sameShape hsame, rfl⟩
  · exact ⟨_, run_rekey_of_new hsame (henv _) (henv _) (henv _) (henv _) (henv _), rfl⟩

theorem run_mulMat_of_not_sourceInBounds (hsource : ¬ b.SourceInBounds c.src0)
    (henv : FaultFree c.env) {st : XrtState ι Y} (hextra : st.extra c.src0 = none) :
  (c.mulMat.run st).1 = .error .outOfBounds
  := by
  obtain ⟨st', hrekey, hst'⟩ := run_rekey henv st
  have hcache : c.weightCache.run st' = (.error .outOfBounds, st') := by
    rw [weightCache, run_bind_of_ok (run_state st')]
    simp only [hst', hextra, attempt, henv _, access, if_neg hsource]
    rfl
  rw [mulMat, run_bind_of_ok hrekey, run_bind_of_error hcache]

/-! ### A key of buffers that are gone -/

theorem run_weightCache (hc : c.Supported) (hsource : b.SourceInBounds c.src0)
    (henv : FaultFree c.env) (st : XrtState ι Y) :
  ∃ wc extra, c.weightCache.run st = (.ok wc, { st with extra := extra })
  := by
  rw [weightCache, run_bind_of_ok (run_state st)]
  split
  · rename_i wc _
    exact ⟨wc, st.extra, rfl⟩
  · have hvalues := (length_weightValues hc).le
    have hscales := c.length_weightScales.le
    simp only [attempt, henv _, access, if_pos hsource, if_pos (And.intro hvalues hscales)]
    exact ⟨_, _, rfl⟩

/-- A scratch with the key of the call, and a buffer that is too small for it. -/
theorem run_mulMat_of_stale (hc : c.Supported) (hsource : b.SourceInBounds c.src0)
    (henv : FaultFree c.env) {st : XrtState ι Y} (hsame : c.SameShape st)
    (hact : st.scratch.actBo.host.length < c.mPad * c.K) :
  (c.mulMat.run st).1 = .error .outOfBounds
  := by
  obtain ⟨wc, extra, hcache⟩ := run_weightCache hc hsource henv st
  have hquantize : ∃ st', st'.scratch.actBo = st.scratch.actBo
      ∧ (c.quantize.run { st with extra := extra } = (.ok (), st')
        ∨ c.quantize.run { st with extra := extra } = (.error .outOfBounds, st')) := by
    rw [quantize, run_bind_of_ok (run_state _), access]
    split
    · refine ⟨_, ?_, .inl rfl⟩
      rfl
    · refine ⟨_, ?_, .inr rfl⟩
      rfl
  obtain ⟨st', hst', hquantize⟩ := hquantize
  rw [mulMat, run_bind_of_ok (run_rekey_of_sameShape hsame), run_bind_of_ok hcache]
  rcases hquantize with hquantize | hquantize
  · rw [run_bind_of_ok hquantize]
    have hout : ¬ (c.mPad * c.kG ≤ st'.scratch.q8Workbuf.length
        ∧ c.mPad * c.K ≤ st'.scratch.actBo.host.length
        ∧ c.mPad * c.kG ≤ st'.scratch.actSBo.host.length) := by
      rintro ⟨-, hle, -⟩
      rw [hst'] at hle
      omega
    have hdeinterleave : c.deinterleave.run st' = (.error .outOfBounds, st') := by
      rw [deinterleave, run_bind_of_ok (run_attempt henv _ st'),
        run_bind_of_ok (run_attempt henv _ st'), run_bind_of_ok (run_state st'), access,
        if_neg hout]
      rfl
    rw [run_bind_of_error hdeinterleave]
  · rw [run_bind_of_error hquantize]

/-- A call with a new shape that fails at its second allocation. -/
theorem run_mulMat_of_allocActS {st : XrtState ι Y} (hsame : ¬ c.SameShape st)
    (hact : c.env.fails .allocAct = false) (hactS : c.env.fails .allocActS = true) :
  c.mulMat.run st = (.error .exception,
    { st with scratch := { st.scratch with
        actBo := .alloc (c.mPad * c.K) c.env.fillValue } })
  := by
  rw [SameShape] at hsame
  rw [mulMat, rekey]
  apply run_bind_of_error
  rw [run_bind_of_ok (run_state st), if_neg hsame]
  simp only [attempt, hact, hactS]
  rfl

end Runs

end MulMatCall

end MulMat

/-! ### Calls that depend on those before -/

/-- A weight of 768 rows and columns, with zeros. -/
def blankWeight : WeightTensor where
  tensor := ⟨"w", .q8_0, fun i => if i < 2 then 768 else 1, true, false⟩
  data := List.replicate (unpackBytes 768 768) 0
  length_data _ := List.length_replicate

/-- A backend without sidecar. -/
def blankBackend : XrtBackend Unit Unit Unit where
  rt := ⟨true, false, {}⟩
  weight _ := blankWeight
  quantizeRow _ _ := .zero
  gemmRow _ _ _ _ _ _ _ := ()
  zero := ()

/-- Only this step fails. -/
def failingAt (step : Option XrtStep) : XrtEnv Unit where
  fails s := decide (some s = step)
  fillValue _ := 0
  fillScale _ := 0
  fillOut _ := ()

/-- Its multiplication with `m` rows. -/
def blankCall (m : ℕ) (step : Option XrtStep) : MulMatCall blankBackend where
  src0 := ()
  src1 := ⟨"x", .f32, fun i => if i = 0 then 768 else if i = 1 then m else 1, true, false⟩
  data := List.replicate (m * 768) ()
  env := failingAt step
  canMulMat := rfl
  length_data := List.length_replicate

/-- The backend that has loaded an entry of one byte. -/
def oneByteBackend : XrtBackend Unit Unit Unit where
  rt := oneByteRuntime
  weight _ := ⟨oneByteWeight, [], nofun⟩
  quantizeRow _ _ := .zero
  gemmRow _ _ _ _ _ _ _ := ()
  zero := ()

/-- Its multiplication with one row. -/
def oneByteCall : MulMatCall oneByteBackend where
  src0 := ()
  src1 := oneByteActivation
  data := List.replicate 768 ()
  env := failingAt none
  canMulMat := rfl
  length_data := List.length_replicate

open MulMatCall

theorem faultFree_failingAt :
  FaultFree (failingAt none)
  := by
  intro step
  rfl

theorem supported_blankCall {m : ℕ} (hpos : 0 < m) (hle : m ≤ 1024) (step : Option XrtStep) :
  (blankCall m step).Supported
  := by
  have hmulMat : blankBackend.rt.SupportsMulMat blankWeight.tensor (blankCall m step).src1 := by
    refine ⟨rfl, rfl, rfl, rfl, rfl, rfl, rfl, .inl rfl, .inl ⟨rfl, .inl rfl⟩, ?_, ?_⟩
    · apply Int.natCast_pos.mpr hpos
    · apply Int.ofNat_le.mpr hle
  rw [Supported, XrtRuntime.supportsOp]
  exact decide_eq_true hmulMat

/-- The first call reads bytes that the blob does not have. -/
theorem run_oneByteCall :
  (oneByteCall.mulMat.run .init).1 = .error .outOfBounds
  := by
  have hsource : ¬ oneByteBackend.SourceInBounds () := by
    decide
  apply run_mulMat_of_not_sourceInBounds hsource faultFree_failingAt rfl

theorem sourceInBounds_blankBackend :
  blankBackend.SourceInBounds ()
  := sourceInBounds_of_not_sidecar (supported_blankCall Nat.one_pos (by decide) none) rfl

/-- A call with 128 rows, a call with one row that fails at its second allocation and the first
call again: the last one finds its key, and the buffer of the second one. -/
theorem run_blankCall_again :
  ∃ st, Reachable (fun (c : MulMatCall blankBackend) _ => c.Supported) st
    ∧ ((blankCall 128 none).mulMat.run st).1 = .error .outOfBounds
  := by
  have hwide := supported_blankCall (m := 128) (by decide) (by decide) none
  have hnarrow := supported_blankCall (m := 1) (by decide) (by decide) (some .allocActS)
  obtain ⟨st, hrun, hst, hM, hK, hN⟩ := mulMat_of_faultFree hwide
    (XrtState.consistent_init blankBackend) sourceInBounds_blankBackend faultFree_failingAt
  have hnew : ¬ (blankCall 1 (some .allocActS)).SameShape st := by
    rintro ⟨hM', -, -⟩
    have hkey : (blankCall 128 none).mPad = (blankCall 1 (some .allocActS)).mPad :=
      hM.symm.trans hM'
    revert hkey
    decide
  have hfail := run_mulMat_of_allocActS hnew rfl rfl
  have hreach : Reachable (fun (c : MulMatCall blankBackend) _ => c.Supported)
      ((blankCall 1 (some .allocActS)).mulMat.run
        ((blankCall 128 none).mulMat.run .init).2).2 := .call _ (.call _ .init hwide) hnarrow
  rw [hrun, hfail] at hreach
  refine ⟨_, hreach, ?_⟩
  apply run_mulMat_of_stale
  · apply hwide
  · apply sourceInBounds_blankBackend
  · apply faultFree_failingAt
  · exact ⟨hM, hK, hN⟩
  · rw [length_alloc]
    change 64 * 768 < 128 * 768
    decide

theorem not_mulMat_independent :
  (oneByteCall.Supported ∧ ¬ oneByteCall.Independent .init)
    ∧ ∃ st, Reachable (fun (c : MulMatCall blankBackend) _ => c.Supported) st
      ∧ (blankCall 128 none).Supported ∧ ¬ (blankCall 128 none).Independent st
  := by
  constructor
  · refine ⟨by decide, ?_⟩
    rintro ⟨hout, -⟩
    apply hout run_oneByteCall
  · obtain ⟨st, hst, hrun⟩ := run_blankCall_again
    refine ⟨st, hst, supported_blankCall (by decide) (by decide) none, ?_⟩
    rintro ⟨hout, -⟩
    apply hout hrun

/-! ### Dot products -/

/-- A weight of `n` rows and `k` columns.  All its scales are one, as halves. -/
def dotWeight (name : String) (k n : ℕ) : WeightTensor where
  tensor := ⟨name, .q8_0, fun i => if i = 0 then k else if i = 1 then n else 1, true, false⟩
  data := (List.range (unpackBytes n k)).map fun p =>
    if p % 34 = 0 then 0x00 else if p % 34 = 1 then 0x3C else BitVec.ofNat 8 (p % 127)
  length_data _ := by simp only [List.length_map, List.length_range]; rfl

/-- The halves zero and one, as integers. -/
def halfToInt (d : BitVec 16) : ℤ := if d = 0x3C00 then 1 else 0

/-- A backend with weights of two shapes, whose rows have scale one; the kernel multiplies values
and scales. -/
def dotBackend : XrtBackend Bool ℤ ℤ where
  rt := ⟨true, false, {}⟩
  weight
    | true => dotWeight "q" 768 768
    | false => dotWeight "k" 960 320
  quantizeRow xs g := ⟨0x3C00, fun j => BitVec.ofInt 8 (xs.getD (32 * g + j) 0)⟩
  gemmRow K _ act actS w s n := ((List.range K).map fun k =>
    (act.getD k 0).toInt * (w.getD (n * K + k) 0).toInt
      * (halfToInt (actS.getD (k / 32) 0) * halfToInt (s.getD (n * (K / 32) + k / 32) 0))).sum
  zero := 0

/-- Only this step fails, and new buffers are not empty. -/
def dotEnv (step : Option XrtStep) : XrtEnv ℤ where
  fails s := decide (some s = step)
  fillValue p := BitVec.ofNat 8 p
  fillScale _ := 0x3C00
  fillOut p := p

/-- Numbers of which 127 is the largest in each block. -/
def dotMemory (a : ℕ) : ℤ := if a % 32 = 0 then 127 else a / 32 % 100

/-- A tensor of `m` rows to multiply with a weight. -/
def dotSource (i : Bool) (m : ℕ) : GgmlTensor :=
  ⟨"x", .f32, fun j => if j = 0 then dotBackend.K i else if j = 1 then m else 1, true, false⟩

theorem canMulMat_dotSource (i : Bool) (m : ℕ) :
  (dotBackend.weight i).tensor.ne 0 = (dotSource i m).ne 0
  := by cases i <;> rfl

/-- A multiplication of `m` rows. -/
def dotCall (i : Bool) (m : ℕ) (step : Option XrtStep) : MulMatCall dotBackend where
  src0 := i
  src1 := dotSource i m
  data := (List.range (m * dotBackend.K i)).map dotMemory
  env := dotEnv step
  canMulMat := canMulMat_dotSource i m
  length_data := by simp only [List.length_map, List.length_range]; rfl

theorem supported_dotCall (i : Bool) {m : ℕ} (hpos : 0 < m) (hle : m ≤ 1024)
    (step : Option XrtStep) :
  (dotCall i m step).Supported
  := by
  have hshape : shapeOk ((dotBackend.weight i).tensor.ne 0)
      ((dotBackend.weight i).tensor.ne 1) := by cases i <;> decide
  have htype : (dotBackend.weight i).tensor.type = .q8_0 := by cases i <;> rfl
  have hmulMat : dotBackend.rt.SupportsMulMat (dotBackend.weight i).tensor
      (dotCall i m step).src1 := by
    refine ⟨rfl, ?_, rfl, ?_, ?_, rfl, rfl, .inl htype, hshape, ?_, ?_⟩
    · cases i <;> rfl
    · cases i <;> rfl
    · cases i <;> rfl
    · apply Int.natCast_pos.mpr hpos
    · apply Int.ofNat_le.mpr hle
  rw [Supported, XrtRuntime.supportsOp]
  exact decide_eq_true hmulMat

theorem sourceInBounds_dotBackend (i : Bool) :
  dotBackend.SourceInBounds i
  := by
  have hnone : dotBackend.rt.sidecarFor (dotBackend.weight i).tensor = none := by
    cases i <;> rfl
  have hsource := sourceInBounds_of_not_sidecar (supported_dotCall i Nat.one_pos (by decide) none)
    hnone
  exact hsource

theorem allowed_dotCall (i : Bool) {m : ℕ} (hpos : 0 < m) (hle : m ≤ 1024) {step : Option XrtStep}
    (hstep : step = none ∨ step = some .syncOut) (st : XrtState Bool ℤ) :
  (dotCall i m step).Supported ∧ (dotCall i m step).Clean st
  := by
  refine ⟨supported_dotCall i hpos hle step, fun _ => sourceInBounds_dotBackend i,
    fun _ => .inr ?_⟩
  rcases hstep with rfl | rfl
  · exact ⟨rfl, rfl, rfl, rfl⟩
  · exact ⟨rfl, rfl, rfl, rfl⟩

/-- A call with 100 rows, after it has failed to read back its results and after a call of another
shape. -/
theorem mulMat_independent_dots :
  (dotCall true 100 none).Independent ((dotCall false 5 none).mulMat.run
    ((dotCall true 100 (some .syncOut)).mulMat.run .init).2).2
  := by
  have hfirst : Reachable (fun (c : MulMatCall dotBackend) st => c.Supported ∧ c.Clean st) _ :=
    .call (dotCall true 100 (some .syncOut)) .init
      (allowed_dotCall true (by decide) (by decide) (.inr rfl) .init)
  have hsecond := hfirst.call (dotCall false 5 none)
    (allowed_dotCall false (by decide) (by decide) (.inl rfl) _)
  have hsupported := supported_dotCall true (m := 100) (by decide) (by decide) none
  have hclean := fun st => (allowed_dotCall true (m := 100) (by decide) (by decide) (.inl rfl) st).2
  exact (mulMat_independent hsecond hsupported (hclean _)).1

end Kv260
