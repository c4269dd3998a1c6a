import SmolVlm2Kv260.Kernel.Gemm
import SmolVlm2Kv260.Kernel.Quant
import SmolVlm2Kv260.Process.Network

/-!
# A quantiser and the multiplication it feeds

In the dataflow region of `smolvlm2_decoder_layer` a quantiser and a `w4a8_gemm` run
concurrently; the activations and the scales pass through two streams of depth `FIFO_D`.
The quantiser writes the scale of a token before its activations, while the multiplication
reads the activations of all tokens before the first scale.  So the scales of all tokens
have to fit into their stream: with more than `FIFO_D` tokens both processes wait for each
other.
-/

set_option autoImplicit false

namespace Kv260

open Proc Network Event Blocks

/-! ### The network -/

/-- The streams: the input of the quantiser, the activations and the scales, and the output
of the multiplication. -/
inductive QuantGemmChan where
  | input
  | act
  | actScale
  | out
  deriving DecidableEq

inductive QuantGemmProc where
  | quant
  | gemm
  deriving DecidableEq

instance : Fintype QuantGemmProc where
  elems := {.quant, .gemm}
  complete p := by cases p <;> decide

/-- The depths of the streams.  The input is always available and the output is always
drained. -/
def quantGemmDepth : QuantGemmChan → ℕ∞
  | .input => ⊤
  | .act => fifoD
  | .actScale => fifoD
  | .out => ⊤

/-- The quantisers that feed a multiplication. -/
inductive DynamicQuantiser where
  | rmsnorm (gamma : List ℤ)
  | act (cols : ℕ)
  | silu

namespace DynamicQuantiser

/-- The values a quantiser reads for a token. -/
def inCols : DynamicQuantiser → ℕ
  | rmsnorm _ => C
  | act cols => cols
  | silu => ffnDim + ffnDim

/-- The values a quantiser writes for a token: the `K` of the multiplication. -/
def cols : DynamicQuantiser → ℕ
  | rmsnorm _ => C
  | act cols => cols
  | silu => ffnDim

/-- The quantiser of `M` tokens. -/
def proc (q : DynamicQuantiser) (M : ℕ) : Proc QuantGemmChan ℤ Unit :=
  match q with
  | rmsnorm gamma => rmsnormQuant .input .act .actScale gamma M
  | act cols => actQuant .input .act .actScale M cols
  | silu => siluGateFuseQuant .input .act .actScale M

theorem follows_proc (q : DynamicQuantiser) (M : ℕ) :
  (q.proc M).Follows (quantTrace .input .act .actScale M q.inCols q.cols)
  := by
  cases q with
  | rmsnorm gamma => apply follows_rmsnormQuant
  | act cols => apply follows_actQuant
  | silu => apply follows_siluGateFuseQuant

end DynamicQuantiser

/-- A quantiser of `M` tokens and the multiplication it feeds, before they start. -/
def quantGemm (q : DynamicQuantiser) (M N : ℕ) (P : WeightPorts)
    (uninit : ℕ → ℕ → ℕ → TileRegisters) (data : List ℤ) :
    Network QuantGemmProc QuantGemmChan ℤ where
  proc
    | .quant => q.proc M
    | .gemm => w4a8Gemm .act .actScale .out P M q.cols N uninit
  fifo
    | .input => data
    | _ => []

/-! ### The traces -/

/-- The number of values the tile loops write. -/
def gemmOuts (M N : ℕ) : ℕ :=
  ((List.range (tileCount tileN N)).map fun nt =>
    ((List.range (tileCount tileM M)).map fun i =>
      ((List.range (tileLen tileM M i)).map fun _ =>
        ((List.range (tileLen tileN N nt)).map fun _ => 1).sum).sum).sum).sum

/-- The multiplication reads all activations, then all scales, and then writes. -/
def gemmTrace (M K N : ℕ) : List (Event QuantGemmChan) :=
  List.replicate (M * K) (.rd .act)
    ++ (List.replicate M (.rd .actScale) ++ List.replicate (gemmOuts M N) (.wr .out))

theorem follows_w4a8Gemm (M K N : ℕ) (P : WeightPorts)
    (uninit : ℕ → ℕ → ℕ → TileRegisters) :
  (w4a8Gemm .act .actScale .out P M K N uninit).Follows (gemmTrace M K N)
  := by
  unfold w4a8Gemm gemmTrace
  apply (follows_readRows QuantGemmChan.act K M).bind
  intro actBuf
  apply (follows_readVec QuantGemmChan.actScale M).bind
  intro tokScales
  apply follows_forEach_replicate
  intro nt _
  apply follows_forEach_replicate
  intro i _
  apply follows_forEach_replicate
  intro m _
  apply follows_forEach_replicate
  intro n _
  apply follows_send

/-- The traces of the two processes. -/
def quantGemmTrace (q : DynamicQuantiser) (M N : ℕ) : QuantGemmProc → List (Event QuantGemmChan)
  | .quant => quantTrace .input .act .actScale M q.inCols q.cols
  | .gemm => gemmTrace M q.cols N

section Network

variable (q : DynamicQuantiser) (M N : ℕ) (P : WeightPorts)
variable (uninit : ℕ → ℕ → ℕ → TileRegisters) (data : List ℤ)

theorem follows_quantGemm (p : QuantGemmProc) :
  ((quantGemm q M N P uninit data).proc p).Follows (quantGemmTrace q M N p)
  := by
  cases p with
  | quant => apply q.follows_proc
  | gemm => apply follows_w4a8Gemm

/-- How often the quantiser accesses each stream. -/
theorem count_quantTrace (rows inCols cols : ℕ) (e : Event QuantGemmChan) :
  (quantTrace .input .act .actScale rows inCols cols).count e = rows *
    match e with
    | .rd .input => inCols
    | .wr .act => cols
    | .wr .actScale => 1
    | _ => 0
  := by
  simp only [quantTrace, List.count_flatMap, Function.comp_def, List.map_const',
    List.length_range, List.sum_replicate, smul_eq_mul]
  congr 1
  rcases e with c | c <;> cases c <;>
    simp [quantRowTrace, List.count_replicate, List.count_append]

/-- How often the multiplication accesses each stream. -/
theorem count_gemmTrace (M K N : ℕ) (e : Event QuantGemmChan) :
  (gemmTrace M K N).count e =
    match e with
    | .rd .act => M * K
    | .rd .actScale => M
    | .wr .out => gemmOuts M N
    | _ => 0
  := by
  rcases e with c | c <;> cases c <;>
    simp [gemmTrace, List.count_replicate, List.count_append]

/-- A cut of the network. -/
abbrev QuantGemmCut (done left : QuantGemmProc → List (Event QuantGemmChan))
    (s : Network QuantGemmProc QuantGemmChan ℤ) : Prop :=
  Cut quantGemmDepth (quantGemm q M N P uninit data) (quantGemmTrace q M N) done left s

variable {q M N P uninit data}
variable {done left : QuantGemmProc → List (Event QuantGemmChan)}
variable {s : Network QuantGemmProc QuantGemmChan ℤ}

/-- What is in a stream between the processes has been written and not been read. -/
theorem length_between (h : QuantGemmCut q M N P uninit data done left s) {c : QuantGemmChan}
    (hc : c = .act ∨ c = .actScale) :
  (s.fifo c).length + (done .gemm).count (.rd c) = (done .quant).count (.wr c)
  := by
  have hempty : (quantGemm q M N P uninit data).fifo c = [] := by
    rcases hc with rfl | rfl <;> rfl
  have hbalance := h.balance_of (c := c) (r := .gemm) (w := .quant) ?_ ?_
  · rw [hbalance, hempty]
    apply Nat.zero_add
  all_goals
    intro p hp
    rcases hc with rfl | rfl <;> cases p <;>
      simp [quantGemmTrace, count_quantTrace, count_gemmTrace] at hp ⊢

/-- What is in the input stream has not been read. -/
theorem length_input (h : QuantGemmCut q M N P uninit data done left s) :
  (s.fifo .input).length + (done .quant).count (.rd .input) = data.length
  := by
  have hbalance := h.balance_of (c := .input) (r := .quant) (w := .gemm) ?_ ?_
  · have hnone := h.count_le .gemm (.wr .input)
    simp only [quantGemmTrace, count_gemmTrace, Nat.le_zero] at hnone
    rw [hbalance, hnone]
    apply Nat.add_zero
  all_goals
    intro p hp
    cases p <;> simp [quantGemmTrace, count_quantTrace, count_gemmTrace] at hp ⊢

/-- The multiplication is about to read an activation; or it has read them all and is about
to read a scale; or it has read all of both, and has finished or is about to write. -/
theorem gemm_position (h : QuantGemmCut q M N P uninit data done left s) :
  (∃ L, left .gemm = .rd .act :: L) ∨
    (done .gemm).count (.rd .act) = M * q.cols ∧
      ((∃ L, left .gemm = .rd .actScale :: L) ∨
        (done .gemm).count (.rd .actScale) = M ∧
          (left .gemm = [] ∨ ∃ L, left .gemm = .wr .out :: L))
  := by
  rcases h.within_or_past (p := .gemm) (A := List.replicate (M * q.cols) (.rd .act)) rfl with
    ⟨e, L, hA, hleft⟩ | ⟨D, hdone, hB⟩
  · have he : e ∈ List.replicate (M * q.cols) (Event.rd QuantGemmChan.act) := by
      rw [hA]
      simp
    obtain rfl := List.eq_of_mem_replicate he
    exact .inl ⟨_, hleft⟩
  right
  constructor
  · have hle := h.count_le .gemm (.rd .act)
    simp only [quantGemmTrace, count_gemmTrace] at hle
    rw [hdone, List.count_append, List.count_replicate_self] at hle ⊢
    omega
  rcases h.within_or_past (p := .gemm)
      (A := List.replicate (M * q.cols) (.rd .act) ++ List.replicate M (.rd .actScale))
      (List.append_assoc _ _ _).symm with ⟨e, L, hA, hleft⟩ | ⟨D', hdone', hO⟩
  · rw [hdone, List.append_assoc] at hA
    have he : e ∈ List.replicate M (Event.rd QuantGemmChan.actScale) := by
      rw [List.append_cancel_left hA]
      simp
    obtain rfl := List.eq_of_mem_replicate he
    exact .inl ⟨_, hleft⟩
  right
  constructor
  · have hle := h.count_le .gemm (.rd .actScale)
    simp only [quantGemmTrace, count_gemmTrace] at hle
    rw [hdone', List.count_append, List.count_append, List.count_replicate_self] at hle ⊢
    omega
  · cases hleft : left .gemm with
    | nil => exact .inl rfl
    | cons e L =>
        have he : e ∈ List.replicate (gemmOuts M N) (Event.wr QuantGemmChan.out) := by
          rw [hO, hleft]
          simp
        obtain rfl := List.eq_of_mem_replicate he
        exact .inr ⟨L, rfl⟩

/-- The next access of the quantiser. -/
theorem quant_position (h : QuantGemmCut q M N P uninit data done left s) :
  left .quant = [] ∨ (∃ L, left .quant = .rd .input :: L)
    ∨ (∃ L, left .quant = .wr .actScale :: L) ∨ ∃ L, left .quant = .wr .act :: L
  := by
  cases hleft : left .quant with
  | nil => exact .inl rfl
  | cons e L =>
      right
      have hcount := h.count_lt hleft
      simp only [quantGemmTrace, count_quantTrace] at hcount
      rcases e with c | c <;> cases c <;> simp at hcount ⊢

/-! ### Few tokens, or nothing to multiply -/

/-- A blocked quantiser that is about to write an activation finds their stream full. -/
theorem full_of_blocked (h : QuantGemmCut q M N P uninit data done left s)
    (hb : Blocked quantGemmDepth s .quant) {c : QuantGemmChan}
    (hc : quantGemmDepth c = (fifoD : ℕ)) {L : List (Event QuantGemmChan)}
    (hL : left .quant = .wr c :: L) :
  fifoD ≤ (s.fifo c).length
  := by
  have hroom := h.not_enabled hb hL
  rw [Enabled, hc, not_lt] at hroom
  exact_mod_cast hroom

/-- A blocked process that is about to read finds the stream empty. -/
theorem empty_of_blocked (h : QuantGemmCut q M N P uninit data done left s) {p : QuantGemmProc}
    (hb : Blocked quantGemmDepth s p) {c : QuantGemmChan} {L : List (Event QuantGemmChan)}
    (hL : left p = .rd c :: L) :
  (s.fifo c).length = 0
  := List.length_eq_zero_iff.mpr (not_not.mp (h.not_enabled hb hL))

/-- When the scales of all tokens fit into their stream, a blocked quantiser has finished. -/
theorem quant_finished_of_blocked (hdata : data.length = M * q.inCols)
    (hfit : M ≤ fifoD ∨ q.cols = 0) (h : QuantGemmCut q M N P uninit data done left s)
    (hblocked : ∀ p, Blocked quantGemmDepth s p) :
  left .quant = []
  := by
  have hact := length_between h (.inl rfl)
  have hscale := length_between h (.inr rfl)
  rcases quant_position h with hL | ⟨L, hL⟩ | ⟨L, hL⟩ | ⟨L, hL⟩
  · apply hL
  all_goals
    exfalso
    have hcount := h.count_lt hL
    simp only [quantGemmTrace, count_quantTrace] at hcount
  · have hempty := empty_of_blocked h (hblocked .quant) hL
    have hinput := length_input h
    omega
  · have hfull := full_of_blocked h (hblocked .quant) rfl hL
    rcases hfit with hM | hK
    · omega
    · rcases gemm_position h with ⟨L', hL'⟩ | ⟨-, ⟨L', hL'⟩ | ⟨hread, -⟩⟩
      · have hlt := h.count_lt hL'
        simp only [quantGemmTrace, count_gemmTrace, hK] at hlt
        omega
      · have hempty := empty_of_blocked h (hblocked .gemm) hL'
        simp only [fifoD] at hfull
        omega
      · omega
  · have hfull := full_of_blocked h (hblocked .quant) rfl hL
    rcases gemm_position h with ⟨L', hL'⟩ | ⟨hread, -⟩
    · have hempty := empty_of_blocked h (hblocked .gemm) hL'
      simp only [fifoD] at hfull
      omega
    · omega

/-- When the quantiser has finished, so has a blocked multiplication. -/
theorem gemm_finished_of_blocked (h : QuantGemmCut q M N P uninit data done left s)
    (hblocked : ∀ p, Blocked quantGemmDepth s p) (hquant : left .quant = []) :
  left .gemm = []
  := by
  have hact := length_between h (.inl rfl)
  have hscale := length_between h (.inr rfl)
  have hdone : done .quant = quantTrace .input .act .actScale M q.inCols q.cols := by
    have hsplit := h.split .quant
    rw [hquant, List.append_nil] at hsplit
    exact hsplit.symm
  simp only [hdone, count_quantTrace] at hact hscale
  rcases gemm_position h with ⟨L, hL⟩ | ⟨-, ⟨L, hL⟩ | ⟨-, hL | ⟨L, hL⟩⟩⟩
  · have hlt := h.count_lt hL
    have hempty := empty_of_blocked h (hblocked .gemm) hL
    simp only [quantGemmTrace, count_gemmTrace] at hlt
    omega
  · have hlt := h.count_lt hL
    have hempty := empty_of_blocked h (hblocked .gemm) hL
    simp only [quantGemmTrace, count_gemmTrace] at hlt
    omega
  · apply hL
  · exfalso
    apply h.not_enabled (hblocked .gemm) hL
    apply ENat.natCast_lt_top

/-! ### Many tokens -/

/-- The quantiser writes at most `cols` activations for each scale it writes. -/
theorem count_act_le (h : QuantGemmCut q M N P uninit data done left s) :
  (done .quant).count (.wr .act) ≤ q.cols * (done .quant).count (.wr .actScale)
  := by
  have hrow : PrefixBound (.wr .act) (.wr .actScale) q.cols 0
      (quantRowTrace QuantGemmChan.input .act .actScale q.inCols q.cols) := by
    rw [quantRowTrace, List.append_cons]
    apply PrefixBound.append (c := q.cols)
    · apply prefixBound_of_count_le
      simp [List.count_replicate, List.count_append]
    · simp [List.count_replicate, List.count_append]
    · apply prefixBound_of_count_le
      rw [List.count_replicate_self, Nat.zero_add]
  have hbound := (PrefixBound.flatMap_range (n := M) (fun _ _ => hrow) ?_).1
  · apply hbound _ (h.done_prefix .quant)
  · intro _ _
    simp [quantRowTrace, List.count_replicate, List.count_append]

/-- A multiplication that has read a scale has read all activations. -/
theorem acts_read_of_scale_read (h : QuantGemmCut q M N P uninit data done left s)
    (hread : 0 < (done .gemm).count (.rd .actScale)) :
  (done .gemm).count (.rd .act) = M * q.cols
  := by
  rcases h.within_or_past (p := .gemm) (A := List.replicate (M * q.cols) (.rd .act)) rfl with
    ⟨e, L, hA, -⟩ | ⟨D, hdone, -⟩
  · have hnone := congrArg (List.count (Event.rd QuantGemmChan.actScale)) hA
    simp [List.count_replicate] at hnone
    omega
  · have hle := h.count_le .gemm (.rd .act)
    simp only [quantGemmTrace, count_gemmTrace] at hle
    rw [hdone, List.count_append, List.count_replicate_self] at hle ⊢
    omega

/-- With more tokens than their stream holds scales, the quantiser never writes a scale more
than the stream holds. -/
theorem count_actScale_le (hM : fifoD < M) (hK : 0 < q.cols)
    (hs : Reachable quantGemmDepth (quantGemm q M N P uninit data) s) :
  ∃ done left, QuantGemmCut q M N P uninit data done left s
    ∧ (done .quant).count (.wr .actScale) ≤ fifoD
  := by
  apply Reachable.cut_invariant (I := fun done => (done .quant).count (.wr .actScale) ≤ fifoD)
    (follows_quantGemm q M N P uninit data) (Nat.zero_le _) _ hs
  intro s done left p e L h hI hL he
  cases p with
  | gemm =>
      rw [Function.update_of_ne (by decide)]
      apply hI
  | quant =>
      rw [Function.update_self, List.count_append, List.count_singleton]
      split_ifs with heq
      · obtain rfl : e = .wr .actScale := by simpa using heq
        rcases Nat.lt_or_eq_of_le hI with hlt | hfull
        · apply hlt
        -- the stream has room although `fifoD` scales were written: some scale has been read
        exfalso
        have hscale := length_between h (.inr rfl)
        have hroom : (s.fifo .actScale).length < fifoD := by
          apply ENat.natCast_lt_natCast.mp he
        have hread := acts_read_of_scale_read h (by omega)
        have hact := length_between h (.inl rfl)
        have hle := count_act_le h
        rw [hfull] at hle
        have hmul := Nat.mul_lt_mul_of_pos_left hM hK
        rw [Nat.mul_comm q.cols M] at hmul
        omega
      · apply hI

/-- With more tokens than their stream holds scales, both processes come to wait for each
other. -/
theorem exists_deadlock (hM : fifoD < M) (hK : 0 < q.cols) :
  ∃ s, Reachable quantGemmDepth (quantGemm q M N P uninit data) s ∧ Deadlock quantGemmDepth s
  := by
  obtain ⟨s, hs, hblocked⟩ := exists_blocked quantGemmDepth (follows_quantGemm q M N P uninit data)
  obtain ⟨done, left, h, hI⟩ := count_actScale_le hM hK hs
  use s, hs
  constructor
  · use .quant
    intro hfin
    have hsplit := h.split .quant
    rw [h.finished_iff.mp hfin, List.append_nil] at hsplit
    simp only [← hsplit, quantGemmTrace, count_quantTrace] at hI
    omega
  · intro p _
    apply hblocked

end Network

/-- For any number of tokens, any quantiser, any weights and any input, every schedule lets
both processes finish exactly when the scales of all tokens fit into their stream, or there
is nothing to multiply. -/
theorem quantGemm_alwaysFinishes_iff (q : DynamicQuantiser) (M N : ℕ) (P : WeightPorts)
    (uninit : ℕ → ℕ → ℕ → TileRegisters) (data : List ℤ)
    (hdata : data.length = M * q.inCols) :
  AlwaysFinishes quantGemmDepth (quantGemm q M N P uninit data) ↔ M ≤ fifoD ∨ q.cols = 0
  := by
  have hfollows := follows_quantGemm q M N P uninit data
  constructor
  · intro hfin
    by_contra hnot
    rw [not_or, Nat.not_le] at hnot
    obtain ⟨s, hs, hdead⟩ := exists_deadlock hnot.1 (Nat.pos_of_ne_zero hnot.2)
    apply hfin.deadlockFree s hs hdead
  · intro hfit
    constructor
    · apply (Cut.init hfollows).acc
    · intro s hs hblocked
      obtain ⟨done, left, h⟩ := Reachable.cut hfollows hs
      have hquant := quant_finished_of_blocked hdata hfit h hblocked
      intro p
      apply h.finished_iff.mpr
      cases p with
      | quant => apply hquant
      | gemm => apply gemm_finished_of_blocked h hblocked hquant

/-- The quantiser and the O projection of a single token always finish. -/
theorem quantGemm_alwaysFinishes_one_token :
  AlwaysFinishes quantGemmDepth
    (quantGemm (.act C) 1 C ⟨fun _ => 0, fun _ => 0, fun _ => 0, fun _ => 0⟩
      (fun _ _ _ => ⟨fun _ _ => 0, fun _ _ => 0⟩) (List.replicate C 0))
  := (quantGemm_alwaysFinishes_iff (.act C) 1 C _ _ _ List.length_replicate).mpr
    (.inl (by decide))

/-- Those of seventeen tokens can deadlock. -/
theorem quantGemm_deadlock_seventeen_tokens :
  ∃ s, Reachable quantGemmDepth
    (quantGemm (.act C) 17 C ⟨fun _ => 0, fun _ => 0, fun _ => 0, fun _ => 0⟩
      (fun _ _ _ => ⟨fun _ _ => 0, fun _ _ => 0⟩) (List.replicate (17 * C) 0)) s
    ∧ Deadlock quantGemmDepth s
  := exists_deadlock (by decide) (by decide)

end Kv260
