import SmolVlm2Kv260.Dataflow.LayerFunction
import SmolVlm2Kv260.Dataflow.RopeAttention
import SmolVlm2Kv260.Process.Confluence

/-!
# What the schedules of the dataflow region end in

The kernel is written, and simulated, as stages in program order; on the device the stages
run concurrently over streams of fixed depths.  Each access of a stream belongs to one
stage, so the schedules of a network do not differ in what they end in: the state that the
program order ends in, or one deadlock.  For a quantiser and the multiplication it feeds it
is the number of tokens that decides; the rotary embedding and the attention run through
over streams that are deep enough, and never over those of the kernel.
-/

set_option autoImplicit false

namespace Kv260

open Proc Network Event Blocks

/-! ### A quantiser and its multiplication -/

/-- The process that performs an access. -/
def quantGemmPerformer : Event QuantGemmChan → Option QuantGemmProc
  | .rd .input => some .quant
  | .wr .act => some .quant
  | .wr .actScale => some .quant
  | .rd .act => some .gemm
  | .rd .actScale => some .gemm
  | .wr .out => some .gemm
  | _ => none

section QuantGemm

variable (q : DynamicQuantiser) (M N : ℕ) (P : WeightPorts)
variable (uninit : ℕ → ℕ → ℕ → TileRegisters) (data : List ℤ)

theorem owned_quantGemm :
  (quantGemm q M N P uninit data).Owned
  := by
  apply owned_of_performer quantGemmPerformer (follows_quantGemm q M N P uninit data)
  intro p e he
  have hcount := List.count_pos_iff.mpr he
  cases p with
  | quant =>
      rw [quantGemmTrace, count_quantTrace] at hcount
      rcases e with c | c <;> cases c <;> first | rfl | simp at hcount
  | gemm =>
      rw [quantGemmTrace, count_gemmTrace] at hcount
      rcases e with c | c <;> cases c <;> first | rfl | simp at hcount

/-- The quantiser runs to its end, and then the multiplication. -/
theorem run_inOrder_quantGemm (hq : q.WellFormed) (x : ℕ → ℕ → ℤ) :
  (inOrder (quantGemm q M N P uninit (tokenStream M q.inCols x)).proc [.quant, .gemm]).run
      (quantGemm q M N P uninit (tokenStream M q.inCols x)).fifo
    = some ((), only .out (tokenStream M N (q.product hq P M N x)))
  := by
  have hfifo : (quantGemm q M N P uninit (tokenStream M q.inCols x)).fifo
      = only .input (tokenStream M q.inCols x) := by
    funext c
    cases c <;> rfl
  rw [hfifo, inOrder, inOrder_singleton]
  apply q.pipes_thenGemm hq P M N uninit x

/-- For any quantiser, any weights and any tokens, all schedules end in the same state: when the
scales of all tokens fit into their stream, or there is nothing to multiply, the processes have
returned and what `w4a8_gemm` makes of the codes is on the output, in the order of its tiles;
otherwise it is a deadlock.  Where a scale is zero, `quantizeRow` stands for a division that the
source does not define. -/
theorem quantGemm_outcome (hq : q.WellFormed) (x : ℕ → ℕ → ℤ) :
  if M ≤ fifoD ∨ q.cols = 0 then
    EndsIn quantGemmDepth (quantGemm q M N P uninit (tokenStream M q.inCols x))
      (finished _ (only .out (tokenStream M N (q.product hq P M N x))))
  else
    ∃ s, EndsIn quantGemmDepth (quantGemm q M N P uninit (tokenStream M q.inCols x)) s
      ∧ Deadlock quantGemmDepth s
  := by
  set data := tokenStream M q.inCols x
  have hdata : data.length = M * q.inCols := by
    apply length_flatMap_range
    intro t _
    rw [List.length_map, List.length_range]
  have hfollows := follows_quantGemm q M N P uninit data
  have howned := owned_quantGemm q M N P uninit data
  have hacc := (Cut.init hfollows : Cut quantGemmDepth _ _ _ _ _).acc
  split_ifs with hfit
  · -- all processes finish, so the streams are those of the program order
    obtain ⟨s, hs, hblocked⟩ := exists_blocked quantGemmDepth hfollows
    have hfin := ((quantGemm_alwaysFinishes_iff q M N P uninit data hdata).mpr hfit).2 s hs hblocked
    have hall : ∀ p, p ∈ [QuantGemmProc.quant, .gemm] := by
      intro p
      cases p <;> decide
    have hprogram := howned.finished_programOrder (by decide) hall
      (run_inOrder_quantGemm q M N P uninit hq x) hs hfin
    rw [← hprogram]
    apply howned.endsIn hacc hs hblocked
  · -- some schedule ends in a deadlock, so all do
    have hmany := not_or.mp hfit
    obtain ⟨s, hs, hdead⟩ := @exists_deadlock q M N P uninit data
      (Nat.lt_of_not_le hmany.1) (Nat.pos_of_ne_zero hmany.2)
    use s
    constructor
    · apply howned.endsIn hacc hs hdead.blocked
    · apply hdead

end QuantGemm

/-- Weights of zeros. -/
def zeroPorts : WeightPorts := ⟨fun _ => 0, fun _ => 0, fun _ => 0, fun _ => 0⟩

def zeroRegisters (_ _ _ : ℕ) : TileRegisters := ⟨fun _ _ => 0, fun _ _ => 0⟩

theorem quantGemm_outcome_prefill_tile :
  if 32 ≤ fifoD ∨ DynamicQuantiser.silu.cols = 0 then
    EndsIn quantGemmDepth
      (quantGemm .silu 32 C zeroPorts zeroRegisters
        (tokenStream 32 DynamicQuantiser.silu.inCols fun _ _ => 1))
      (finished _ (only .out (tokenStream 32 C
        (DynamicQuantiser.silu.product DynamicQuantiser.wellFormed_silu zeroPorts 32 C
          fun _ _ => 1))))
  else
    ∃ s, EndsIn quantGemmDepth
        (quantGemm .silu 32 C zeroPorts zeroRegisters
          (tokenStream 32 DynamicQuantiser.silu.inCols fun _ _ => 1)) s
      ∧ Deadlock quantGemmDepth s
  := quantGemm_outcome .silu 32 C _ _ DynamicQuantiser.wellFormed_silu _

/-! ### The rotary embedding and the attention -/

section RopeAttention

variable (l : Launch) (kv : KvState) (data : List ℤ)

/-- The network of a launch of the decoder kernel. -/
def Launch.ropeAttention : Network RopeAttnProc AttnChan ℤ :=
  Kv260.ropeAttention l.curPos l.kvLen l.workTokenCount l.layerId kv data

theorem owned_ropeAttention :
  (l.ropeAttention kv data).Owned
  := by
  apply owned_of_performer performer
    (follows_ropeAttention l.curPos l.kvLen l.workTokenCount l.layerId kv data)
  intro p e he
  apply performer_of_mem he

/-- The four processes run to their ends, one after the other. -/
theorem run_inOrder_ropeAttention (qkv : ℕ → ℕ → ℤ) :
  (inOrder (l.ropeAttention kv (tokenStream l.workTokenCount nQkv qkv)).proc
      [.split, .ropeQ, .ropeK, .mha]).run
      (l.ropeAttention kv (tokenStream l.workTokenCount nQkv qkv)).fifo
    = some ((), only .attnO (tokenStream l.workTokenCount C (l.attnRows kv qkv)))
  := by
  have hfifo : (l.ropeAttention kv (tokenStream l.workTokenCount nQkv qkv)).fifo
      = only .qkvIn (tokenStream l.workTokenCount nQkv qkv) := by
    funext c
    cases c <;> rfl
  have hpipes := (l.pipes_attention kv qkv).bind (f := fun _ => ret ()) (pipes_ret _ _ ())
  simp only [ropeSplitQk, then_assoc] at hpipes
  rw [hfifo, inOrder, inOrder, inOrder, inOrder_singleton]
  apply hpipes

/-- A process does not perform the accesses of another. -/
theorem count_of_performer_ne {n : ℕ} {p : RopeAttnProc} {e : Event AttnChan}
    (h : performer e ≠ some p) :
  (ropeAttnTrace n p).count e = 0
  := by
  apply List.count_eq_zero_of_not_mem
  intro he
  apply h (performer_of_mem he)

/-- At any depths of the streams, when all processes have returned, the output holds the rows of
the program order, and over unbounded streams all schedules end so.  Over those of the kernel,
with at least one token, all schedules end in a deadlock, with nothing on the output.  The banks
of the source have the positions of the tokens when `curPos + workTokenCount` is at most
`MAX_SEQ`. -/
theorem ropeAttention_outcome (qkv : ℕ → ℕ → ℤ) (h : 1 ≤ l.workTokenCount) :
  (∀ cap s, Reachable cap (l.ropeAttention kv (tokenStream l.workTokenCount nQkv qkv)) s →
      (∀ p, s.Finished p) →
        s = finished _ (only .attnO (tokenStream l.workTokenCount C (l.attnRows kv qkv))))
    ∧ EndsIn (fun _ => ⊤) (l.ropeAttention kv (tokenStream l.workTokenCount nQkv qkv))
      (finished _ (only .attnO (tokenStream l.workTokenCount C (l.attnRows kv qkv))))
    ∧ ∃ s, EndsIn ropeAttnDepth (l.ropeAttention kv (tokenStream l.workTokenCount nQkv qkv)) s
      ∧ Deadlock ropeAttnDepth s ∧ s.fifo .attnO = []
  := by
  set s₀ := l.ropeAttention kv (tokenStream l.workTokenCount nQkv qkv)
  have howned : s₀.Owned := owned_ropeAttention l kv _
  have hfollows := follows_ropeAttention l.curPos l.kvLen l.workTokenCount l.layerId kv
    (tokenStream l.workTokenCount nQkv qkv)
  have hall : ∀ p, p ∈ [RopeAttnProc.split, .ropeQ, .ropeK, .mha] := by
    intro p
    cases p <;> decide
  have hrun := run_inOrder_ropeAttention l kv qkv
  refine ⟨?_, ?_, ?_⟩
  · intro cap s hs hfin
    apply howned.finished_programOrder (by decide) hall hrun hs hfin
  · apply howned.endsIn (Cut.init hfollows).acc (reachable_programOrder (by decide) hall hrun)
    apply blocked_finished
  · obtain ⟨s, hs, hdead⟩ := exists_mha_deadlock l.curPos l.kvLen l.layerId kv
      (tokenStream l.workTokenCount nQkv qkv) h
    use s, howned.endsIn (Cut.init hfollows).acc hs hdead.blocked, hdead
    -- what is on the output has been written by the attention, which has written nothing
    obtain ⟨done, left, hcut, hdone⟩ := mha_waits hs h
    have hbalance := hcut.balance_of (c := .attnO) (r := .mha) (w := .mha)
      (fun p _ => count_of_performer_ne (by simp [performer]))
      (fun p hp => count_of_performer_ne (by simpa [performer] using hp.symm))
    rw [hdone] at hbalance
    apply List.length_eq_zero_iff.mp hbalance

end RopeAttention

/-- The first launch of a decode step after a prompt of 64 rows. -/
def decodeLaunch : Launch where
  actPing := .ping
  actPong := .pong
  actOut := .pong
  seqLen := 1
  kvLen := 65
  posStart := 64
  execMode := 0
  tokenTileOffset := 0
  tokenTileSize := 1
  runLmhead := 0
  layerId := 0
  usePing := 1
  wgtOffset := 0
  metaOffset := 0

theorem ropeAttention_outcome_decode :
  (∀ cap s, Reachable cap (decodeLaunch.ropeAttention KvState.init
        (tokenStream decodeLaunch.workTokenCount nQkv fun _ _ => 1)) s →
      (∀ p, s.Finished p) →
        s = finished _ (only .attnO (tokenStream decodeLaunch.workTokenCount C
          (decodeLaunch.attnRows KvState.init fun _ _ => 1))))
    ∧ EndsIn (fun _ => ⊤) (decodeLaunch.ropeAttention KvState.init
        (tokenStream decodeLaunch.workTokenCount nQkv fun _ _ => 1))
      (finished _ (only .attnO (tokenStream decodeLaunch.workTokenCount C
        (decodeLaunch.attnRows KvState.init fun _ _ => 1))))
    ∧ ∃ s, EndsIn ropeAttnDepth (decodeLaunch.ropeAttention KvState.init
        (tokenStream decodeLaunch.workTokenCount nQkv fun _ _ => 1)) s
      ∧ Deadlock ropeAttnDepth s ∧ s.fifo .attnO = []
  := ropeAttention_outcome decodeLaunch KvState.init (fun _ _ => 1) (by decide)

end Kv260
