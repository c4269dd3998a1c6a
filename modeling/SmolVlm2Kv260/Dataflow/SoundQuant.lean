import SmolVlm2Kv260.Dataflow.QuantGemm
import SmolVlm2Kv260.Kernel.RmsNorm

/-!
# What the quantisers write

Run on the values of some tokens, a quantiser writes the scale of each token to one stream and
its codes to the other.  Scales and codes are sound exactly when no value that is quantised
exceeds `soundMax`.
-/

set_option autoImplicit false

namespace Kv260

open Proc Blocks

namespace DynamicQuantiser

/-- `gamma` has a value for each column. -/
def WellFormed : DynamicQuantiser → Prop
  | rmsnorm gamma => gamma.length = C
  | act _ => True
  | silu => True

/-- The values that are quantised for a token: what it reads, the products of gate and up, or
the normalised values. -/
def row : DynamicQuantiser → List ℤ → List ℤ
  | rmsnorm gamma, token => rmsnormRow gamma token
  | act _, token => token
  | silu, token => siluGateRow (token.take ffnDim) (token.drop ffnDim)

variable {q : DynamicQuantiser}

theorem length_row (hq : q.WellFormed) {token : List ℤ} (h : token.length = q.inCols) :
  (q.row token).length = q.cols
  := by
  cases q with
  | rmsnorm gamma =>
      rw [row, rmsnormRow, List.length_zipWith, h, hq]
      apply Nat.min_self
  | act cols => apply h
  | silu =>
      rw [row, siluGateRow, List.length_zipWith, List.length_take, List.length_drop, h]
      rfl

/-! ### Runs -/

/-- The streams of a quantiser: the values it has yet to read, and what it has written. -/
def streams (input codes scales : List ℤ) : Store QuantGemmChan ℤ
  | .input => input
  | .act => codes
  | .actScale => scales
  | .out => []

/-- The scale of a row is written, and then its codes. -/
theorem run_quantizeRow {cols : ℕ} {row : List ℤ} (h : row.length = cols)
    (input codes scales : List ℤ) :
  (quantizeRow .act .actScale cols row).run (streams input codes scales)
    = some ((), streams input (codes ++ quantCodes row) (scales ++ [tokScale row]))
  := by
  have hcodes : (List.range cols).map (fun c => apInt 8 ((row.getD c 0).tdiv (tokScale row)))
      = quantCodes row := by
    have hrow := congrArg (List.map fun x => apInt 8 (x.tdiv (tokScale row))) (map_range_getD h 0)
    rw [List.map_map] at hrow
    apply hrow
  have hsend := emits_forEach_send (n := cols) (c := QuantGemmChan.act)
    fun c => apInt 8 ((row.getD c 0).tdiv (tokScale row))
  rw [quantizeRow, run_bind_of_run (run_send QuantGemmChan.actScale (tokScale row) _), hsend,
    hcodes]
  congr 2
  funext c
  cases c with
  | input => rfl
  | act => rfl
  | actScale => rfl
  | out => rfl

/-- One token is read, and its row is quantised. -/
def token : DynamicQuantiser → Proc QuantGemmChan ℤ Unit
  | rmsnorm gamma => do
      let buf ← readVec .input C
      quantizeRow .act .actScale C (rmsnormRow gamma buf)
  | act cols => do
      let rowBuf ← readVec .input cols
      quantizeRow .act .actScale cols rowBuf
  | silu => do
      let gate ← readVec .input ffnDim
      let up ← readVec .input ffnDim
      quantizeRow .act .actScale ffnDim (siluGateRow gate up)

theorem proc_eq_forEach (q : DynamicQuantiser) (M : ℕ) :
  q.proc M = forEach M fun _ => q.token
  := by
  cases q with
  | rmsnorm gamma => rfl
  | act cols => rfl
  | silu => rfl

theorem update_input (input input' codes scales : List ℤ) :
  Function.update (streams input codes scales) .input input' = streams input' codes scales
  := by
  funext c
  cases c with
  | input => rfl
  | act => rfl
  | actScale => rfl
  | out => rfl

theorem run_readVec_input {n : ℕ} {data : List ℤ} (h : data.length = n)
    (rest codes scales : List ℤ) :
  (readVec .input n).run (streams (data ++ rest) codes scales)
    = some (data, streams rest codes scales)
  := by
  rw [← update_input (data ++ rest) rest]
  apply run_readVec h
  rfl

theorem run_token (hq : q.WellFormed) {data : List ℤ} (h : data.length = q.inCols)
    (rest codes scales : List ℤ) :
  q.token.run (streams (data ++ rest) codes scales)
    = some ((), streams rest (codes ++ quantCodes (q.row data)) (scales ++ [tokScale (q.row data)]))
  := by
  have hrow := length_row hq h
  cases q with
  | rmsnorm gamma =>
      change data.length = C at h
      rw [token, run_bind_of_run (run_readVec_input h rest codes scales)]
      apply run_quantizeRow hrow
  | act cols =>
      change data.length = cols at h
      rw [token, run_bind_of_run (run_readVec_input h rest codes scales)]
      apply run_quantizeRow hrow
  | silu =>
      have hgate : (data.take ffnDim).length = ffnDim := by
        rw [List.length_take, h]
        rfl
      have hup : (data.drop ffnDim).length = ffnDim := by
        rw [List.length_drop, h]
        rfl
      have hdata : data ++ rest = data.take ffnDim ++ (data.drop ffnDim ++ rest) := by
        rw [← List.append_assoc, List.take_append_drop]
      rw [hdata, token, run_bind_of_run (run_readVec_input hgate _ codes scales),
        run_bind_of_run (run_readVec_input hup rest codes scales)]
      apply run_quantizeRow hrow

/-- A run writes the scales and the codes of all tokens, token by token. -/
theorem run_proc (hq : q.WellFormed) {tokens : List (List ℤ)}
    (h : ∀ data ∈ tokens, data.length = q.inCols) :
  (q.proc tokens.length).run (streams tokens.flatten [] [])
    = some ((), streams [] (tokens.flatMap fun data => quantCodes (q.row data))
        (tokens.map fun data => tokScale (q.row data)))
  := by
  have hstep : ∀ i < tokens.length, q.token.run
      (streams (tokens.drop i).flatten ((tokens.take i).flatMap fun data => quantCodes (q.row data))
        ((tokens.take i).map fun data => tokScale (q.row data)))
        = some ((), streams (tokens.drop (i + 1)).flatten
          ((tokens.take (i + 1)).flatMap fun data => quantCodes (q.row data))
          ((tokens.take (i + 1)).map fun data => tokScale (q.row data))) := by
    intro i hi
    rw [List.drop_eq_getElem_cons hi, List.flatten_cons,
      run_token hq (h _ (List.getElem_mem hi)), List.take_succ_eq_append_getElem hi,
      List.flatMap_append, List.map_append, List.flatMap_singleton]
    rfl
  have hrun := run_forEach (fun i => streams (tokens.drop i).flatten
    ((tokens.take i).flatMap fun data => quantCodes (q.row data))
    ((tokens.take i).map fun data => tokScale (q.row data))) hstep
  rw [List.drop_length, List.take_length] at hrun
  rw [proc_eq_forEach]
  apply hrun

/-! ### Soundness -/

/-- A run ends with a scale and codes for each token, and they are sound. -/
def QuantisesSoundly (q : DynamicQuantiser) (tokens : List (List ℤ)) : Prop :=
  ∃ τ, (q.proc tokens.length).run (streams tokens.flatten [] []) = some ((), τ)
    ∧ (τ .actScale).length = tokens.length
    ∧ (τ .act).length = tokens.length * q.cols
    ∧ ∀ t < tokens.length, SoundRow (q.row (tokens.getD t [])) ((τ .actScale).getD t 0)
        (((τ .act).drop (t * q.cols)).take q.cols)

/-- The codes are blocks, one for each token. -/
theorem length_codes (hq : q.WellFormed) {tokens : List (List ℤ)}
    (h : ∀ data ∈ tokens, data.length = q.inCols) :
  ∀ i < tokens.length, (quantCodes (q.row (tokens.getD i []))).length = q.cols
  := by
  intro i hi
  rw [quantCodes, List.length_map, List.getD_eq_getElem _ _ hi]
  apply length_row hq (h _ (List.getElem_mem hi))

theorem codes_eq_blocks (q : DynamicQuantiser) (tokens : List (List ℤ)) :
  (tokens.flatMap fun data => quantCodes (q.row data))
    = (List.range tokens.length).flatMap fun i => quantCodes (q.row (tokens.getD i []))
  := by
  have hmap := congrArg (List.flatMap fun data => quantCodes (q.row data))
    (map_range_getD (l := tokens) rfl [])
  rw [List.flatMap_map] at hmap
  apply hmap.symm

/-- What the streams hold of token `t`. -/
theorem streams_token (hq : q.WellFormed) {tokens : List (List ℤ)}
    (h : ∀ data ∈ tokens, data.length = q.inCols) {t : ℕ} (ht : t < tokens.length) :
  (tokens.map fun data => tokScale (q.row data)).getD t 0 = tokScale (q.row (tokens.getD t []))
    ∧ ((tokens.flatMap fun data => quantCodes (q.row data)).drop (t * q.cols)).take q.cols
      = quantCodes (q.row (tokens.getD t []))
  := by
  constructor
  · rw [List.getD_eq_getElem _ _ (by rwa [List.length_map]), List.getElem_map,
      List.getD_eq_getElem _ _ ht]
  · rw [codes_eq_blocks]
    apply take_drop_flatMap_range (length_codes hq h) ht

theorem quantisesSoundly_iff_rows (hq : q.WellFormed) {tokens : List (List ℤ)}
    (h : ∀ data ∈ tokens, data.length = q.inCols) :
  q.QuantisesSoundly tokens
    ↔ ∀ data ∈ tokens, SoundRow (q.row data) (tokScale (q.row data)) (quantCodes (q.row data))
  := by
  have hrun := run_proc hq h
  constructor
  · rintro ⟨τ, hτ, -, -, hsound⟩ data hdata
    obtain rfl := congrArg Prod.snd (Option.some.inj (hrun.symm.trans hτ))
    obtain ⟨t, ht, rfl⟩ := List.getElem_of_mem hdata
    obtain ⟨hscale, hcodes⟩ := streams_token hq h ht
    have hrow := hsound t ht
    simp only [streams] at hrow
    rw [hscale, hcodes, List.getD_eq_getElem _ _ ht] at hrow
    apply hrow
  · intro hsound
    refine ⟨_, hrun, List.length_map _, ?_, ?_⟩
    · simp only [streams]
      rw [codes_eq_blocks]
      apply length_flatMap_range (length_codes hq h)
    · intro t ht
      obtain ⟨hscale, hcodes⟩ := streams_token hq h ht
      simp only [streams]
      rw [hscale, hcodes]
      apply hsound
      rw [List.getD_eq_getElem _ _ ht]
      apply List.getElem_mem ht

/-- For any numbers of tokens, the quantisers write sound scales and codes when no value that is
quantised exceeds `soundMax`. -/
theorem quantisesSoundly_iff (q : DynamicQuantiser) (hq : q.WellFormed)
    (tokens : List (List ℤ)) (h : ∀ data ∈ tokens, data.length = q.inCols) :
  q.QuantisesSoundly tokens ↔ ∀ data ∈ tokens, ∀ x ∈ q.row data, |x| ≤ soundMax
  := by
  rw [quantisesSoundly_iff_rows hq h]
  simp only [soundRow_iff]

/-- Two rows of one value that `act_quant` quantises soundly. -/
theorem quantisesSoundly_iff_small :
  (act 1).QuantisesSoundly [[100], [-16128]]
  := by
  apply (quantisesSoundly_iff (act 1) trivial [[100], [-16128]] (by decide)).mpr
  decide

/-- The scale of 32385 is 256, of which an `INT8` holds zero: `act_quant` divides by it. -/
theorem not_quantisesSoundly :
  tokScale [32385] = 0 ∧ ¬ (act 1).QuantisesSoundly [[32385]]
  := by
  have hzero : tokScale [32385] = 0 := by decide
  refine ⟨hzero, ?_⟩
  intro h
  have hrow := (quantisesSoundly_iff_rows (q := act 1) trivial (by decide)).mp h [32385]
    (List.mem_singleton_self _)
  have hpos := hrow.scale_pos
  rw [row, hzero] at hpos
  omega

end DynamicQuantiser

/-! ### Loaded activations -/

open DynamicQuantiser

/-- Loaded tokens are quantised soundly after they are normalised, whatever the weights. -/
theorem quantisesSoundly_loaded (gamma : GammaVector) (tokens : List LoadedToken) :
  (rmsnorm gamma.vals).QuantisesSoundly (tokens.map LoadedToken.vals)
  := by
  have hlen : ∀ data ∈ tokens.map LoadedToken.vals, data.length = C := by
    intro data hdata
    obtain ⟨tok, -, rfl⟩ := List.mem_map.mp hdata
    apply tok.length_vals
  apply (quantisesSoundly_iff_rows (q := rmsnorm gamma.vals) gamma.length_vals hlen).mpr
  intro data hdata
  obtain ⟨tok, -, rfl⟩ := List.mem_map.mp hdata
  rw [row, (tok.rmsnormFits gamma).rmsnormRow_eq]
  apply tok.soundRow_normRow

/-- For any number of loaded tokens and any weights, no register of `rmsnorm_quant` overflows,
and it writes sound scales and codes of the normalised values. -/
theorem rmsnormQuant_loaded (gamma : GammaVector) (tokens : List LoadedToken) :
  (∀ tok ∈ tokens, RmsnormFits gamma.vals tok.vals)
    ∧ ∃ τ, (rmsnormQuant .input .act .actScale gamma.vals tokens.length).run
        (streams (tokens.flatMap LoadedToken.vals) [] []) = some ((), τ)
      ∧ (τ .actScale).length = tokens.length
      ∧ (τ .act).length = tokens.length * C
      ∧ ∀ t (ht : t < tokens.length), SoundRow (tokens[t].normRow gamma)
        ((τ .actScale).getD t 0) (((τ .act).drop (t * C)).take C)
  := by
  constructor
  · intro tok _
    apply tok.rmsnormFits
  · obtain ⟨τ, hrun, hscales, hacts, hrows⟩ := quantisesSoundly_loaded gamma tokens
    rw [List.length_map] at hrun hscales hacts hrows
    use τ
    refine ⟨?_, hscales, hacts, ?_⟩
    · rw [List.flatMap_def]
      apply hrun
    · intro t ht
      have h := hrows t ht
      rw [List.getD_eq_getElem _ _ (by rwa [List.length_map]), List.getElem_map, row,
        (tokens[t].rmsnormFits gamma).rmsnormRow_eq] at h
      apply h

end Kv260
