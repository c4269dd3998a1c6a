import SmolVlm2Kv260.Process.Basic
import Mathlib.Algebra.BigOperators.Group.Finset.Basic
import Mathlib.Algebra.GroupWithZero.Action.Pi
import Mathlib.Algebra.Module.BigOperators
import Mathlib.Algebra.Module.Pi

/-!
# Token counts of processes

`p.Moves r w` says that, alone on unbounded channels, `p` takes `r c` values from each channel
`c` and puts `w c` values on it, whatever else the channels hold: it never reads an empty
channel when these values are there.  The counts are functions of the channel, so what the
channels hold besides can be added to both sides, and the counts of a sequence or of a loop
are those of its parts.
-/

set_option autoImplicit false

namespace Proc

open Blocks

variable {ι V α β : Type} [DecidableEq ι]

/-- The counts of `n` values on the channel `c`. -/
def tokens (c : ι) (n : ℕ) : ι → ℕ := Pi.single c n

theorem tokens_self (c : ι) (n : ℕ) :
  tokens c n c = n
  := by rw [tokens, Pi.single_eq_same]

theorem tokens_of_ne {c d : ι} (h : d ≠ c) (n : ℕ) :
  tokens c n d = 0
  := by rw [tokens, Pi.single_eq_of_ne h]

theorem tokens_zero (c : ι) :
  tokens c 0 = 0
  := by rw [tokens, Pi.single_zero]

theorem tokens_add (c : ι) (m n : ℕ) :
  tokens c (m + n) = tokens c m + tokens c n
  := by rw [tokens, Pi.single_add, tokens, tokens]

theorem smul_tokens (n : ℕ) (c : ι) (k : ℕ) :
  n • tokens c k = tokens c (n * k)
  := by rw [tokens, ← Pi.single_smul, smul_eq_mul, tokens]

/-- The process takes `r c` values from each channel `c` and puts `w c` values on it. -/
def Moves (p : Proc ι V α) (r w : ι → ℕ) : Prop :=
  ∀ (σ : Store ι V) (f : ι → ℕ), (∀ c, (σ c).length = r c + f c) →
    ∃ a τ, p.run σ = some (a, τ) ∧ ∀ c, (τ c).length = w c + f c

theorem Moves.of_eq {p : Proc ι V α} {r w r' w' : ι → ℕ} (h : p.Moves r w) (hr : r = r')
    (hw : w = w') :
  p.Moves r' w'
  := by
  rw [← hr, ← hw]
  apply h

/-- What the channels hold besides stays there. -/
theorem Moves.frame {p : Proc ι V α} {r w : ι → ℕ} (h : p.Moves r w) (g : ι → ℕ) :
  p.Moves (r + g) (w + g)
  := by
  intro σ f hσ
  obtain ⟨a, τ, hrun, hτ⟩ := h σ (g + f) fun c => by
    rw [hσ c, Pi.add_apply, Pi.add_apply, Nat.add_assoc]
  refine ⟨a, τ, hrun, ?_⟩
  intro c
  rw [hτ c, Pi.add_apply, Pi.add_apply, Nat.add_assoc]

/-- A process that moves everything there is leaves empty channels. -/
theorem Moves.run_empty {p : Proc ι V α} (h : p.Moves 0 0) :
  ∃ a, p.run (fun _ => []) = some (a, fun _ => [])
  := by
  obtain ⟨a, τ, hrun, hτ⟩ := h (fun _ => []) 0 fun _ => rfl
  have hempty : τ = fun _ => [] := by
    funext c
    apply List.eq_nil_of_length_eq_zero (hτ c)
  rw [hempty] at hrun
  exact ⟨a, hrun⟩

/-! ### Single accesses -/

theorem moves_ret (a : α) (r : ι → ℕ) :
  Moves (ret a : Proc ι V α) r r
  := by
  intro σ f hσ
  exact ⟨a, σ, rfl, hσ⟩

theorem moves_recv (c : ι) :
  Moves (recv c : Proc ι V V) (tokens c 1) 0
  := by
  intro σ f hσ
  have hc := hσ c
  rw [tokens_self, Nat.add_comm] at hc
  obtain ⟨v, vs, hv⟩ := List.exists_cons_of_length_eq_add_one hc
  refine ⟨v, _, run_recv hv, ?_⟩
  intro d
  by_cases hd : d = c
  · subst hd
    rw [hv, List.length_cons] at hc
    rw [Function.update_self, Pi.zero_apply, Nat.zero_add]
    apply Nat.succ.inj hc
  · rw [Function.update_of_ne hd, hσ d, tokens_of_ne hd, Pi.zero_apply]

theorem moves_send (c : ι) (v : V) :
  Moves (send c v) 0 (tokens c 1)
  := by
  intro σ f hσ
  refine ⟨(), _, run_send c v σ, ?_⟩
  intro d
  by_cases hd : d = c
  · subst hd
    rw [Function.update_self, List.length_append, hσ d, tokens_self, Pi.zero_apply,
      List.length_singleton]
    omega
  · rw [Function.update_of_ne hd, hσ d, tokens_of_ne hd, Pi.zero_apply]

/-! ### Sequences and loops -/

/-- The second part takes what the first one leaves. -/
theorem Moves.bind {p : Proc ι V α} {f : α → Proc ι V β} {r m w : ι → ℕ} (hp : p.Moves r m)
    (hf : ∀ a, (f a).Moves m w) :
  (p >>= f).Moves r w
  := by
  intro σ g hσ
  obtain ⟨a, τ, hrun, hτ⟩ := hp σ g hσ
  obtain ⟨b, υ, hrun', hυ⟩ := hf a τ g hτ
  refine ⟨b, υ, ?_, hυ⟩
  rw [run_bind_of_run hrun, hrun']

/-- The counts of two parts that take nothing from each other add up. -/
theorem Moves.add {p : Proc ι V α} {f : α → Proc ι V β} {r w r' w' : ι → ℕ} (hp : p.Moves r w)
    (hf : ∀ a, (f a).Moves r' w') :
  (p >>= f).Moves (r + r') (w + w')
  := by
  apply (hp.frame r').bind
  intro a
  rw [add_comm w r', add_comm w w']
  apply (hf a).frame

theorem moves_forLoop {σ : Type} {n : ℕ} {body : ℕ → σ → Proc ι V σ} {r w : ℕ → ι → ℕ}
    (h : ∀ i < n, ∀ s, (body i s).Moves (r i) (w i)) (s : σ) :
  (forLoop n s body).Moves (∑ i ∈ Finset.range n, r i) (∑ i ∈ Finset.range n, w i)
  := by
  induction n with
  | zero => apply moves_ret
  | succ n ih =>
      rw [Finset.sum_range_succ, Finset.sum_range_succ]
      apply Moves.add
      · apply ih fun i hi => h i (Nat.lt_succ_of_lt hi)
      · apply h n n.lt_succ_self

/-- A loop whose iterations have the same counts. -/
theorem moves_forLoop_const {σ : Type} {n : ℕ} {body : ℕ → σ → Proc ι V σ} {r w : ι → ℕ}
    (h : ∀ i < n, ∀ s, (body i s).Moves r w) (s : σ) :
  (forLoop n s body).Moves (n • r) (n • w)
  := by
  have hloop := moves_forLoop h s
  rw [Finset.sum_const, Finset.sum_const, Finset.card_range] at hloop
  apply hloop

theorem moves_forEach_const {n : ℕ} {body : ℕ → Proc ι V Unit} {r w : ι → ℕ}
    (h : ∀ i < n, (body i).Moves r w) :
  (forEach n body).Moves (n • r) (n • w)
  := moves_forLoop_const (fun i hi _ => h i hi) ()

theorem sum_tileLen_aux {T n : ℕ} (hT : 0 < T) {m : ℕ} (hm : m ≤ tileCount T n) :
  ∑ i ∈ Finset.range m, tileLen T n i = min (m * T) n
  := by
  induction m with
  | zero => simp
  | succ m ih =>
      have hlt := lt_of_lt_tileCount hT (Nat.lt_of_succ_le hm)
      rw [Finset.sum_range_succ, ih (Nat.le_of_succ_le hm), Nat.min_eq_left (Nat.le_of_lt hlt),
        tileLen, Nat.succ_mul]
      split <;> omega

/-- The lengths of the tiles add up to the whole. -/
theorem sum_tileLen {T : ℕ} (hT : 0 < T) (n : ℕ) :
  ∑ i ∈ Finset.range (tileCount T n), tileLen T n i = n
  := by
  rw [sum_tileLen_aux hT (le_refl _), Nat.min_eq_right (le_tileCount_mul hT n)]

/-- A loop over tiles, when a tile moves the same counts for each of its elements. -/
theorem moves_forEach_tiles {T : ℕ} (hT : 0 < T) {n : ℕ} {body : ℕ → Proc ι V Unit}
    {r w : ι → ℕ}
    (h : ∀ i < tileCount T n, (body i).Moves (tileLen T n i • r) (tileLen T n i • w)) :
  (forEach (tileCount T n) body).Moves (n • r) (n • w)
  := by
  have hloop := moves_forLoop (fun i hi (_ : Unit) => h i hi) ()
  rw [← Finset.sum_smul, ← Finset.sum_smul, sum_tileLen hT] at hloop
  apply hloop

/-! ### Buffers -/

theorem moves_forEach_send (c : ι) (n : ℕ) (f : ℕ → V) :
  (forEach n fun i => send c (f i)).Moves 0 (tokens c n)
  := by
  have h := moves_forEach_const (n := n) fun i _ => moves_send c (f i)
  rw [smul_zero, smul_tokens, Nat.mul_one] at h
  apply h

theorem moves_forEach_copy (c d : ι) (n : ℕ) :
  (forEach n fun _ => recv c >>= send d : Proc ι V Unit).Moves (tokens c n) (tokens d n)
  := by
  have hbody : ∀ i < n, (recv c >>= send d : Proc ι V Unit).Moves (tokens c 1)
      (tokens d 1) := by
    intro _ _
    apply (moves_recv c).bind
    intro v
    apply moves_send
  have h := moves_forEach_const hbody
  rw [smul_tokens, smul_tokens, Nat.mul_one] at h
  apply h

theorem moves_readVec (c : ι) (n : ℕ) :
  (readVec c n : Proc ι V (List V)).Moves (tokens c n) 0
  := by
  induction n with
  | zero =>
      rw [tokens_zero]
      apply moves_ret
  | succ n ih =>
      have hrest : ∀ v : V, (readVec c n >>= fun vs => ret (v :: vs)).Moves (tokens c n) 0 :=
        fun v => ih.bind fun vs => moves_ret (v :: vs) 0
      have h := (moves_recv c).add hrest
      rw [← tokens_add, Nat.add_comm 1] at h
      apply h

theorem moves_readRows (c : ι) (k m : ℕ) :
  (readRows c k m : Proc ι V (List (List V))).Moves (tokens c (m * k)) 0
  := by
  induction m with
  | zero =>
      rw [Nat.zero_mul, tokens_zero]
      apply moves_ret
  | succ m ih =>
      have hrest : ∀ r : List V, (readRows c k m >>= fun rs => ret (r :: rs)).Moves
          (tokens c (m * k)) 0 := fun r => ih.bind fun rs => moves_ret (r :: rs) 0
      have h := (moves_readVec c k).add hrest
      rw [← tokens_add, Nat.add_comm k, ← Nat.succ_mul] at h
      apply h

theorem moves_readPairs (c d : ι) (n : ℕ) :
  (readPairs c d n : Proc ι V (List V × List V)).Moves (tokens c n + tokens d n) 0
  := by
  induction n with
  | zero =>
      rw [tokens_zero, tokens_zero]
      apply moves_ret
  | succ n ih =>
      have hrest : ∀ v w : V, (readPairs c d n >>= fun r => ret (v :: r.1, w :: r.2)).Moves
          (tokens c n + tokens d n) 0 :=
        fun v w => ih.bind fun r => moves_ret (v :: r.1, w :: r.2) 0
      have h := (moves_recv c).add fun v : V => (moves_recv d).add (hrest v)
      rw [← add_assoc, add_add_add_comm, ← tokens_add, ← tokens_add, Nat.add_comm 1] at h
      apply h

end Proc
