import SmolVlm2Kv260.Process.Blocks
import Mathlib.Logic.Function.Basic

/-!
# Processes over channels

`Proc ι V α` is the type of sequential processes that read values `V` from channels `ι`,
write values to them, and return an `α`.  A process is a tree of its channel accesses, so
it can be given several meanings: `Proc.run` executes it alone on unbounded channels, and
the networks of `Process.Network` interleave several processes over bounded ones.

The loops of a program are `forLoop` and `forEach`; the loops that fill a buffer from a
channel are `readVec`, `readRows` and `readPairs`.
-/

set_option autoImplicit false

/-- A process over the channels `ι` with values in `V`, returning an `α`. -/
inductive Proc (ι V α : Type) where
  | ret : α → Proc ι V α
  | read : ι → (V → Proc ι V α) → Proc ι V α
  | write : ι → V → Proc ι V α → Proc ι V α

namespace Proc

variable {ι V α β : Type}

/-- Run `p`, then the process `f` gives for what `p` returns. -/
def bind : Proc ι V α → (α → Proc ι V β) → Proc ι V β
  | ret a, f => f a
  | read c k, f => read c fun v => (k v).bind f
  | write c v p, f => write c v (p.bind f)

instance : Monad (Proc ι V) where
  pure := ret
  bind := bind

/-- Read one value from the channel `c`. -/
def recv (c : ι) : Proc ι V V := read c ret

/-- Write the value `v` to the channel `c`. -/
def send (c : ι) (v : V) : Proc ι V Unit := write c v (ret ())

/-- The loop `for (i = 0; i < n; ++i)` over a state, started at `s`. -/
def forLoop {σ : Type} (n : ℕ) (s : σ) (body : ℕ → σ → Proc ι V σ) : Proc ι V σ :=
  match n with
  | 0 => ret s
  | n + 1 => forLoop n s body >>= body n

/-- The loop `for (i = 0; i < n; ++i)` without a state. -/
def forEach (n : ℕ) (body : ℕ → Proc ι V Unit) : Proc ι V Unit :=
  forLoop n () fun i _ => body i

theorem forEach_succ (n : ℕ) (body : ℕ → Proc ι V Unit) :
  forEach (n + 1) body = forEach n body >>= fun _ => body n
  := rfl

/-- Read a buffer of `n` values from `c`. -/
def readVec (c : ι) : ℕ → Proc ι V (List V)
  | 0 => ret []
  | n + 1 => recv c >>= fun v => readVec c n >>= fun vs => ret (v :: vs)

/-- Read a buffer of `m` rows of `k` values each from `c`, row by row. -/
def readRows (c : ι) (k : ℕ) : ℕ → Proc ι V (List (List V))
  | 0 => ret []
  | m + 1 => readVec c k >>= fun r => readRows c k m >>= fun rs => ret (r :: rs)

/-- Fill two buffers of `n` values, reading from `c` and `d` in turn. -/
def readPairs (c d : ι) : ℕ → Proc ι V (List V × List V)
  | 0 => ret ([], [])
  | n + 1 => recv c >>= fun v => recv d >>= fun w =>
      readPairs c d n >>= fun r => ret (v :: r.1, w :: r.2)

/-! ### Sequential execution -/

/-- The contents of the channels, oldest value first. -/
abbrev Store (ι V : Type) : Type := ι → List V

variable [DecidableEq ι]

/-- Execute a process alone on unbounded channels; `none` when it reads an empty one. -/
def run : Proc ι V α → Store ι V → Option (α × Store ι V)
  | ret a, σ => some (a, σ)
  | read c k, σ =>
      match σ c with
      | [] => none
      | v :: vs => (k v).run (Function.update σ c vs)
  | write c v p, σ => p.run (Function.update σ c (σ c ++ [v]))

@[simp]
theorem run_ret (a : α) (σ : Store ι V) :
  (ret a : Proc ι V α).run σ = some (a, σ)
  := rfl

/-- A sequence runs its first part and then the second on the store that leaves. -/
theorem run_bind (p : Proc ι V α) (f : α → Proc ι V β) (σ : Store ι V) :
  (p >>= f).run σ = (p.run σ).bind fun r => (f r.1).run r.2
  := by
  induction p generalizing σ with
  | ret a => rfl
  | read c k ih =>
      change (read c fun v => (k v) >>= f).run σ = _
      simp only [run]
      cases σ c with
      | nil => rfl
      | cons v vs => apply ih
  | write c v p ih =>
      apply ih

theorem run_bind_of_run {p : Proc ι V α} {f : α → Proc ι V β} {σ τ : Store ι V} {a : α}
    (h : p.run σ = some (a, τ)) :
  (p >>= f).run σ = (f a).run τ
  := by
  rw [run_bind, h]
  rfl

theorem run_recv {c : ι} {σ : Store ι V} {v : V} {vs : List V} (h : σ c = v :: vs) :
  (recv c).run σ = some (v, Function.update σ c vs)
  := by
  simp only [recv, run, h]

theorem run_send (c : ι) (v : V) (σ : Store ι V) :
  (send c v).run σ = some ((), Function.update σ c (σ c ++ [v]))
  := rfl

/-- A loop whose `i`-th iteration takes the state `S i` and the store `T i` to the next
ones takes the first of them to the last. -/
theorem run_forLoop {σ : Type} {n : ℕ} {body : ℕ → σ → Proc ι V σ}
    (S : ℕ → σ) (T : ℕ → Store ι V)
    (h : ∀ i < n, (body i (S i)).run (T i) = some (S (i + 1), T (i + 1))) :
  (forLoop n (S 0) body).run (T 0) = some (S n, T n)
  := by
  induction n with
  | zero => rfl
  | succ n ih =>
      have hn := ih fun i hi => h i (Nat.lt_succ_of_lt hi)
      rw [forLoop, run_bind_of_run hn]
      apply h n n.lt_succ_self

/-- A loop whose `i`-th iteration takes the store `T i` to the next one. -/
theorem run_forEach {n : ℕ} {body : ℕ → Proc ι V Unit} (T : ℕ → Store ι V)
    (h : ∀ i < n, (body i).run (T i) = some ((), T (i + 1))) :
  (forEach n body).run (T 0) = some ((), T n)
  := run_forLoop (fun _ => ()) T h

theorem run_readVec {c : ι} {σ : Store ι V} {n : ℕ} {vs rest : List V}
    (hn : vs.length = n) (h : σ c = vs ++ rest) :
  (readVec c n).run σ = some (vs, Function.update σ c rest)
  := by
  induction vs generalizing n σ with
  | nil =>
      subst hn
      rw [List.nil_append] at h
      rw [← h, Function.update_eq_self]
      rfl
  | cons v vs ih =>
      subst hn
      rw [List.cons_append] at h
      rw [List.length_cons, readVec, run_bind_of_run (run_recv h),
        run_bind_of_run (ih rfl (Function.update_self c _ σ)), Function.update_idem]
      rfl

theorem run_readRows {c : ι} {k : ℕ} {σ : Store ι V} {m : ℕ} {rows : List (List V)}
    {rest : List V} (hm : rows.length = m) (hk : ∀ r ∈ rows, r.length = k)
    (h : σ c = rows.flatten ++ rest) :
  (readRows c k m).run σ = some (rows, Function.update σ c rest)
  := by
  induction rows generalizing m σ with
  | nil =>
      subst hm
      rw [List.flatten_nil, List.nil_append] at h
      rw [← h, Function.update_eq_self]
      rfl
  | cons r rows ih =>
      subst hm
      rw [List.flatten_cons, List.append_assoc] at h
      have hr := run_readVec (hk r List.mem_cons_self) h
      have hrows := ih rfl (fun r' hr' => hk r' (List.mem_cons_of_mem r hr'))
        (Function.update_self c _ σ)
      rw [List.length_cons, readRows, run_bind_of_run hr, run_bind_of_run hrows,
        Function.update_idem]
      rfl

theorem run_readPairs {c d : ι} (hcd : c ≠ d) {σ : Store ι V} {n : ℕ}
    {vs ws restc restd : List V} (hv : vs.length = n) (hw : ws.length = n)
    (hc : σ c = vs ++ restc) (hd : σ d = ws ++ restd) :
  (readPairs c d n).run σ
    = some ((vs, ws), Function.update (Function.update σ c restc) d restd)
  := by
  induction n generalizing vs ws σ with
  | zero =>
      obtain rfl := List.eq_nil_of_length_eq_zero hv
      obtain rfl := List.eq_nil_of_length_eq_zero hw
      rw [List.nil_append] at hc hd
      rw [← hc, Function.update_eq_self, ← hd, Function.update_eq_self]
      rfl
  | succ n ih =>
      obtain ⟨v, vs, rfl⟩ := List.exists_cons_of_length_eq_add_one hv
      obtain ⟨w, ws, rfl⟩ := List.exists_cons_of_length_eq_add_one hw
      rw [List.cons_append] at hc hd
      have hd' : Function.update σ c (vs ++ restc) d = w :: (ws ++ restd) := by
        rw [Function.update_of_ne hcd.symm, hd]
      have hc' : Function.update (Function.update σ c (vs ++ restc)) d (ws ++ restd) c
          = vs ++ restc := by
        rw [Function.update_of_ne hcd, Function.update_self]
      have hrest := ih (Nat.succ.inj hv) (Nat.succ.inj hw) hc' (Function.update_self d _ _)
      rw [readPairs, run_bind_of_run (run_recv hc), run_bind_of_run (run_recv hd'),
        run_bind_of_run hrest, Function.update_comm hcd, Function.update_idem,
        Function.update_comm hcd.symm, Function.update_idem]
      rfl

/-! ### Processes that only write -/

/-- `p` returns after appending the values `vs` to the channel `c`, and does nothing else. -/
def Emits (p : Proc ι V Unit) (c : ι) (vs : List V) : Prop :=
  ∀ σ : Store ι V, p.run σ = some ((), Function.update σ c (σ c ++ vs))

theorem emits_send (c : ι) (v : V) :
  Emits (send c v) c [v]
  := run_send c v

/-- A loop of processes that only write to `c` writes what they write, in order. -/
theorem emits_forEach {n : ℕ} {body : ℕ → Proc ι V Unit} {c : ι} {vs : ℕ → List V}
    (h : ∀ i < n, Emits (body i) c (vs i)) :
  Emits (forEach n body) c ((List.range n).flatMap vs)
  := by
  intro σ
  have hstep : ∀ i < n, (body i).run (Function.update σ c (σ c ++ (List.range i).flatMap vs))
      = some ((), Function.update σ c (σ c ++ (List.range (i + 1)).flatMap vs)) := by
    intro i hi
    rw [h i hi, Function.update_idem, Function.update_self, List.range_succ,
      List.flatMap_append, List.append_assoc, List.flatMap_singleton]
  have hloop := run_forEach (fun i => Function.update σ c (σ c ++ (List.range i).flatMap vs)) hstep
  simpa only [List.range_zero, List.flatMap_nil, List.append_nil,
    Function.update_eq_self] using hloop

theorem emits_forEach_send {n : ℕ} {c : ι} (f : ℕ → V) :
  Emits (forEach n fun i => send c (f i)) c ((List.range n).map f)
  := by
  rw [List.map_eq_flatMap]
  apply emits_forEach
  intro i _
  apply emits_send

/-- Sending the entries of a buffer sends the buffer. -/
theorem emits_forEach_getD {n : ℕ} {c : ι} {vs : List V} (h : vs.length = n) (a : V) :
  Emits (forEach n fun i => send c (vs.getD i a)) c vs
  := by
  have hsend := emits_forEach_send (n := n) (c := c) fun i => vs.getD i a
  rw [Blocks.map_range_getD h a] at hsend
  apply hsend

/-! ### Processes that turn one channel into another -/

/-- `p` returns after taking the values `xs` from the channel `c` and appending the values
`ys` to the channel `d`, and does nothing else. -/
def Transfers (p : Proc ι V Unit) (c d : ι) (xs ys : List V) : Prop :=
  ∀ (σ : Store ι V) (rest : List V), σ c = xs ++ rest →
    p.run σ = some ((), Function.update (Function.update σ c rest) d (σ d ++ ys))

/-- A buffer is read and what is computed from it is written. -/
theorem transfers_readVec {c d : ι} (hcd : c ≠ d) {n : ℕ} {f : List V → Proc ι V Unit}
    {xs ys : List V} (hn : xs.length = n) (hf : Emits (f xs) d ys) :
  Transfers (readVec c n >>= f) c d xs ys
  := by
  intro σ rest h
  rw [run_bind_of_run (run_readVec hn h), hf, Function.update_of_ne hcd.symm]

theorem transfers_readRows {c d : ι} (hcd : c ≠ d) {k m : ℕ}
    {f : List (List V) → Proc ι V Unit} {rows : List (List V)} {ys : List V}
    (hm : rows.length = m) (hk : ∀ r ∈ rows, r.length = k) (hf : Emits (f rows) d ys) :
  Transfers (readRows c k m >>= f) c d rows.flatten ys
  := by
  intro σ rest h
  rw [run_bind_of_run (run_readRows hm hk h), hf, Function.update_of_ne hcd.symm]

/-- A loop of such processes turns one channel into the other piece by piece. -/
theorem transfers_forEach {c d : ι} (hcd : c ≠ d) {n : ℕ} {body : ℕ → Proc ι V Unit}
    {xs ys : ℕ → List V} (h : ∀ i < n, Transfers (body i) c d (xs i) (ys i)) :
  Transfers (forEach n body) c d ((List.range n).flatMap xs) ((List.range n).flatMap ys)
  := by
  induction n with
  | zero =>
      intro σ rest hσ
      rw [List.range_zero, List.flatMap_nil, List.nil_append] at hσ
      rw [← hσ, Function.update_eq_self, List.range_zero, List.flatMap_nil, List.append_nil,
        Function.update_eq_self]
      rfl
  | succ n ih =>
      intro σ rest hσ
      rw [List.range_succ, List.flatMap_append, List.flatMap_singleton, List.append_assoc] at hσ
      have hfirst := ih (fun i hi => h i (Nat.lt_succ_of_lt hi)) σ _ hσ
      have hc : Function.update (Function.update σ c (xs n ++ rest)) d
          (σ d ++ (List.range n).flatMap ys) c = xs n ++ rest := by
        rw [Function.update_of_ne hcd, Function.update_self]
      have hlast := h n n.lt_succ_self _ _ hc
      rw [forEach_succ, run_bind_of_run hfirst, hlast, Function.update_self,
        Function.update_comm hcd.symm, Function.update_idem, Function.update_idem,
        List.range_succ, List.flatMap_append, List.flatMap_singleton, List.append_assoc]

/-- A loop that passes `n` values on. -/
theorem transfers_copy {c d : ι} (hcd : c ≠ d) (n : ℕ) (f : ℕ → V) :
  Transfers (forEach n fun _ => recv c >>= send d) c d
    ((List.range n).map f) ((List.range n).map f)
  := by
  rw [List.map_eq_flatMap]
  apply transfers_forEach hcd
  intro i _ σ rest h
  rw [run_bind_of_run (run_recv h), run_send, Function.update_of_ne hcd.symm]
  rfl

end Proc
