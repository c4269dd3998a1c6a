import SmolVlm2Kv260.Process.Basic
import Mathlib.Logic.Function.Basic

/-!
# Pipelines of processes

A process can be run on other channels than its own: `Proc.rename e` accesses the channel
`e c` where the process accesses `c`, and a run of it is a run of the process on the part of
the store that its channels see.

A stage of a pipeline finds all channels empty but one, takes everything from this channel
and leaves its results on another one, all others empty: `Proc.Pipes`.  Stages compose when
one takes the channel that the one before has left.
-/

set_option autoImplicit false

namespace Proc

variable {ι κ V α β : Type}

theorem then_assoc {γ : Type} (p : Proc ι V α) (f : α → Proc ι V β) (g : β → Proc ι V γ) :
  p >>= f >>= g = p >>= fun a => f a >>= g
  := by
  induction p with
  | ret a => rfl
  | read c k ih => exact congrArg (read c) (funext ih)
  | write c v p ih => exact congrArg (write c v) ih

/-! ### Renaming channels -/

/-- The process with its channels renamed. -/
def rename (e : ι → κ) : Proc ι V α → Proc κ V α
  | ret a => ret a
  | read c k => read (e c) fun v => (k v).rename e
  | write c v p => write (e c) v (p.rename e)

section Rename

variable (e : ι → κ)

@[simp]
theorem rename_ret (a : α) :
  (ret a : Proc ι V α).rename e = ret a
  := rfl

@[simp]
theorem rename_pure (a : α) :
  (pure a : Proc ι V α).rename e = pure a
  := rfl

@[simp]
theorem rename_bind (p : Proc ι V α) (f : α → Proc ι V β) :
  (p >>= f).rename e = p.rename e >>= fun a => (f a).rename e
  := by
  induction p with
  | ret a => rfl
  | read c k ih => exact congrArg (read (e c)) (funext ih)
  | write c v p ih => exact congrArg (write (e c) v) ih

@[simp]
theorem rename_recv (c : ι) :
  (recv c : Proc ι V V).rename e = recv (e c)
  := rfl

@[simp]
theorem rename_send (c : ι) (v : V) :
  (send c v).rename e = send (e c) v
  := rfl

@[simp]
theorem rename_forLoop {σ : Type} (n : ℕ) (s : σ) (body : ℕ → σ → Proc ι V σ) :
  (forLoop n s body).rename e = forLoop n s fun i s => (body i s).rename e
  := by
  induction n with
  | zero => rfl
  | succ n ih => rw [forLoop, rename_bind, ih, forLoop]

@[simp]
theorem rename_forEach (n : ℕ) (body : ℕ → Proc ι V Unit) :
  (forEach n body).rename e = forEach n fun i => (body i).rename e
  := rename_forLoop e n () fun i _ => body i

@[simp]
theorem rename_readVec (c : ι) (n : ℕ) :
  (readVec c n : Proc ι V (List V)).rename e = readVec (e c) n
  := by
  induction n with
  | zero => rfl
  | succ n ih => simp only [readVec, rename_bind, rename_recv, rename_ret, ih]

@[simp]
theorem rename_readRows (c : ι) (k m : ℕ) :
  (readRows c k m : Proc ι V (List (List V))).rename e = readRows (e c) k m
  := by
  induction m with
  | zero => rfl
  | succ m ih => simp only [readRows, rename_bind, rename_readVec, rename_ret, ih]

@[simp]
theorem rename_readPairs (c d : ι) (n : ℕ) :
  (readPairs c d n : Proc ι V (List V × List V)).rename e = readPairs (e c) (e d) n
  := by
  induction n with
  | zero => rfl
  | succ n ih => simp only [readPairs, rename_bind, rename_recv, rename_ret, ih]

end Rename

/-! ### Runs of a renamed process -/

section Run

variable [DecidableEq κ] {e : ι → κ}

/-- What a channel of the process holds is written over what its image held. -/
theorem extend_update (he : Function.Injective e) (τ : Store ι V) (σ : Store κ V) (c : ι)
    (vs : List V) :
  Function.extend e τ (Function.update σ (e c) vs) = Function.extend e τ σ
  := by
  funext d
  by_cases hd : ∃ i, e i = d
  · obtain ⟨i, rfl⟩ := hd
    rw [he.extend_apply, he.extend_apply]
  · rw [Function.extend_apply' _ _ _ hd, Function.extend_apply' _ _ _ hd,
      Function.update_of_ne (fun h => hd ⟨c, h.symm⟩)]

variable [DecidableEq ι]

/-- A renamed process does to the images of its channels what the process does to its
channels, and leaves all others alone. -/
theorem run_rename (he : Function.Injective e) (p : Proc ι V α) (σ : Store κ V) :
  (p.rename e).run σ = (p.run (σ ∘ e)).map fun r => (r.1, Function.extend e r.2 σ)
  := by
  induction p generalizing σ with
  | ret a =>
      have hself : Function.extend e (σ ∘ e) σ = σ := by
        funext d
        by_cases hd : ∃ i, e i = d
        · obtain ⟨i, rfl⟩ := hd
          apply he.extend_apply
        · apply Function.extend_apply' _ _ _ hd
      rw [rename_ret, run_ret, run_ret, Option.map_some, hself]
  | read c k ih =>
      simp only [rename, run, Function.comp_apply]
      cases σ (e c) with
      | nil => rfl
      | cons v vs =>
          simp only [ih, Function.update_comp_eq_of_injective _ he, extend_update he]
  | write c v p ih =>
      simp only [rename, run, Function.comp_apply, ih,
        Function.update_comp_eq_of_injective _ he, extend_update he]

end Run

/-! ### Stages -/

variable [DecidableEq ι] [DecidableEq κ]

/-- Only the channel `c` holds values. -/
def only (c : ι) (vs : List V) : Store ι V := Function.update (fun _ => []) c vs

@[simp]
theorem only_self (c : ι) (vs : List V) :
  only c vs c = vs
  := Function.update_self _ _ _

@[simp]
theorem only_nil (c : ι) :
  only c ([] : List V) = fun _ => []
  := Function.update_eq_self _ _

@[simp]
theorem update_only (c : ι) (vs ws : List V) :
  Function.update (only c vs) c ws = only c ws
  := Function.update_idem _ _ _

theorem only_of_ne {c d : ι} (h : d ≠ c) (vs : List V) :
  only c vs d = []
  := Function.update_of_ne h _ _

/-- With only the values `xs` on `c`, the process `p` takes them, leaves only the values
`ys` on `d`, and returns `a`. -/
def Pipes (p : Proc ι V α) (c : ι) (xs : List V) (d : ι) (ys : List V) (a : α) : Prop :=
  p.run (only c xs) = some (a, only d ys)

/-- A stage takes what the stage before has left. -/
theorem Pipes.bind {p : Proc ι V α} {f : α → Proc ι V β} {c d d' : ι} {xs ys zs : List V}
    {a : α} {b : β} (hp : p.Pipes c xs d ys a) (hf : (f a).Pipes d ys d' zs b) :
  (p >>= f).Pipes c xs d' zs b
  := (run_bind_of_run hp).trans hf

theorem pipes_ret (c : ι) (xs : List V) (a : α) :
  (ret a : Proc ι V α).Pipes c xs c xs a
  := rfl

/-- Where nothing is left, it does not matter on which channel. -/
theorem Pipes.to_nil {p : Proc ι V α} {c d : ι} {xs : List V} {a : α}
    (h : p.Pipes c xs d [] a) (d' : ι) :
  p.Pipes c xs d' [] a
  := by
  rw [Pipes, only_nil] at h ⊢
  exact h

/-- A stage is one on other channels as well. -/
theorem Pipes.rename {p : Proc ι V α} {c d : ι} {xs ys : List V} {a : α} {e : ι → κ}
    (h : p.Pipes c xs d ys a) (he : Function.Injective e) :
  (p.rename e).Pipes (e c) xs (e d) ys a
  := by
  have honly : ∀ (i : ι) (vs : List V), only (e i) vs ∘ e = only i vs :=
    fun i vs => Function.update_comp_eq_of_injective _ he _ _
  have hextend : Function.extend e (only d ys) (only (e c) xs) = only (e d) ys := by
    funext k
    by_cases hk : ∃ i, e i = k
    · obtain ⟨i, rfl⟩ := hk
      rw [he.extend_apply, ← honly, Function.comp_apply]
    · rw [Function.extend_apply' _ _ _ hk, only_of_ne fun h => hk ⟨c, h.symm⟩,
        only_of_ne fun h => hk ⟨d, h.symm⟩]
  rw [Pipes, run_rename he, honly, h, Option.map_some, hextend]

/-- A process that turns one channel into another is a stage. -/
theorem Transfers.pipes {p : Proc ι V Unit} {c d : ι} {xs ys : List V}
    (h : Transfers p c d xs ys) (hcd : c ≠ d) :
  p.Pipes c xs d ys ()
  := by
  have hrun := h (only c xs) [] (by rw [only_self, List.append_nil])
  rw [only_of_ne hcd.symm, List.nil_append, update_only, only_nil] at hrun
  exact hrun

/-- A process that only writes is a first stage. -/
theorem Emits.pipes {p : Proc ι V Unit} {d : ι} {ys : List V} (h : Emits p d ys) (c : ι) :
  p.Pipes c [] d ys ()
  := by
  have hrun := h fun _ => []
  rw [List.nil_append] at hrun
  rw [Pipes, only_nil, hrun]
  rfl

/-! ### Processes that only read -/

/-- `p` returns `a` after taking the values `xs` from the channel `c`, and does nothing
else. -/
def Consumes (p : Proc ι V α) (c : ι) (xs : List V) (a : α) : Prop :=
  ∀ (σ : Store ι V) (rest : List V), σ c = xs ++ rest →
    p.run σ = some (a, Function.update σ c rest)

theorem consumes_recv (c : ι) (v : V) :
  (recv c).Consumes c [v] v
  := fun _ _ h => run_recv h

theorem consumes_readVec {c : ι} {n : ℕ} {xs : List V} (h : xs.length = n) :
  (readVec c n).Consumes c xs xs
  := fun _ _ hσ => run_readVec h hσ

/-- What is computed from the values taken. -/
theorem Consumes.map {p : Proc ι V α} {c : ι} {xs : List V} {a : α} (h : p.Consumes c xs a)
    (f : α → β) :
  (p >>= fun a => ret (f a)).Consumes c xs (f a)
  := fun σ rest hσ => run_bind_of_run (h σ rest hσ)

/-- A loop whose `i`-th iteration takes the values `xs i` and the state `S i` to the next
one. -/
theorem consumes_forLoop {τ : Type} {n : ℕ} {body : ℕ → τ → Proc ι V τ} {c : ι} (S : ℕ → τ)
    {xs : ℕ → List V} (h : ∀ i < n, (body i (S i)).Consumes c (xs i) (S (i + 1))) :
  (forLoop n (S 0) body).Consumes c ((List.range n).flatMap xs) (S n)
  := by
  induction n with
  | zero =>
      intro σ rest hσ
      rw [List.range_zero, List.flatMap_nil, List.nil_append] at hσ
      rw [← hσ, Function.update_eq_self]
      rfl
  | succ n ih =>
      intro σ rest hσ
      rw [List.range_succ, List.flatMap_append, List.flatMap_singleton, List.append_assoc] at hσ
      have hfirst := ih (fun i hi => h i (Nat.lt_succ_of_lt hi)) σ _ hσ
      have hlast := h n n.lt_succ_self _ rest (Function.update_self c _ σ)
      rw [forLoop, run_bind_of_run hfirst, hlast, Function.update_idem]

/-- A loop that uses each value it takes to change its state. -/
theorem consumes_forLoop_fold {τ ω : Type} {n : ℕ} {s : τ} {g : ℕ → ω → τ → τ} {c : ι}
    {p : ℕ → Proc ι V ω} {xs : ℕ → List V} {a : ℕ → ω}
    (h : ∀ i < n, (p i).Consumes c (xs i) (a i)) :
  (forLoop n s fun i s => p i >>= fun w => ret (g i w s)).Consumes c ((List.range n).flatMap xs)
    ((List.range n).foldl (fun s i => g i (a i) s) s)
  := by
  apply consumes_forLoop fun i => (List.range i).foldl (fun s i => g i (a i) s) s
  intro i hi
  rw [List.range_succ, List.foldl_append, List.foldl_cons, List.foldl_nil]
  apply (h i hi).map fun w => g i w _

/-- A process that only reads is a last stage. -/
theorem Consumes.pipes {p : Proc ι V α} {c : ι} {xs : List V} {a : α} (h : p.Consumes c xs a)
    (d : ι) :
  p.Pipes c xs d [] a
  := by
  have hrun := h (only c xs) [] (by rw [only_self, List.append_nil])
  rw [update_only] at hrun
  exact Pipes.to_nil hrun d

end Proc
