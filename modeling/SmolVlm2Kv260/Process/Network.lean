import SmolVlm2Kv260.Process.Trace
import Mathlib.Algebra.Order.BigOperators.Group.Finset
import Mathlib.Data.ENat.Lattice
import Mathlib.Data.Fintype.Basic
import Mathlib.Logic.Relation

/-!
# Networks of processes over bounded channels

A network runs the processes `p : π` concurrently over FIFOs.  A process whose next access
is a read waits until the FIFO holds a value, and one whose next access is a write waits
until the FIFO holds fewer values than its depth `cap c`.  A network is in a deadlock when
some process has not finished and every process that has not finished waits.

When every process follows a trace, a reachable network is described by a `Cut`: how far
each process has come in its trace.  The numbers of values in the FIFOs are then counted
off the cut, and a deadlock is a statement about the traces alone.
-/

set_option autoImplicit false

/-- The state of a network: what each process has left to do, and the contents of the
FIFOs, oldest value first. -/
structure Network (π ι V : Type) where
  proc : π → Proc ι V Unit
  fifo : ι → List V

open Proc

namespace Network

variable {π ι V : Type}

/-- The process `p` has returned. -/
def Finished (s : Network π ι V) (p : π) : Prop :=
  s.proc p = .ret ()

/-- The access `e` need not wait. -/
def Enabled (cap : ι → ℕ∞) (s : Network π ι V) : Event ι → Prop
  | .rd c => s.fifo c ≠ []
  | .wr c => ((s.fifo c).length : ℕ∞) < cap c

/-! ### Cuts -/

section Cuts

variable [Fintype π] [DecidableEq ι]

/-- The state `s` is reached from `s₀` when each process `p` has performed the part
`done p` of its trace and has `left p` to perform. -/
structure Cut (cap : ι → ℕ∞) (s₀ : Network π ι V) (trace done left : π → List (Event ι))
    (s : Network π ι V) : Prop where
  split : ∀ p, trace p = done p ++ left p
  follows : ∀ p, (s.proc p).Follows (left p)
  balance : ∀ c, (s.fifo c).length + ∑ p, (done p).count (.rd c)
    = (s₀.fifo c).length + ∑ p, (done p).count (.wr c)
  depth : ∀ c, ((s.fifo c).length : ℕ∞) ≤ max ((s₀.fifo c).length : ℕ∞) (cap c)

variable {cap : ι → ℕ∞} {s₀ s s' : Network π ι V} {trace done left : π → List (Event ι)}

/-- The network that has performed nothing. -/
theorem Cut.init (h : ∀ p, (s₀.proc p).Follows (trace p)) :
  Cut cap s₀ trace (fun _ => []) trace s₀
  := by
  constructor
  · intro p
    rfl
  · apply h
  · intro c
    simp only [List.count_nil, Finset.sum_const_zero]
  · intro c
    apply le_max_left

theorem Cut.finished_iff {p : π} (h : Cut cap s₀ trace done left s) :
  s.Finished p ↔ left p = []
  := by
  have hf := h.follows p
  constructor
  · intro hp
    rw [hp] at hf
    apply follows_ret_iff.mp hf
  · intro hp
    rw [hp] at hf
    obtain ⟨⟨⟩, ha⟩ := hf.eq_ret
    apply ha

theorem Cut.count_le (h : Cut cap s₀ trace done left s) (p : π) (e : Event ι) :
  (done p).count e ≤ (trace p).count e
  := by
  rw [h.split p, List.count_append]
  apply Nat.le_add_right

/-- The next access of a process is not among those it has performed. -/
theorem Cut.count_lt {p : π} {e : Event ι} {L : List (Event ι)}
    (h : Cut cap s₀ trace done left s) (hp : left p = e :: L) :
  (done p).count e < (trace p).count e
  := by
  rw [h.split p, hp, List.count_append, List.count_cons_self]
  omega

theorem Cut.done_prefix (h : Cut cap s₀ trace done left s) (p : π) :
  done p <+: trace p
  := ⟨left p, (h.split p).symm⟩

/-- On a channel that only `r` reads and only `w` writes, what is in the FIFO and what `r`
has read is what was there and what `w` has written. -/
theorem Cut.balance_of {c : ι} {r w : π} (h : Cut cap s₀ trace done left s)
    (hr : ∀ p, p ≠ r → (trace p).count (.rd c) = 0)
    (hw : ∀ p, p ≠ w → (trace p).count (.wr c) = 0) :
  (s.fifo c).length + (done r).count (.rd c)
    = (s₀.fifo c).length + (done w).count (.wr c)
  := by
  rw [← Finset.sum_eq_single_of_mem (f := fun p => (done p).count (.rd c)) r
      (Finset.mem_univ r) fun p _ hp => Nat.le_zero.mp (hr p hp ▸ h.count_le p _),
    ← Finset.sum_eq_single_of_mem (f := fun p => (done p).count (.wr c)) w
      (Finset.mem_univ w) fun p _ hp => Nat.le_zero.mp (hw p hp ▸ h.count_le p _)]
  apply h.balance

/-- A process whose trace begins with `A` is still in `A`, or has performed all of it. -/
theorem Cut.within_or_past {p : π} {A B : List (Event ι)}
    (h : Cut cap s₀ trace done left s) (hp : trace p = A ++ B) :
  (∃ e C, A = done p ++ e :: C ∧ left p = e :: C ++ B)
    ∨ ∃ D, done p = A ++ D ∧ B = D ++ left p
  := by
  have hsplit := h.split p
  rw [hp] at hsplit
  rcases List.append_eq_append_iff.mp hsplit with ⟨D, hD, hB⟩ | ⟨C, hC, hleft⟩
  · exact .inr ⟨D, hD, hB⟩
  · cases C with
    | nil =>
        right
        use []
        simp only [List.append_nil] at hC ⊢
        exact ⟨hC.symm, hleft.symm⟩
    | cons e C => exact .inl ⟨e, C, hC, hleft⟩

end Cuts

/-! ### Steps -/

variable [DecidableEq π] [DecidableEq ι]

/-- The process `p` performs its next access, which its FIFO permits. -/
inductive Step (cap : ι → ℕ∞) (p : π) : Network π ι V → Network π ι V → Prop where
  | read {s : Network π ι V} {c : ι} {k : V → Proc ι V Unit} {v : V} {vs : List V} :
      s.proc p = .read c k → s.fifo c = v :: vs →
      Step cap p s ⟨Function.update s.proc p (k v), Function.update s.fifo c vs⟩
  | write {s : Network π ι V} {c : ι} {v : V} {q : Proc ι V Unit} :
      s.proc p = .write c v q → ((s.fifo c).length : ℕ∞) < cap c →
      Step cap p s ⟨Function.update s.proc p q, Function.update s.fifo c (s.fifo c ++ [v])⟩

/-- Some process performs a step. -/
def SomeStep (cap : ι → ℕ∞) (s s' : Network π ι V) : Prop :=
  ∃ p, Step cap p s s'

/-- Some schedule of the processes leads from the first state to the second. -/
def Reachable (cap : ι → ℕ∞) : Network π ι V → Network π ι V → Prop :=
  Relation.ReflTransGen (SomeStep cap)

/-- The process `p` cannot perform a step. -/
def Blocked (cap : ι → ℕ∞) (s : Network π ι V) (p : π) : Prop :=
  ∀ s', ¬ Step cap p s s'

/-- Some process is unfinished, and all unfinished processes are blocked. -/
def Deadlock (cap : ι → ℕ∞) (s : Network π ι V) : Prop :=
  (∃ p, ¬ s.Finished p) ∧ ∀ p, ¬ s.Finished p → Blocked cap s p

/-- No schedule reaches a deadlock. -/
def DeadlockFree (cap : ι → ℕ∞) (s₀ : Network π ι V) : Prop :=
  ∀ s, Reachable cap s₀ s → ¬ Deadlock cap s

/-- Every schedule is finite, and one that cannot be continued has let every process
finish. -/
def AlwaysFinishes (cap : ι → ℕ∞) (s₀ : Network π ι V) : Prop :=
  Acc (fun s' s => SomeStep cap s s') s₀
    ∧ ∀ s, Reachable cap s₀ s → (∀ p, Blocked cap s p) → ∀ p, s.Finished p

/-- A process that has returned performs no step. -/
theorem blocked_of_finished {cap : ι → ℕ∞} {s : Network π ι V} {p : π} (h : s.Finished p) :
  Blocked cap s p
  := by
  intro s' hs'
  rw [Finished] at h
  cases hs' with
  | read hproc _ => cases h.symm.trans hproc
  | write hproc _ => cases h.symm.trans hproc

/-- A network that always finishes never reaches a deadlock. -/
theorem AlwaysFinishes.deadlockFree {cap : ι → ℕ∞} {s₀ : Network π ι V}
    (h : AlwaysFinishes cap s₀) :
  DeadlockFree cap s₀
  := by
  rintro s hs ⟨⟨p, hp⟩, hblocked⟩
  apply hp
  apply h.2 s hs
  intro r
  rcases Classical.em (s.Finished r) with hr | hr
  · apply blocked_of_finished hr
  · apply hblocked r hr

/-- From every state with finite schedules a state where every process is blocked can be
reached. -/
theorem exists_blocked_of_acc {cap : ι → ℕ∞} {s : Network π ι V}
    (h : Acc (fun s' s => SomeStep cap s s') s) :
  ∃ s', Reachable cap s s' ∧ ∀ p, Blocked cap s' p
  := by
  induction h with
  | intro s _ ih =>
      by_cases hs : ∃ s', SomeStep cap s s'
      · obtain ⟨s', hs'⟩ := hs
        obtain ⟨s'', hreach, hblocked⟩ := ih s' hs'
        exact ⟨s'', .head hs' hreach, hblocked⟩
      · use s, .refl
        intro p s' hp
        apply hs ⟨s', p, hp⟩

/-! ### Steps along a cut -/

section Steps

variable [Fintype π] {cap : ι → ℕ∞} {s₀ s s' : Network π ι V}
variable {trace done left : π → List (Event ι)}

theorem sum_count_update (done : π → List (Event ι)) (p : π) (e e' : Event ι) :
  ∑ q, (Function.update done p (done p ++ [e]) q).count e'
    = (∑ q, (done q).count e') + if e = e' then 1 else 0
  := by
  have hrest : ∀ q ∈ Finset.univ.erase p,
      (Function.update done p (done p ++ [e]) q).count e' = (done q).count e' := by
    intro q hq
    rw [Function.update_of_ne (Finset.ne_of_mem_erase hq)]
  rw [← Finset.add_sum_erase _ _ (Finset.mem_univ p), Finset.sum_congr rfl hrest,
    ← Finset.add_sum_erase _ (fun q => (done q).count e') (Finset.mem_univ p),
    Function.update_self, List.count_append, List.count_singleton]
  simp only [beq_iff_eq]
  omega

/-- A step of the process `p` performs the next access of its trace, which was enabled. -/
theorem Cut.step {p : π} (h : Cut cap s₀ trace done left s) (hs : Step cap p s s') :
  ∃ e L, left p = e :: L ∧ Enabled cap s e ∧
    Cut cap s₀ trace (Function.update done p (done p ++ [e])) (Function.update left p L) s'
  := by
  have hp := h.follows p
  -- the accounting of a step: the trace moves on by `e`, the FIFO of `e` by one value
  have move : ∀ {e : Event ι} {L : List (Event ι)}, left p = e :: L → ∀ q,
      trace q = Function.update done p (done p ++ [e]) q ++ Function.update left p L q := by
    intro e L hL q
    by_cases hq : q = p
    · subst hq
      rw [Function.update_self, Function.update_self, h.split, hL, List.append_assoc]
      rfl
    · rw [Function.update_of_ne hq, Function.update_of_ne hq, h.split]
  cases hs with
  | @read c k v vs hproc hfifo =>
      rw [hproc] at hp
      obtain ⟨L, hL, hk⟩ := follows_read_iff.mp hp
      use .rd c, L, hL
      constructor
      · simp only [Enabled, hfifo, ne_eq, reduceCtorEq, not_false_eq_true]
      constructor
      · apply move hL
      · intro q
        by_cases hq : q = p
        · subst hq
          simp only [Function.update_self, hk]
        · simp only [Function.update_of_ne hq, h.follows]
      · intro d
        have hb := h.balance d
        simp only [sum_count_update, reduceCtorEq, if_false, Event.rd.injEq]
        by_cases hd : d = c
        · subst hd
          rw [hfifo, List.length_cons] at hb
          simp only [Function.update_self, if_true]
          omega
        · simp only [Function.update_of_ne hd, Ne.symm hd, if_false]
          omega
      · intro d
        by_cases hd : d = c
        · subst hd
          have hdepth := h.depth d
          rw [hfifo, List.length_cons] at hdepth
          simp only [Function.update_self]
          exact le_trans (by exact_mod_cast Nat.le_succ _) hdepth
        · simp only [Function.update_of_ne hd, h.depth]
  | @write c v q hproc hroom =>
      rw [hproc] at hp
      obtain ⟨L, hL, hq⟩ := follows_write_iff.mp hp
      use .wr c, L, hL, hroom
      constructor
      · apply move hL
      · intro r
        by_cases hr : r = p
        · subst hr
          simp only [Function.update_self, hq]
        · simp only [Function.update_of_ne hr, h.follows]
      · intro d
        have hb := h.balance d
        simp only [sum_count_update, reduceCtorEq, if_false, Event.wr.injEq]
        by_cases hd : d = c
        · subst hd
          simp only [Function.update_self, List.length_append, List.length_singleton, if_true]
          omega
        · simp only [Function.update_of_ne hd, Ne.symm hd, if_false]
          omega
      · intro d
        by_cases hd : d = c
        · subst hd
          simp only [Function.update_self, List.length_append, List.length_singleton]
          apply le_max_of_le_right
          exact_mod_cast Order.add_one_le_of_lt hroom
        · simp only [Function.update_of_ne hd, h.depth]

/-- A process whose next access is enabled can perform it. -/
theorem Cut.exists_step {p : π} {e : Event ι} {L : List (Event ι)}
    (h : Cut cap s₀ trace done left s) (hp : left p = e :: L) (he : Enabled cap s e) :
  ∃ s', Step cap p s s'
  := by
  have hf := h.follows p
  rw [hp] at hf
  cases e with
  | rd c =>
      obtain ⟨k, hk, -⟩ := hf.eq_read
      obtain ⟨v, vs, hv⟩ := List.exists_cons_of_ne_nil he
      exact ⟨_, .read hk hv⟩
  | wr c =>
      obtain ⟨v, q, hq, -⟩ := hf.eq_write
      exact ⟨_, .write hq he⟩

/-- The next access of a blocked process is not enabled. -/
theorem Cut.not_enabled {p : π} {e : Event ι} {L : List (Event ι)}
    (h : Cut cap s₀ trace done left s) (hb : Blocked cap s p) (hp : left p = e :: L) :
  ¬ Enabled cap s e
  := by
  intro he
  obtain ⟨s', hs'⟩ := h.exists_step hp he
  apply hb s' hs'

/-- A property of what has been done holds of every reachable state when it holds of the
initial one and every enabled access preserves it. -/
theorem Reachable.cut_invariant {I : (π → List (Event ι)) → Prop}
    (h₀ : ∀ p, (s₀.proc p).Follows (trace p)) (hI : I fun _ => [])
    (hstep : ∀ {s done left p e L}, Cut cap s₀ trace done left s → I done →
      left p = e :: L → Enabled cap s e → I (Function.update done p (done p ++ [e])))
    (hs : Reachable cap s₀ s) :
  ∃ done left, Cut cap s₀ trace done left s ∧ I done
  := by
  induction hs with
  | refl => exact ⟨_, _, Cut.init h₀, hI⟩
  | tail _ hstep' ih =>
      obtain ⟨done, left, hcut, hdone⟩ := ih
      obtain ⟨p, hp⟩ := hstep'
      obtain ⟨e, L, hL, he, hcut'⟩ := hcut.step hp
      exact ⟨_, _, hcut', hstep hcut hdone hL he⟩

/-- Every reachable state is described by a cut. -/
theorem Reachable.cut (h₀ : ∀ p, (s₀.proc p).Follows (trace p)) (hs : Reachable cap s₀ s) :
  ∃ done left, Cut cap s₀ trace done left s
  := by
  obtain ⟨done, left, hcut, -⟩ :=
    Reachable.cut_invariant (I := fun _ => True) h₀ trivial (fun _ _ _ _ => trivial) hs
  exact ⟨done, left, hcut⟩

omit [DecidableEq ι] in
theorem sum_length_update_lt (left : π → List (Event ι)) {p : π} {e : Event ι}
    {L : List (Event ι)} (hp : left p = e :: L) :
  ∑ q, (Function.update left p L q).length < ∑ q, (left q).length
  := by
  apply Finset.sum_lt_sum
  · intro q _
    by_cases hq : q = p
    · subst hq
      simp only [Function.update_self, hp, List.length_cons, Nat.le_succ]
    · rw [Function.update_of_ne hq]
  · use p, Finset.mem_univ p
    simp only [Function.update_self, hp, List.length_cons, Nat.lt_succ_self]

/-- Every schedule from a cut is finite, since each step consumes one access. -/
theorem Cut.acc (h : Cut cap s₀ trace done left s) :
  Acc (fun s' s => SomeStep cap s s') s
  := by
  induction hn : ∑ q, (left q).length using Nat.strong_induction_on
    generalizing s done left with
  | _ n ih =>
      constructor
      rintro s' ⟨p, hp⟩
      obtain ⟨e, L, hL, -, hcut⟩ := h.step hp
      apply ih _ _ hcut rfl
      rw [← hn]
      apply sum_length_update_lt left hL

/-- Some schedule ends with every process blocked. -/
theorem exists_blocked (cap : ι → ℕ∞) (h₀ : ∀ p, (s₀.proc p).Follows (trace p)) :
  ∃ s, Reachable cap s₀ s ∧ ∀ p, Blocked cap s p
  := by
  have hinit : Cut cap s₀ trace (fun _ => []) trace s₀ := Cut.init h₀
  apply exists_blocked_of_acc hinit.acc

end Steps

end Network
