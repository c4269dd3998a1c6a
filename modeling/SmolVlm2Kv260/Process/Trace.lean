import SmolVlm2Kv260.Process.Basic
import Mathlib.Algebra.GroupWithZero.Nat

/-!
# Traces of processes

The trace of a process is the list of its channel accesses, without the values.  A process
whose accesses do not depend on the values it reads follows one trace, `Proc.Follows p L`;
the traces of the loops and buffers of `Process.Basic` are computed from those of their
bodies.
-/

set_option autoImplicit false

/-- One access of a channel: a read or a write. -/
inductive Event (ι : Type) where
  | rd : ι → Event ι
  | wr : ι → Event ι
  deriving DecidableEq

namespace Proc

variable {ι V α β : Type}

/-- The process accesses exactly the channels `L`, in this order, whatever it reads. -/
def Follows : Proc ι V α → List (Event ι) → Prop
  | ret _, L => L = []
  | read c k, L => ∃ L', L = .rd c :: L' ∧ ∀ v, Follows (k v) L'
  | write c _ p, L => ∃ L', L = .wr c :: L' ∧ Follows p L'

theorem follows_ret_iff {a : α} {L : List (Event ι)} :
  (ret a : Proc ι V α).Follows L ↔ L = []
  := Iff.rfl

theorem follows_read_iff {c : ι} {k : V → Proc ι V α} {L : List (Event ι)} :
  (read c k).Follows L ↔ ∃ L', L = .rd c :: L' ∧ ∀ v, (k v).Follows L'
  := Iff.rfl

theorem follows_write_iff {c : ι} {v : V} {p : Proc ι V α} {L : List (Event ι)} :
  (write c v p).Follows L ↔ ∃ L', L = .wr c :: L' ∧ p.Follows L'
  := Iff.rfl

theorem follows_ret (a : α) :
  Follows (ret a : Proc ι V α) []
  := rfl

theorem follows_recv (c : ι) :
  Follows (recv c : Proc ι V V) [.rd c]
  := ⟨[], rfl, fun _ => rfl⟩

theorem follows_send (c : ι) (v : V) :
  Follows (send c v) [.wr c]
  := ⟨[], rfl, rfl⟩

/-- A sequence follows the trace of its first part and then that of the second. -/
theorem Follows.bind {p : Proc ι V α} {f : α → Proc ι V β} {L L' : List (Event ι)}
    (hp : p.Follows L) (hf : ∀ a, (f a).Follows L') :
  (p >>= f).Follows (L ++ L')
  := by
  induction p generalizing L with
  | ret a =>
      cases hp
      apply hf
  | read c k ih =>
      obtain ⟨L₁, rfl, hk⟩ := hp
      use L₁ ++ L', rfl
      intro v
      apply ih v (hk v)
  | write c v p ih =>
      obtain ⟨L₁, rfl, hp⟩ := hp
      use L₁ ++ L', rfl
      apply ih hp

theorem follows_forLoop {σ : Type} {n : ℕ} {body : ℕ → σ → Proc ι V σ}
    {t : ℕ → List (Event ι)} (h : ∀ i < n, ∀ s, (body i s).Follows (t i)) (s : σ) :
  (forLoop n s body).Follows ((List.range n).flatMap t)
  := by
  induction n with
  | zero => rfl
  | succ n ih =>
      rw [List.range_succ, List.flatMap_append, List.flatMap_singleton]
      apply Follows.bind
      · apply ih fun i hi => h i (Nat.lt_succ_of_lt hi)
      · apply h n n.lt_succ_self

theorem follows_forEach {n : ℕ} {body : ℕ → Proc ι V Unit} {t : ℕ → List (Event ι)}
    (h : ∀ i < n, (body i).Follows (t i)) :
  (forEach n body).Follows ((List.range n).flatMap t)
  := follows_forLoop (fun i hi _ => h i hi) ()

theorem follows_forEach_send (c : ι) (n : ℕ) (f : ℕ → V) :
  (forEach n fun i => send c (f i)).Follows (List.replicate n (.wr c))
  := by
  have hout : (List.range n).flatMap (fun _ => [Event.wr c]) = List.replicate n (.wr c) := by
    simp only [← List.map_eq_flatMap, List.map_const', List.length_range]
  rw [← hout]
  apply follows_forEach
  intro i _
  apply follows_send

/-- The accesses of a loop that passes on `n` values. -/
theorem follows_forEach_copy (c d : ι) (n : ℕ) :
  (forEach n fun _ => recv c >>= send d : Proc ι V Unit).Follows
    ((List.range n).flatMap fun _ => [.rd c, .wr d])
  := by
  apply follows_forEach
  intro _ _
  apply (follows_recv c).bind
  apply follows_send

theorem follows_readVec (c : ι) (n : ℕ) :
  (readVec c n : Proc ι V (List V)).Follows (List.replicate n (.rd c))
  := by
  induction n with
  | zero => rfl
  | succ n ih =>
      have h := (follows_recv c).bind fun v : V => ih.bind fun vs => follows_ret (v :: vs)
      rw [List.append_nil] at h
      apply h

theorem follows_readRows (c : ι) (k m : ℕ) :
  (readRows c k m : Proc ι V (List (List V))).Follows (List.replicate (m * k) (.rd c))
  := by
  induction m with
  | zero =>
      rw [Nat.zero_mul]
      rfl
  | succ m ih =>
      have h := (follows_readVec c k).bind fun r : List V =>
        ih.bind fun rs => follows_ret (r :: rs)
      rw [List.append_nil, List.replicate_append_replicate] at h
      rw [Nat.succ_mul, Nat.add_comm (m * k)]
      apply h

theorem follows_readPairs (c d : ι) (n : ℕ) :
  (readPairs c d n : Proc ι V (List V × List V)).Follows
    ((List.range n).flatMap fun _ => [.rd c, .rd d])
  := by
  induction n with
  | zero => rfl
  | succ n ih =>
      have h := (follows_recv c).bind fun v : V => (follows_recv d).bind fun w : V =>
        ih.bind fun r => follows_ret (v :: r.1, w :: r.2)
      rw [List.append_nil] at h
      rw [List.range_succ_eq_map, List.flatMap_cons, List.flatMap_map]
      apply h

/-- A process with no access left has returned. -/
theorem Follows.eq_ret {p : Proc ι V α} (h : p.Follows []) :
  ∃ a, p = ret a
  := by
  cases p with
  | ret a => exact ⟨a, rfl⟩
  | read c k =>
      obtain ⟨_, h, -⟩ := h
      cases h
  | write c v p =>
      obtain ⟨_, h, -⟩ := h
      cases h

theorem Follows.eq_read {p : Proc ι V α} {c : ι} {L : List (Event ι)}
    (h : p.Follows (.rd c :: L)) :
  ∃ k, p = read c k ∧ ∀ v, (k v).Follows L
  := by
  cases p with
  | ret a => cases h
  | read c k =>
      obtain ⟨_, h, hk⟩ := h
      cases h
      exact ⟨k, rfl, hk⟩
  | write c v p =>
      obtain ⟨_, h, -⟩ := h
      cases h

theorem Follows.eq_write {p : Proc ι V α} {c : ι} {L : List (Event ι)}
    (h : p.Follows (.wr c :: L)) :
  ∃ v q, p = write c v q ∧ q.Follows L
  := by
  cases p with
  | ret a => cases h
  | read c k =>
      obtain ⟨_, h, -⟩ := h
      cases h
  | write c v q =>
      obtain ⟨_, h, hq⟩ := h
      cases h
      exact ⟨v, q, rfl, hq⟩

/-- A loop of processes that each repeat one access repeats it. -/
theorem follows_forEach_replicate {n : ℕ} {body : ℕ → Proc ι V Unit} {e : Event ι} {k : ℕ → ℕ}
    (h : ∀ i < n, (body i).Follows (List.replicate (k i) e)) :
  (forEach n body).Follows (List.replicate ((List.range n).map k).sum e)
  := by
  have hrep : (List.range n).flatMap (fun i => List.replicate (k i) e)
      = List.replicate ((List.range n).map k).sum e := by
    apply List.eq_replicate_iff.mpr
    constructor
    · simp only [List.length_flatMap, List.length_replicate]
    · intro b hb
      obtain ⟨i, -, hi⟩ := List.mem_flatMap.mp hb
      apply List.eq_of_mem_replicate hi
  rw [← hrep]
  apply follows_forEach h

-- from here on only the lemmas above are used: a loop of a thousand accesses is not unfolded
attribute [irreducible] Follows

end Proc

/-! ### Bounds on what a prefix contains -/

namespace Event

variable {ι : Type} [DecidableEq ι] {e e' : Event ι} {k d : ℕ}

/-- Wherever the trace `L` is cut, the accesses `e` performed so far are at most `k` times
the accesses `e'`, plus `d`. -/
def PrefixBound (e e' : Event ι) (k d : ℕ) (L : List (Event ι)) : Prop :=
  ∀ P, P <+: L → P.count e ≤ k * P.count e' + d

theorem prefixBound_of_count_le {L : List (Event ι)} (h : L.count e ≤ d) :
  PrefixBound e e' k d L
  := by
  intro P hP
  have hcount := hP.sublist.count_le e
  omega

/-- A part that pays for its own accesses, and for `c` more, may stand before one that
needs these. -/
theorem PrefixBound.append {A B : List (Event ι)} {c : ℕ} (hA : PrefixBound e e' k d A)
    (hpaid : A.count e + c ≤ k * A.count e') (hB : PrefixBound e e' k (d + c) B) :
  PrefixBound e e' k d (A ++ B)
  := by
  rintro P ⟨T, hT⟩
  rcases List.append_eq_append_iff.mp hT with ⟨D, rfl, hD⟩ | ⟨D, rfl, hD⟩
  · apply hA _ ⟨D, rfl⟩
  · have h := hB D ⟨T, hD.symm⟩
    rw [List.count_append, List.count_append, Nat.mul_add]
    omega

/-- Any number of parts that pay for themselves may stand one after the other. -/
theorem PrefixBound.flatMap_range {n : ℕ} {t : ℕ → List (Event ι)}
    (ht : ∀ i < n, PrefixBound e e' k d (t i))
    (hpaid : ∀ i < n, (t i).count e ≤ k * (t i).count e') :
  PrefixBound e e' k d ((List.range n).flatMap t)
    ∧ ((List.range n).flatMap t).count e ≤ k * ((List.range n).flatMap t).count e'
  := by
  induction n with
  | zero =>
      constructor
      · apply prefixBound_of_count_le
        apply Nat.zero_le
      · apply Nat.zero_le
  | succ n ih =>
      obtain ⟨hbound, hcount⟩ := ih (fun i hi => ht i (Nat.lt_succ_of_lt hi))
        fun i hi => hpaid i (Nat.lt_succ_of_lt hi)
      rw [List.range_succ, List.flatMap_append, List.flatMap_singleton]
      constructor
      · apply hbound.append (c := 0) hcount
        apply ht n n.lt_succ_self
      · rw [List.count_append, List.count_append, Nat.mul_add]
        apply Nat.add_le_add hcount
        apply hpaid n n.lt_succ_self

end Event
