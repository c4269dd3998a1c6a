import SmolVlm2Kv260.Process.Network
import SmolVlm2Kv260.Process.Pipeline

/-!
# Schedules do not matter

In a network where each access of a channel belongs to one process, the steps of different
processes commute.  So all schedules that cannot be continued end in the same state,
whatever the depths of the FIFOs; and when one schedule lets all processes finish, the
FIFOs then hold what they hold after running the processes one after the other.
-/

set_option autoImplicit false

open Proc

namespace Network

variable {π ι V : Type}

/-- No access is one of two processes. -/
def Exclusive (trace : π → List (Event ι)) : Prop :=
  ∀ p q e, e ∈ trace p → e ∈ trace q → p = q

/-- Every process follows a trace, and each channel has one reader and one writer. -/
def Owned (s : Network π ι V) : Prop :=
  ∃ trace, Exclusive trace ∧ ∀ p, (s.proc p).Follows (trace p)

theorem owned_of_performer {trace : π → List (Event ι)} (performer : Event ι → Option π)
    {s : Network π ι V} (hs : ∀ p, (s.proc p).Follows (trace p))
    (h : ∀ p, ∀ e ∈ trace p, performer e = some p) :
  s.Owned
  := by
  use trace
  constructor
  · intro p q e hp hq
    apply Option.some.inj ((h p e hp).symm.trans (h q e hq))
  · apply hs

variable [DecidableEq π] [DecidableEq ι] {cap cap' : ι → ℕ∞} {s s₁ s₂ : Network π ι V}

/-! ### Steps commute -/

/-- What a process has left to do after a step is the rest of what it had left before. -/
theorem Owned.step {p : π} (h : s.Owned) (hs : Step cap p s s₁) :
  s₁.Owned
  := by
  obtain ⟨trace, hexcl, hfollows⟩ := h
  have hshorter : ∀ (e : Event ι) (L : List (Event ι)), trace p = e :: L →
      Exclusive (Function.update trace p L) := by
    intro e L hL q r e' hq hr
    have hsub : ∀ q, e' ∈ Function.update trace p L q → e' ∈ trace q := by
      intro q he
      by_cases hqp : q = p
      · subst hqp
        rw [Function.update_self] at he
        rw [hL]
        apply List.mem_cons_of_mem _ he
      · rw [Function.update_of_ne hqp] at he
        apply he
    apply hexcl q r e' (hsub q hq) (hsub r hr)
  have hp := hfollows p
  cases hs with
  | @read c k v vs hproc _ =>
      rw [hproc] at hp
      obtain ⟨L, hL, hk⟩ := follows_read_iff.mp hp
      use Function.update trace p L, hshorter _ L hL
      intro q
      by_cases hqp : q = p
      · subst hqp
        simp only [Function.update_self, hk]
      · simp only [Function.update_of_ne hqp, hfollows]
  | @write c v r hproc _ =>
      rw [hproc] at hp
      obtain ⟨L, hL, hr⟩ := follows_write_iff.mp hp
      use Function.update trace p L, hshorter _ L hL
      intro q
      by_cases hqp : q = p
      · subst hqp
        simp only [Function.update_self, hr]
      · simp only [Function.update_of_ne hqp, hfollows]

theorem Owned.reachable (h : s.Owned) (hs : Reachable cap s s₁) :
  s₁.Owned
  := by
  induction hs with
  | refl => exact h
  | tail _ hstep ih =>
      obtain ⟨p, hp⟩ := hstep
      apply ih.step hp

/-- The steps of one process are determined. -/
theorem Step.deterministic {p : π} (h₁ : Step cap p s s₁) (h₂ : Step cap p s s₂) :
  s₁ = s₂
  := by
  cases h₁ with
  | read hproc hfifo =>
      cases h₂ with
      | read hproc' hfifo' =>
          rw [hproc] at hproc'
          cases hproc'
          rw [hfifo] at hfifo'
          cases hfifo'
          rfl
      | write hproc' _ => cases hproc.symm.trans hproc'
  | write hproc _ =>
      cases h₂ with
      | read hproc' _ => cases hproc.symm.trans hproc'
      | write hproc' _ =>
          rw [hproc] at hproc'
          cases hproc'
          rfl

omit [DecidableEq π] [DecidableEq ι] in
/-- Of two processes about to read, each has its own channel. -/
theorem Owned.ne_of_read {p q : π} (h : s.Owned) (hpq : p ≠ q) {c d : ι}
    {k k' : V → Proc ι V Unit} (hp : s.proc p = .read c k) (hq : s.proc q = .read d k') :
  c ≠ d
  := by
  rintro rfl
  obtain ⟨trace, hexcl, hfollows⟩ := h
  have hfp := hfollows p
  have hfq := hfollows q
  rw [hp] at hfp
  rw [hq] at hfq
  obtain ⟨L, hL, -⟩ := follows_read_iff.mp hfp
  obtain ⟨L', hL', -⟩ := follows_read_iff.mp hfq
  apply hpq
  apply hexcl p q (.rd c)
  · rw [hL]
    apply List.mem_cons_self
  · rw [hL']
    apply List.mem_cons_self

omit [DecidableEq π] [DecidableEq ι] in
/-- Of two processes about to write, each has its own channel. -/
theorem Owned.ne_of_write {p q : π} (h : s.Owned) (hpq : p ≠ q) {c d : ι} {v w : V}
    {r r' : Proc ι V Unit} (hp : s.proc p = .write c v r) (hq : s.proc q = .write d w r') :
  c ≠ d
  := by
  rintro rfl
  obtain ⟨trace, hexcl, hfollows⟩ := h
  have hfp := hfollows p
  have hfq := hfollows q
  rw [hp] at hfp
  rw [hq] at hfq
  obtain ⟨L, hL, -⟩ := follows_write_iff.mp hfp
  obtain ⟨L', hL', -⟩ := follows_write_iff.mp hfq
  apply hpq
  apply hexcl p q (.wr c)
  · rw [hL]
    apply List.mem_cons_self
  · rw [hL']
    apply List.mem_cons_self

/-- A value read by one process and a value written by another: on the same channel, the
value read is the oldest, and the one written is the newest. -/
theorem commute_read_write {p q : π} (hpq : p ≠ q) {c d : ι} {k : V → Proc ι V Unit}
    {v w : V} {vs : List V} {r : Proc ι V Unit} (hp : s.proc p = .read c k)
    (hc : s.fifo c = v :: vs) (hq : s.proc q = .write d w r)
    (hd : ((s.fifo d).length : ℕ∞) < cap d) :
  ∃ s', Step cap q ⟨Function.update s.proc p (k v), Function.update s.fifo c vs⟩ s'
    ∧ Step cap p ⟨Function.update s.proc q r, Function.update s.fifo d (s.fifo d ++ [w])⟩ s'
  := by
  have hq' : Function.update s.proc p (k v) q = .write d w r := by
    rw [Function.update_of_ne hpq.symm, hq]
  have hp' : Function.update s.proc q r p = .read c k := by
    rw [Function.update_of_ne hpq, hp]
  by_cases hcd : c = d
  · subst hcd
    refine ⟨_, .write hq' ?_, ?_⟩
    · -- there is more room after the read
      simp only [Function.update_self]
      apply lt_of_le_of_lt _ hd
      rw [hc, List.length_cons]
      exact_mod_cast Nat.le_succ _
    · have hread : Step cap p
          ⟨Function.update s.proc q r, Function.update s.fifo c (s.fifo c ++ [w])⟩ _ :=
        .read hp' ((Function.update_self ..).trans (congrArg (· ++ [w]) hc))
      rw [Function.update_idem, Function.update_comm hpq.symm] at hread
      dsimp only
      rw [Function.update_self, Function.update_idem]
      exact hread
  · refine ⟨_, .write hq' ?_, ?_⟩
    · simp only [Function.update_of_ne (Ne.symm hcd)]
      apply hd
    · have hread : Step cap p
          ⟨Function.update s.proc q r, Function.update s.fifo d (s.fifo d ++ [w])⟩ _ :=
        .read hp' ((Function.update_of_ne hcd _ _).trans hc)
      rw [Function.update_comm hpq.symm, Function.update_comm (Ne.symm hcd)] at hread
      dsimp only
      rw [Function.update_of_ne (Ne.symm hcd)]
      exact hread

/-- The steps of two processes can be taken in either order. -/
theorem Owned.commute {p q : π} (h : s.Owned) (hpq : p ≠ q) (h₁ : Step cap p s s₁)
    (h₂ : Step cap q s s₂) :
  ∃ s', Step cap q s₁ s' ∧ Step cap p s₂ s'
  := by
  cases h₁ with
  | @read c k v vs hp hc =>
      cases h₂ with
      | @read d k' w ws hq hd =>
          have hcd := h.ne_of_read hpq hp hq
          refine ⟨_, .read ((Function.update_of_ne hpq.symm _ _).trans hq)
            ((Function.update_of_ne hcd.symm _ _).trans hd), ?_⟩
          rw [Function.update_comm hpq, Function.update_comm hcd]
          apply Step.read
          · exact (Function.update_of_ne hpq _ _).trans hp
          · exact (Function.update_of_ne hcd _ _).trans hc
      | write hq hd => exact commute_read_write hpq hp hc hq hd
  | @write c v r hp hc =>
      cases h₂ with
      | read hq hd =>
          obtain ⟨s', hs₂, hs₁⟩ := commute_read_write hpq.symm hq hd hp hc
          exact ⟨s', hs₁, hs₂⟩
      | @write d w r' hq hd =>
          have hcd := h.ne_of_write hpq hp hq
          have hcd' : Function.update s.fifo c (s.fifo c ++ [v]) d = s.fifo d :=
            Function.update_of_ne hcd.symm _ _
          have hdc' : Function.update s.fifo d (s.fifo d ++ [w]) c = s.fifo c :=
            Function.update_of_ne hcd _ _
          refine ⟨_, .write ((Function.update_of_ne hpq.symm _ _).trans hq) ?_, ?_⟩
          · dsimp only
            rw [hcd']
            exact hd
          · have hwrite : Step cap p
                ⟨Function.update s.proc q r', Function.update s.fifo d (s.fifo d ++ [w])⟩ _ :=
              .write ((Function.update_of_ne hpq _ _).trans hp) (lt_of_eq_of_lt (by rw [← hdc']) hc)
            dsimp only at hwrite ⊢
            rw [hdc', Function.update_comm hpq.symm, Function.update_comm hcd.symm] at hwrite
            rw [hcd']
            exact hwrite

/-! ### All schedules end alike -/

theorem Deadlock.blocked (h : Deadlock cap s) (p : π) :
  Blocked cap s p
  := by
  rcases Classical.em (s.Finished p) with hp | hp
  · apply blocked_of_finished hp
  · apply h.2 p hp

/-- Two schedules can be continued to a common state. -/
theorem Owned.join (h : s.Owned) (h₁ : Reachable cap s s₁) (h₂ : Reachable cap s s₂) :
  ∃ s', Reachable cap s₁ s' ∧ Reachable cap s₂ s'
  := by
  -- steps between states with the ownership have the diamond property
  let r : Network π ι V → Network π ι V → Prop := fun a b => a.Owned ∧ SomeStep cap a b
  have hlift : ∀ {t : Network π ι V}, Reachable cap s t → Relation.ReflTransGen r s t := by
    intro t ht
    induction ht with
    | refl => exact .refl
    | tail hreach hstep ih => exact ih.tail ⟨h.reachable hreach, hstep⟩
  have hdiamond : ∀ a b c, r a b → r a c →
      ∃ d, Relation.ReflGen r b d ∧ Relation.ReflTransGen r c d := by
    rintro a b c ⟨ha, p, hp⟩ ⟨-, q, hq⟩
    by_cases hpq : p = q
    · subst hpq
      rw [hp.deterministic hq]
      exact ⟨c, .refl, .refl⟩
    · obtain ⟨d, hbd, hcd⟩ := ha.commute hpq hp hq
      exact ⟨d, .single ⟨ha.step hp, q, hbd⟩, .single ⟨ha.step hq, p, hcd⟩⟩
  obtain ⟨s', hs₁, hs₂⟩ := Relation.church_rosser hdiamond (hlift h₁) (hlift h₂)
  exact ⟨s', hs₁.lift id fun _ _ hr => hr.2, hs₂.lift id fun _ _ hr => hr.2⟩

/-- From a state where all processes are blocked, only it is reachable. -/
theorem eq_of_blocked (h : ∀ p, Blocked cap s p) (hs : Reachable cap s s₁) :
  s₁ = s
  := by
  induction hs with
  | refl => rfl
  | tail _ hstep ih =>
      subst ih
      obtain ⟨p, hp⟩ := hstep
      exact absurd hp (h p _)

/-- Every schedule can be continued to the state in which some schedule ends. -/
theorem Owned.reachable_outcome (h : s.Owned) (h₁ : Reachable cap s s₁)
    (h₂ : Reachable cap s s₂) (hb : ∀ p, Blocked cap s₂ p) :
  Reachable cap s₁ s₂
  := by
  obtain ⟨s', hs₁, hs₂⟩ := h.join h₁ h₂
  rw [eq_of_blocked hb hs₂] at hs₁
  exact hs₁

/-- Every schedule is finite and can be continued to `s`, where all processes are blocked. -/
structure EndsIn (cap : ι → ℕ∞) (s₀ s : Network π ι V) : Prop where
  finite : Acc (fun s' s => SomeStep cap s s') s₀
  blocked : ∀ p, Blocked cap s p
  continued : ∀ s', Reachable cap s₀ s' → Reachable cap s' s

/-- Where one schedule ends, all end. -/
theorem Owned.endsIn (h : s.Owned) (hacc : Acc (fun s' s => SomeStep cap s s') s)
    (hs : Reachable cap s s₁) (hb : ∀ p, Blocked cap s₁ p) :
  EndsIn cap s s₁
  := ⟨hacc, hb, fun _ hs' => h.reachable_outcome hs' hs hb⟩

/-- All schedules that cannot be continued end in the same state. -/
theorem Owned.outcome_unique (h : s.Owned) (h₁ : Reachable cap s s₁)
    (h₂ : Reachable cap s s₂) (hb₁ : ∀ p, Blocked cap s₁ p) (hb₂ : ∀ p, Blocked cap s₂ p) :
  s₁ = s₂
  := (eq_of_blocked hb₁ (h.reachable_outcome h₁ h₂ hb₂)).symm

/-! ### Program order -/

theorem Step.mono {p : π} (h : ∀ c, cap c ≤ cap' c) (hs : Step cap p s s₁) :
  Step cap' p s s₁
  := by
  cases hs with
  | read hproc hfifo => exact .read hproc hfifo
  | @write c v q hproc hroom => exact .write hproc (lt_of_lt_of_le hroom (h c))

/-- Deeper FIFOs permit the same schedules. -/
theorem Reachable.mono (h : ∀ c, cap c ≤ cap' c) (hs : Reachable cap s s₁) :
  Reachable cap' s s₁
  := hs.lift id fun _ _ ⟨p, hp⟩ => ⟨p, hp.mono h⟩

/-- Over unbounded FIFOs, a process can be run to its end. -/
theorem reachable_run {p : π} {q : Proc ι V Unit} {σ τ : Store ι V} (hrun : q.run σ = some ((), τ))
    (proc : π → Proc ι V Unit) :
  Reachable (fun _ => ⊤) ⟨Function.update proc p q, σ⟩ ⟨Function.update proc p (.ret ()), τ⟩
  := by
  induction q generalizing σ with
  | ret a =>
      cases hrun
      exact .refl
  | read c k ih =>
      rw [Proc.run] at hrun
      cases hc : σ c with
      | nil =>
          rw [hc] at hrun
          cases hrun
      | cons v vs =>
          rw [hc] at hrun
          have hstep : Step (fun _ => ⊤) p ⟨Function.update proc p (.read c k), σ⟩ _ :=
            .read (Function.update_self ..) hc
          rw [Function.update_idem] at hstep
          apply Relation.ReflTransGen.head ⟨p, hstep⟩
          apply ih v hrun
  | write c v q ih =>
      rw [Proc.run] at hrun
      have hstep : Step (fun _ => ⊤) p ⟨Function.update proc p (.write c v q), σ⟩ _ :=
        .write (Function.update_self ..) (ENat.natCast_lt_top _)
      rw [Function.update_idem] at hstep
      apply Relation.ReflTransGen.head ⟨p, hstep⟩
      apply ih hrun

/-- The processes of a list, one after the other. -/
def inOrder (proc : π → Proc ι V Unit) : List π → Proc ι V Unit
  | [] => .ret ()
  | p :: ps => proc p >>= fun _ => inOrder proc ps

omit [DecidableEq π] [DecidableEq ι] in
theorem inOrder_singleton (proc : π → Proc ι V Unit) (p : π) :
  inOrder proc [p] = proc p
  := by
  have hend : ∀ q : Proc ι V Unit, (q >>= fun _ => .ret ()) = q := by
    intro q
    induction q with
    | ret a => rfl
    | read c k ih => exact congrArg (Proc.read c) (funext ih)
    | write c v q ih => exact congrArg (Proc.write c v) ih
  apply hend

/-- Over unbounded FIFOs, the processes can be run one after the other. -/
theorem reachable_inOrder {ps : List π} (hps : ps.Nodup) {proc : π → Proc ι V Unit}
    {σ τ : Store ι V} (hrun : (inOrder proc ps).run σ = some ((), τ)) :
  Reachable (fun _ => ⊤) ⟨proc, σ⟩ ⟨fun p => if p ∈ ps then .ret () else proc p, τ⟩
  := by
  induction ps generalizing proc σ with
  | nil =>
      cases hrun
      simp only [List.not_mem_nil, if_false]
      exact .refl
  | cons p ps ih =>
      obtain ⟨hp, hnodup⟩ := List.nodup_cons.mp hps
      rw [inOrder, run_bind] at hrun
      obtain ⟨⟨⟨⟩, ρ⟩, hfirst, hrest⟩ := Option.bind_eq_some_iff.mp hrun
      have hhead := reachable_run (p := p) hfirst proc
      rw [Function.update_eq_self] at hhead
      -- the processes that follow are not changed by the first
      have hsame : inOrder (Function.update proc p (.ret ())) ps = inOrder proc ps := by
        clear ih hrest hrun hnodup hps
        induction ps with
        | nil => rfl
        | cons q qs ih =>
            obtain ⟨hpq, hqs⟩ := not_or.mp (mt List.mem_cons.mpr hp)
            rw [inOrder, inOrder, Function.update_of_ne (Ne.symm hpq), ih hqs]
      rw [← hsame] at hrest
      have hdone : (fun q => if q ∈ p :: ps then Proc.ret () else proc q)
          = fun q => if q ∈ ps then .ret () else Function.update proc p (.ret ()) q := by
        funext q
        by_cases hqp : q = p
        · subst hqp
          simp only [List.mem_cons_self, if_true, Function.update_self, ite_self]
        · simp only [List.mem_cons, hqp, false_or, Function.update_of_ne hqp]
      rw [hdone]
      apply hhead.trans
      apply ih hnodup hrest

/-- The state in which all processes have returned. -/
def finished (π : Type) (τ : Store ι V) : Network π ι V := ⟨fun _ => .ret (), τ⟩

theorem blocked_finished (τ : Store ι V) (p : π) :
  Blocked cap (finished π τ) p
  := blocked_of_finished rfl

section ProgramOrder

variable {ps : List π} (hnodup : ps.Nodup) (hall : ∀ p, p ∈ ps) (h : s.Owned) {τ : Store ι V}
  (hrun : (inOrder s.proc ps).run s.fifo = some ((), τ))

include hnodup hall hrun

/-- Over unbounded FIFOs, the program order is a schedule. -/
theorem reachable_programOrder :
  Reachable (fun _ => ⊤) s (finished π τ)
  := by
  have hreach := reachable_inOrder hnodup hrun
  simp only [hall, if_true] at hreach
  exact hreach

include h

/-- When a schedule over FIFOs of any depths lets all processes finish, the FIFOs end as they
do in program order. -/
theorem Owned.finished_programOrder (hs : Reachable cap s s₁) (hfin : ∀ p, s₁.Finished p) :
  s₁ = finished π τ
  := by
  apply h.outcome_unique (hs.mono fun _ => le_top) (reachable_programOrder hnodup hall hrun)
  · intro p
    apply blocked_of_finished (hfin p)
  · apply blocked_finished

end ProgramOrder

end Network
