import Mathlib.Data.List.Basic

/-!
# Computations that may throw

`Except E` for computations that give a value or throw, and `Fallible S E` for those that also
change a state, which an exception leaves as it is when it is thrown.
-/

set_option autoImplicit false

namespace Except

variable {E α β : Type}

theorem bind_eq_ok_iff {x : Except E α} {f : α → Except E β} {b : β} :
  (x >>= f) = .ok b ↔ ∃ a, x = .ok a ∧ f a = .ok b
  := by
  constructor
  · intro h
    cases x with
    | error e => cases h
    | ok a => exact ⟨a, rfl, h⟩
  · rintro ⟨a, rfl, h⟩
    apply h

theorem map_eq_ok_iff {x : Except E α} {f : α → β} {b : β} :
  x.map f = .ok b ↔ ∃ a, x = .ok a ∧ f a = b
  := by
  constructor
  · intro h
    cases x with
    | error e => cases h
    | ok a => exact ⟨a, rfl, Except.ok.inj h⟩
  · rintro ⟨a, rfl, rfl⟩
    rfl

theorem exists_map_eq_ok_iff {x : Except E α} {f : α → β} :
  (∃ b, x.map f = .ok b) ↔ ∃ a, x = .ok a
  := by
  cases x with
  | error e => exact ⟨nofun, nofun⟩
  | ok a => exact ⟨fun _ => ⟨a, rfl⟩, fun _ => ⟨f a, rfl⟩⟩

/-- A sequence succeeds when both parts do, where it does not depend on the first value whether
the second one does. -/
theorem exists_bind_eq_ok_iff {x : Except E α} {f : α → Except E β} {Q : Prop}
    (h : ∀ a, (∃ b, f a = .ok b) ↔ Q) :
  (∃ b, (x >>= f) = .ok b) ↔ (∃ a, x = .ok a) ∧ Q
  := by
  constructor
  · rintro ⟨b, hb⟩
    obtain ⟨a, ha, hf⟩ := bind_eq_ok_iff.mp hb
    exact ⟨⟨a, ha⟩, (h a).mp ⟨b, hf⟩⟩
  · rintro ⟨⟨a, ha⟩, hQ⟩
    obtain ⟨b, hb⟩ := (h a).mpr hQ
    exact ⟨b, bind_eq_ok_iff.mpr ⟨a, ha, hb⟩⟩

theorem exists_eq_error_iff {x : Except E α} :
  (∃ e, x = .error e) ↔ ¬ ∃ a, x = .ok a
  := by
  cases x with
  | error e => exact ⟨fun _ => nofun, fun _ => ⟨e, rfl⟩⟩
  | ok a => exact ⟨nofun, fun h => absurd ⟨a, rfl⟩ h⟩

/-- What each step that succeeds preserves, a loop that succeeds preserves. -/
theorem foldlM_invariant (P : β → Prop) {f : β → α → Except E β} {l : List α}
    (hstep : ∀ b, ∀ a ∈ l, ∀ b', P b → f b a = .ok b' → P b') {b b' : β} (hb : P b)
    (h : l.foldlM f b = .ok b') :
  P b'
  := by
  induction l generalizing b with
  | nil =>
      obtain rfl := Except.ok.inj h
      apply hb
  | cons a l ih =>
      rw [List.foldlM_cons, bind_eq_ok_iff] at h
      obtain ⟨b₁, hfirst, hrest⟩ := h
      apply ih _ (hstep b a List.mem_cons_self b₁ hb hfirst) hrest
      intro b a ha
      apply hstep b a (List.mem_cons_of_mem _ ha)

end Except

/-- A computation that changes a state and may throw. -/
structure Fallible (S E α : Type) where
  run : S → Except E α × S

namespace Fallible

variable {S E α β : Type}

instance : Monad (Fallible S E) where
  pure a := ⟨fun s => (.ok a, s)⟩
  bind m f := ⟨fun s =>
    match m.run s with
    | (.ok a, s') => (f a).run s'
    | (.error e, s') => (.error e, s')⟩

instance : MonadExcept E (Fallible S E) where
  throw e := ⟨fun s => (.error e, s)⟩
  tryCatch m handler := ⟨fun s =>
    match m.run s with
    | (.ok a, s') => (.ok a, s')
    | (.error e, s') => (handler e).run s'⟩

/-- A computation that leaves the state alone. -/
def ofExcept (x : Except E α) : Fallible S E α := ⟨fun s => (x, s)⟩

/-- Change the state. -/
def update (f : S → S) : Fallible S E Unit := ⟨fun s => (.ok (), f s)⟩

/-- The state. -/
def state : Fallible S E S := ⟨fun s => (.ok s, s)⟩

/-! ### Runs -/

@[simp] theorem run_pure (a : α) (s : S) :
  (pure a : Fallible S E α).run s = (.ok a, s)
  := by
  rfl

@[simp] theorem run_throw (e : E) (s : S) :
  (throw e : Fallible S E α).run s = (.error e, s)
  := by
  rfl

@[simp] theorem run_ofExcept (x : Except E α) (s : S) :
  (ofExcept x).run s = (x, s)
  := by
  rfl

@[simp] theorem run_update (f : S → S) (s : S) :
  (update f : Fallible S E Unit).run s = (.ok (), f s)
  := by
  rfl

@[simp] theorem run_state (s : S) :
  (state : Fallible S E S).run s = (.ok s, s)
  := by
  rfl

theorem run_bind (m : Fallible S E α) (f : α → Fallible S E β) (s : S) :
  (m >>= f).run s = match m.run s with
    | (.ok a, s') => (f a).run s'
    | (.error e, s') => (.error e, s')
  := by
  rfl

theorem run_tryCatch (m : Fallible S E α) (handler : E → Fallible S E α) (s : S) :
  (tryCatch m handler).run s = match m.run s with
    | (.ok a, s') => (.ok a, s')
    | (.error e, s') => (handler e).run s'
  := by
  rfl

/-- A step that succeeds. -/
theorem run_bind_of_ok {m : Fallible S E α} {f : α → Fallible S E β} {s s' : S} {a : α}
    (h : m.run s = (.ok a, s')) :
  (m >>= f).run s = (f a).run s'
  := by
  rw [run_bind, h]

/-- A step that throws. -/
theorem run_bind_of_error {m : Fallible S E α} {f : α → Fallible S E β} {s s' : S} {e : E}
    (h : m.run s = (.error e, s')) :
  (m >>= f).run s = (.error e, s')
  := by
  rw [run_bind, h]

/-! ### Triples -/

/-- From a state in `P`, `m` ends with a value and a state in `Q`, or throws with a state in `R`. -/
def Triple (P : S → Prop) (m : Fallible S E α) (Q : α → S → Prop) (R : E → S → Prop) : Prop :=
  ∀ s, P s → (∀ a s', m.run s = (.ok a, s') → Q a s') ∧ ∀ e s', m.run s = (.error e, s') → R e s'

section Triple

variable {P : S → Prop} {Q : α → S → Prop} {R : E → S → Prop}

theorem triple_pure {a : α} (h : ∀ s, P s → Q a s) :
  Triple P (pure a) Q R
  := by
  intro s hs
  constructor
  · rintro _ _ ⟨⟩
    apply h s hs
  · rintro _ _ ⟨⟩

theorem triple_throw {e : E} (h : ∀ s, P s → R e s) :
  Triple P (throw e : Fallible S E α) Q R
  := by
  intro s hs
  constructor
  · rintro _ _ ⟨⟩
  · rintro _ _ ⟨⟩
    apply h s hs

theorem triple_update {Q : Unit → S → Prop} {f : S → S} (h : ∀ s, P s → Q () (f s)) :
  Triple P (update f) Q R
  := by
  intro s hs
  constructor
  · rintro _ _ ⟨⟩
    apply h s hs
  · rintro _ _ ⟨⟩

/-- What does not depend on the state may be assumed. -/
theorem triple_fact {p : Prop} {m : Fallible S E α} (h : p → Triple P m Q R) :
  Triple (fun s => p ∧ P s) m Q R
  := by
  rintro s ⟨hp, hs⟩
  apply h hp s hs

/-- What the first part ensures, the second part starts with. -/
theorem triple_bind {Q' : β → S → Prop} {m : Fallible S E α} {f : α → Fallible S E β}
    (hm : Triple P m Q R) (hf : ∀ a, Triple (Q a) (f a) Q' R) :
  Triple P (m >>= f) Q' R
  := by
  intro s hs
  obtain ⟨hok, herror⟩ := hm s hs
  rw [run_bind]
  rcases hrun : m.run s with ⟨e | a, s'⟩
  · constructor
    · rintro _ _ ⟨⟩
    · rintro _ _ ⟨⟩
      apply herror e s' hrun
  · apply hf a s' (hok a s' hrun)

/-- What is thrown, the handler starts with. -/
theorem triple_tryCatch {T : E → S → Prop} {m : Fallible S E α} {handler : E → Fallible S E α}
    (hm : Triple P m Q T) (hhandler : ∀ e, Triple (T e) (handler e) Q R) :
  Triple P (tryCatch m handler) Q R
  := by
  intro s hs
  obtain ⟨hok, herror⟩ := hm s hs
  rw [run_tryCatch]
  rcases hrun : m.run s with ⟨e | a, s'⟩
  · apply hhandler e s' (herror e s' hrun)
  · constructor
    · rintro _ _ ⟨⟩
      apply hok a s' hrun
    · rintro _ _ ⟨⟩

/-- A computation that starts by looking at the state. -/
theorem triple_state_bind {f : S → Fallible S E α}
    (h : ∀ s₀, Triple (fun s => s = s₀ ∧ P s) (f s₀) Q R) :
  Triple P (state >>= f) Q R
  := by
  intro s hs
  apply h s s ⟨rfl, hs⟩

theorem triple_pre {P' : S → Prop} {m : Fallible S E α} (h : Triple P m Q R)
    (hP : ∀ s, P' s → P s) :
  Triple P' m Q R
  := by
  intro s hs
  exact h s (hP s hs)

theorem triple_post {Q' : α → S → Prop} {m : Fallible S E α} (h : Triple P m Q R)
    (hQ : ∀ a s, Q a s → Q' a s) :
  Triple P m Q' R
  := by
  intro s hs
  obtain ⟨hok, herror⟩ := h s hs
  refine ⟨?_, herror⟩
  intro a s' hrun
  apply hQ a s' (hok a s' hrun)

end Triple

end Fallible
