import SmolVlm2Kv260.Process.Fallible

/-!
# Two computations that may throw, side by side

A computation on states `S` simulates one on states `T` when from related states both end with
related values in related states, or both throw the same exception.  The rules follow the shape
of the left computation, which may change more of its state than the right one has.
-/

set_option autoImplicit false

namespace Fallible

variable {S T E α β γ δ : Type}

instance : LawfulMonad (Fallible S E) := LawfulMonad.mk' _
  (fun m => by
    obtain ⟨run⟩ := m
    apply congrArg Fallible.mk
    funext s
    dsimp only
    rcases run s with ⟨_ | _, _⟩ <;> rfl)
  (fun _ _ => rfl)
  (fun m f g => by
    apply congrArg Fallible.mk
    funext s
    rw [run_bind]
    rcases m.run s with ⟨_ | _, _⟩ <;> rfl)

/-- Both outcomes are values, and these and the states are in `Q`, or both are the same exception,
and the states are in `X`. -/
def Ends (Q : α → β → S → T → Prop) (X : E → S → T → Prop) :
    Except E α × S → Except E β × T → Prop
  | (.ok a, s), (.ok b, t) => Q a b s t
  | (.error e, s), (.error e', t) => e = e' ∧ X e s t
  | _, _ => False

/-- From states in `R`, both computations end with values and states in `Q`, or both throw the
same exception with states in `X`. -/
def Simulates (R : S → T → Prop) (m : Fallible S E α) (m' : Fallible T E β)
    (Q : α → β → S → T → Prop) (X : E → S → T → Prop) : Prop :=
  ∀ s t, R s t → Ends Q X (m.run s) (m'.run t)

/-- Two computations that simulate the same one. -/
theorem Ends.both {U : Type} {Q : α → γ → S → U → Prop} {Q' : β → γ → T → U → Prop}
    {X : E → S → U → Prop} {X' : E → T → U → Prop} {x : Except E α × S} {y : Except E β × T}
    {z : Except E γ × U} (hx : Ends Q X x z) (hy : Ends Q' X' y z) :
  Ends (fun a b s t => ∃ c u, Q a c s u ∧ Q' b c t u) (fun e s t => ∃ u, X e s u ∧ X' e t u) x y
  := by
  obtain ⟨e | a, s⟩ := x <;> obtain ⟨e' | b, t⟩ := y <;> obtain ⟨e'' | c, u⟩ := z
  · obtain ⟨rfl, hx⟩ := hx
    obtain ⟨rfl, hy⟩ := hy
    exact ⟨rfl, u, hx, hy⟩
  · exact hx.elim
  · exact hy.elim
  · exact hx.elim
  · exact hx.elim
  · exact hy.elim
  · exact hx.elim
  · exact ⟨c, u, hx, hy⟩

theorem Ends.mono {Q Q' : α → β → S → T → Prop} {X X' : E → S → T → Prop} {x : Except E α × S}
    {y : Except E β × T} (h : Ends Q X x y) (hQ : ∀ a b s t, Q a b s t → Q' a b s t)
    (hX : ∀ e s t, X e s t → X' e s t) :
  Ends Q' X' x y
  := by
  obtain ⟨e | a, s⟩ := x <;> obtain ⟨e' | b, t⟩ := y
  · exact ⟨h.1, hX e s t h.2⟩
  · exact h
  · exact h
  · exact hQ a b s t h

section Simulates

variable {R : S → T → Prop} {Q : α → β → S → T → Prop} {X : E → S → T → Prop}

theorem simulates_pure {a : α} {b : β} (h : ∀ s t, R s t → Q a b s t) :
  Simulates R (pure a : Fallible S E α) (pure b) Q X
  := by
  intro s t hst
  exact h s t hst

/-- One step after the other. -/
theorem simulates_bind {Q' : γ → δ → S → T → Prop} {m : Fallible S E α} {m' : Fallible T E β}
    {f : α → Fallible S E γ} {f' : β → Fallible T E δ}
    (hm : Simulates R m m' Q X) (hf : ∀ a b, Simulates (Q a b) (f a) (f' b) Q' X) :
  Simulates R (m >>= f) (m' >>= f') Q' X
  := by
  intro s t hst
  have h := hm s t hst
  rw [run_bind, run_bind]
  revert h
  rcases m.run s with ⟨e | a, s'⟩ <;> rcases m'.run t with ⟨e' | b, t'⟩ <;> intro h
  · exact h
  · exact h.elim
  · exact h.elim
  · exact hf a b s' t' h

/-- The right computation returns another value. -/
theorem simulates_bind_pure {Q' : α → δ → S → T → Prop} {m : Fallible S E α}
    {m' : Fallible T E β} {d : δ} (hm : Simulates R m m' (fun a _ => Q' a d) X) :
  Simulates R m (m' >>= fun _ => pure d) Q' X
  := by
  intro s t hst
  have h := hm s t hst
  rw [run_bind]
  revert h
  rcases m.run s with ⟨e | a, s'⟩ <;> rcases m'.run t with ⟨e' | b, t'⟩ <;> intro h <;> exact h

/-- A fact that the states do not matter for. -/
theorem simulates_fact {c : Prop} {m : Fallible S E α} {m' : Fallible T E β}
    (h : c → Simulates R m m' Q X) :
  Simulates (fun s t => c ∧ R s t) m m' Q X
  := by
  rintro s t ⟨hc, hst⟩
  exact h hc s t hst

/-- A step of the left computation only. -/
theorem simulates_update_bind {P : S → T → Prop} {m : Unit → Fallible S E α}
    {m' : Fallible T E β} {f : S → S} (hf : ∀ s t, R s t → P (f s) t)
    (hm : Simulates P (m ()) m' Q X) :
  Simulates R (update f >>= m) m' Q X
  := by
  intro s t hst
  exact hm (f s) t (hf s t hst)

/-- The last step of the left computation, which changes its state only. -/
theorem simulates_update {a : β} {f : S → S} {Q : Unit → β → S → T → Prop}
    (hf : ∀ s t, R s t → Q () a (f s) t) :
  Simulates R (update f : Fallible S E Unit) (pure a) Q X
  := by
  intro s t hst
  exact hf s t hst

/-- Both computations take the same branch. -/
theorem simulates_ite {c : Prop} [Decidable c] {m n : Fallible S E α} {m' n' : Fallible T E β}
    (hthen : c → Simulates R m m' Q X) (helse : ¬ c → Simulates R n n' Q X) :
  Simulates R (if c then m else n) (if c then m' else n') Q X
  := by
  split
  · rename_i hc
    exact hthen hc
  · rename_i hc
    exact helse hc

/-- Both computations read their state. -/
theorem simulates_state_bind {m : S → Fallible S E α} {m' : T → Fallible T E β}
    (h : ∀ s t, R s t → Simulates (fun s' t' => s' = s ∧ t' = t) (m s) (m' t) Q X) :
  Simulates R (state >>= m) (state >>= m') Q X
  := by
  intro s t hst
  exact h s t hst s t ⟨rfl, rfl⟩

/-- A computation that depends on no state. -/
theorem simulates_ofExcept {x : Except E α} {Q : α → α → S → T → Prop}
    (hok : ∀ a, x = .ok a → ∀ s t, R s t → Q a a s t)
    (herror : ∀ e, x = .error e → ∀ s t, R s t → X e s t) :
  Simulates R (ofExcept x) (ofExcept x) Q X
  := by
  intro s t hst
  rw [run_ofExcept, run_ofExcept]
  cases x with
  | ok a => exact hok a rfl s t hst
  | error e => exact ⟨rfl, herror e rfl s t hst⟩

/-- The handler of the left computation changes its state, and throws again. -/
theorem simulates_tryCatch {X' : E → S → T → Prop} {m : Fallible S E α} {m' : Fallible T E β}
    {f : E → S → S} (hm : Simulates R m m' Q X')
    (hf : ∀ e s t, X' e s t → X e (f e s) t) :
  Simulates R (tryCatch m fun e => update (f e) >>= fun _ => throw e) m' Q X
  := by
  intro s t hst
  have h := hm s t hst
  rw [run_tryCatch]
  revert h
  rcases m.run s with ⟨e | a, s'⟩ <;> rcases m'.run t with ⟨e' | b, t'⟩ <;> intro h
  · exact ⟨h.1, hf e s' t' h.2⟩
  · exact h.elim
  · exact h.elim
  · exact h

theorem simulates_pre {R' : S → T → Prop} {m : Fallible S E α} {m' : Fallible T E β}
    (h : Simulates R m m' Q X) (hR : ∀ s t, R' s t → R s t) :
  Simulates R' m m' Q X
  := by
  intro s t hst
  exact h s t (hR s t hst)

theorem simulates_post {Q' : α → β → S → T → Prop} {m : Fallible S E α} {m' : Fallible T E β}
    (h : Simulates R m m' Q X) (hQ : ∀ a b s t, Q a b s t → Q' a b s t) :
  Simulates R m m' Q' X
  := by
  intro s t hst
  exact (h s t hst).mono hQ fun _ _ _ hX => hX

end Simulates

/-! ### A part of the state -/

/-- A computation on a part of the state. -/
def zoom (get : S → T) (set : T → S → S) (m : Fallible T E α) : Fallible S E α :=
  ⟨fun s => let (r, t) := m.run (get s); (r, set t s)⟩

theorem run_zoom (get : S → T) (set : T → S → S) (m : Fallible T E α) (s : S) :
  (zoom get set m).run s = ((m.run (get s)).1, set (m.run (get s)).2 s)
  := by
  rfl

/-- The same computation on the same part of two states. -/
theorem simulates_zoom {A : Type} {get : S → A} {set : A → S → S} {get' : T → A}
    {set' : A → T → T} {m : Fallible A E α} {R : S → T → Prop} {Q : α → α → S → T → Prop}
    {X : E → S → T → Prop} (hget : ∀ s t, R s t → get s = get' t)
    (hset : ∀ s t, R s t → ∀ a p, Q a a (set p s) (set' p t))
    (herror : ∀ s t, R s t → ∀ e p, X e (set p s) (set' p t)) :
  Simulates R (zoom get set m) (zoom get' set' m) Q X
  := by
  intro s t hst
  rw [run_zoom, run_zoom, hget s t hst]
  rcases m.run (get' t) with ⟨e | a, p⟩
  · exact ⟨rfl, herror s t hst e p⟩
  · exact hset s t hst a p

end Fallible
