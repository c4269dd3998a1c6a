import Mathlib.Data.List.Basic

/-!
# Checks that collect messages

A check goes on after a condition that does not hold: it notes a message, and at the end it
has passed when there is none.  Only an exception stops it.
-/

set_option autoImplicit false

/-- A computation that gives a value and messages, or stops with an exception. -/
def Report (E M α : Type) : Type := Except E (α × List M)

namespace Report

variable {E M α β : Type}

/-- The computation gives `a` and no message. -/
def Passes (x : Report E M α) (a : α) : Prop := x = .ok (a, [])

/-- A single message. -/
def note (m : M) : Report E M Unit := .ok ((), [m])

/-- A computation that notes nothing. -/
def ofExcept : Except E α → Report E M α
  | .ok a => .ok (a, [])
  | .error e => .error e

instance : Monad (Report E M) where
  pure a := .ok (a, [])
  bind x f :=
    match x with
    | .error e => .error e
    | .ok (a, ms) =>
        match f a with
        | .error e => .error e
        | .ok (b, ms') => .ok (b, ms ++ ms')

/-- `expect`: the message is noted unless the condition holds. -/
def expect (cond : Bool) (m : M) : Report E M Unit :=
  if cond then pure () else note m

instance (x : Report E M Unit) : Decidable (x.Passes ()) :=
  match x with
  | .ok ((), []) => isTrue rfl
  | .ok ((), _ :: _) => isFalse nofun
  | .error _ => isFalse nofun

theorem passes_pure {a b : α} :
  (pure a : Report E M α).Passes b ↔ a = b
  := by
  constructor
  · intro h
    injection h with h
    injection h
  · rintro rfl
    rfl

theorem passes_ofExcept {x : Except E α} {a : α} :
  (ofExcept x : Report E M α).Passes a ↔ x = .ok a
  := by
  cases x with
  | error e => exact ⟨nofun, nofun⟩
  | ok b =>
      constructor
      · intro h
        injection h with h
        injection h with h
        rw [h]
      · rintro ⟨⟩
        rfl

/-- A sequence passes when its parts do: messages are never dropped. -/
theorem passes_bind {x : Report E M α} {f : α → Report E M β} {b : β} :
  (x >>= f).Passes b ↔ ∃ a, x.Passes a ∧ (f a).Passes b
  := by
  constructor
  · intro h
    match x, h with
    | .ok (a, ms), h =>
        change (match f a with
          | .error e => .error e
          | .ok (b, ms') => .ok (b, ms ++ ms') : Except E (β × List M)) = .ok (b, []) at h
        rcases hf : f a with e | ⟨b', ms'⟩
        · rw [hf] at h
          cases h
        · rw [hf] at h
          injection h with h
          injection h with hb hms
          obtain ⟨rfl, rfl⟩ := List.append_eq_nil_iff.mp hms
          use a, rfl
          rw [Passes, hf, hb]
  · rintro ⟨a, rfl, hf⟩
    change (match f a with
      | .error e => .error e
      | .ok (b, ms') => .ok (b, [] ++ ms') : Except E (β × List M)) = .ok (b, [])
    rw [hf]
    rfl

theorem passes_expect {cond : Bool} {m : M} :
  (expect cond m : Report E M Unit).Passes () ↔ cond = true
  := by
  cases cond with
  | false => exact ⟨nofun, nofun⟩
  | true => exact ⟨fun _ => rfl, fun _ => rfl⟩

/-- A statement passes before the rest of a sequence does. -/
theorem passes_seq {x : Report E M Unit} {y : Report E M β} {b : β} :
  (x >>= fun _ => y).Passes b ↔ x.Passes () ∧ y.Passes b
  := by
  rw [passes_bind]
  constructor
  · rintro ⟨⟨⟩, hx, hy⟩
    exact ⟨hx, hy⟩
  · rintro ⟨hx, hy⟩
    exact ⟨(), hx, hy⟩

/-- A loop passes when each of its rounds does. -/
theorem passes_forM {l : List α} {f : α → Report E M Unit} :
  (l.forM f).Passes () ↔ ∀ x ∈ l, (f x).Passes ()
  := by
  induction l with
  | nil => exact iff_of_true rfl nofun
  | cons x l ih =>
      change (f x >>= fun _ => l.forM f).Passes () ↔ _
      rw [passes_seq, ih, List.forall_mem_cons]

end Report
