import Mathlib.Algebra.Order.Ring.Int
import Mathlib.Data.Int.Basic

/-!
# Registers of a fixed width

A computation assigns integers to registers and reads tables.  A register holds what is left of
an integer in its width.  The computation records what its registers were given and which entries
it read, and it is exact when every register could hold what it was given and every entry exists.
-/

set_option autoImplicit false

namespace Registers

/-- The type of a register: signed or unsigned, of a width in bits. -/
inductive Reg where
  | int (w : ℕ)
  | uint (w : ℕ)

namespace Reg

/-- What a register holds after `x` is assigned to it. -/
def wrap : Reg → ℤ → ℤ
  | int w, x => (x + 2 ^ (w - 1)) % 2 ^ w - 2 ^ (w - 1)
  | uint w, x => x % 2 ^ w

/-- The register can hold `x`. -/
def Fits : Reg → ℤ → Prop
  | int w, x => 0 < w ∧ -2 ^ (w - 1) ≤ x ∧ x < 2 ^ (w - 1)
  | uint w, x => 0 ≤ x ∧ x < 2 ^ w

instance (reg : Reg) (x : ℤ) : Decidable (reg.Fits x) :=
  match reg with
  | int w => inferInstanceAs (Decidable (0 < w ∧ -2 ^ (w - 1) ≤ x ∧ x < 2 ^ (w - 1)))
  | uint w => inferInstanceAs (Decidable (0 ≤ x ∧ x < 2 ^ w))

theorem wrap_of_fits {reg : Reg} {x : ℤ} (h : reg.Fits x) :
  reg.wrap x = x
  := by
  cases reg with
  | int w =>
    obtain ⟨hw, low, high⟩ := h
    have halves : (2 : ℤ) ^ w = 2 * 2 ^ (w - 1) := by
      rw [← pow_succ', Nat.sub_add_cancel hw]
    rw [wrap, Int.emod_eq_of_lt (by omega) (by omega)]
    omega
  | uint w => exact Int.emod_eq_of_lt h.1 h.2

end Reg

/-- A shift to the right of what an unsigned register holds. -/
theorem natCast_shiftRight (n k : ℕ) :
  (n : ℤ) >>> k = (n / 2 ^ k : ℕ)
  := by rw [← Int.natCast_shiftRight, Nat.shiftRight_eq_div_pow]

/-- What a computation records. -/
inductive Event where
  | assigned (reg : Reg) (x : ℤ)
  | read (size : ℕ) (index : ℤ)

/-- Nothing is lost, and the entry exists. -/
def Event.Harmless : Event → Prop
  | assigned reg x => reg.Fits x
  | read size index => 0 ≤ index ∧ index < size

/-- The result of a computation, and what it recorded. -/
structure Traced (α : Type) where
  value : α
  events : List Event

namespace Traced

variable {α β : Type}

instance : Monad Traced where
  pure a := ⟨a, []⟩
  bind t f := ⟨(f t.value).value, t.events ++ (f t.value).events⟩

/-- An assignment. -/
def assign (reg : Reg) (x : ℤ) : Traced ℤ := ⟨reg.wrap x, [.assigned reg x]⟩

/-- An assignment under a condition, to a register that holds `old`. -/
def assignIf (p : Prop) [Decidable p] (reg : Reg) (x old : ℤ) : Traced ℤ :=
  if p then assign reg x else pure old

/-- An access to a table. -/
def read (table : List ℤ) (index : ℤ) : Traced ℤ :=
  ⟨table.getD index.toNat 0, [.read table.length index]⟩

/-- The computation has the result `a` and loses nothing. -/
structure Exact (t : Traced α) (a : α) : Prop where
  value_eq : t.value = a
  harmless : ∀ e ∈ t.events, e.Harmless

theorem exact_pure (a : α) :
  Exact (pure a) a
  := ⟨rfl, nofun⟩

theorem Exact.bind {t : Traced α} {a : α} {f : α → Traced β} {b : β} (h : t.Exact a)
    (h' : (f a).Exact b) :
  (t >>= f).Exact b
  := by
  obtain ⟨rfl, harmless⟩ := h
  constructor
  · exact h'.value_eq
  · intro e he
    rcases List.mem_append.mp he with first | second
    · exact harmless e first
    · exact h'.harmless e second

theorem exact_assign {reg : Reg} {x : ℤ} (h : reg.Fits x) :
  (assign reg x).Exact x
  := by
  constructor
  · exact Reg.wrap_of_fits h
  · intro e he
    rwa [List.mem_singleton.mp he]

theorem exact_int {w : ℕ} {x : ℤ} (hw : 0 < w) (low : -2 ^ (w - 1) ≤ x) (high : x < 2 ^ (w - 1)) :
  (assign (.int w) x).Exact x
  := exact_assign ⟨hw, low, high⟩

theorem exact_uint {w : ℕ} {x : ℤ} (low : 0 ≤ x) (high : x < 2 ^ w) :
  (assign (.uint w) x).Exact x
  := exact_assign ⟨low, high⟩

theorem exact_read {table : List ℤ} {index : ℤ} (h : 0 ≤ index ∧ index < table.length) :
  (read table index).Exact (table.getD index.toNat 0)
  := by
  constructor
  · rfl
  · intro e he
    rwa [List.mem_singleton.mp he]

theorem exact_assignIf {p : Prop} [Decidable p] {reg : Reg} {x old : ℤ} (h : p → reg.Fits x) :
  (assignIf p reg x old).Exact (if p then x else old)
  := by
  rw [assignIf]
  split
  case isTrue hp => exact exact_assign (h hp)
  case isFalse => exact exact_pure old

theorem exact_assignIf_of_not {p : Prop} [Decidable p] {reg : Reg} {x old : ℤ} (h : ¬ p) :
  (assignIf p reg x old).Exact old
  := by
  rw [assignIf, if_neg h]
  exact exact_pure old

end Traced

end Registers
