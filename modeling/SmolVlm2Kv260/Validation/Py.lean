import Mathlib.Data.Int.Notation
import Mathlib.Data.List.Infix
import Mathlib.Data.Rat.Floor

/-!
# Values of a parsed JSON text

The values that `json.loads` of Python gives, with the operations on them that can raise an
exception.  The floating-point numbers are left open: `PyFloat` lists what is done with them.
-/

set_option autoImplicit false

namespace Py

/-- The exceptions, with the key or the file that is missing. -/
inductive PyError where
  | typeError
  | keyError (key : String)
  | attributeError
  | overflowError
  | fileNotFoundError (name : String)
  | jsonDecodeError

/-- The operations of `float`.  An integer may be too large to be converted; a comparison with
an integer converts nothing. -/
class PyFloat (F : Type) where
  ofInt : ℤ → Option F
  add : F → F → F
  sub : F → F → F
  mul : F → F → F
  floorDiv : F → F → F
  eq : F → F → Bool
  eqInt : F → ℤ → Bool
  nonneg : F → Bool
  repr : F → String

/-- No floating-point number. -/
instance : PyFloat Empty where
  ofInt _ := none
  add x := nomatch x
  sub x := nomatch x
  mul x := nomatch x
  floorDiv x := nomatch x
  eq x := nomatch x
  eqInt x := nomatch x
  nonneg x := nomatch x
  repr x := nomatch x

/-- The value of a double-precision number, unless it is infinite or no number. -/
def floatValue (x : Float) : Option ℚ :=
  match x.toModel.unpack with
  | .zero _ => some 0
  | .finite sign mantissa exponent _ => some (sign.apply mantissa * 2 ^ exponent)
  | _ => none

/-- The double-precision numbers.  The quotient of `//` is rounded once, as it is when the
divisor is a power of two. -/
instance : PyFloat Float where
  ofInt n := if (Float.ofInt n).isFinite then some (Float.ofInt n) else none
  add := Float.add
  sub := Float.sub
  mul := Float.mul
  floorDiv x y :=
    match floatValue x, floatValue y with
    | some a, some b => Float.ofInt ⌊a / b⌋
    | _, _ => 0.0 / 0.0
  eq := Float.beq
  eqInt x n := floatValue x == some (n : ℚ)
  nonneg x := Float.le 0.0 x
  repr := Float.toString

/-- A number. -/
inductive Num (F : Type) where
  | int (n : ℤ)
  | float (x : F)

namespace Num

variable {F : Type} [PyFloat F]

/-- An operation on two integers, or on two numbers of which one is floating-point. -/
def arith (onInt : ℤ → ℤ → ℤ) (onFloat : F → F → F) : Num F → Num F → Except PyError (Num F)
  | int a, int b => .ok (int (onInt a b))
  | float x, float y => .ok (float (onFloat x y))
  | int a, float y =>
      match PyFloat.ofInt a with
      | some x => .ok (float (onFloat x y))
      | none => .error .overflowError
  | float x, int b =>
      match PyFloat.ofInt b with
      | some y => .ok (float (onFloat x y))
      | none => .error .overflowError

def add : Num F → Num F → Except PyError (Num F) := arith (· + ·) PyFloat.add

def sub : Num F → Num F → Except PyError (Num F) := arith (· - ·) PyFloat.sub

def mul : Num F → Num F → Except PyError (Num F) := arith (· * ·) PyFloat.mul

/-- `//`, by a number that is not zero. -/
def floorDiv : Num F → Num F → Except PyError (Num F) := arith Int.fdiv PyFloat.floorDiv

/-- `==`. -/
def eq : Num F → Num F → Bool
  | int a, int b => a == b
  | int a, float y => PyFloat.eqInt y a
  | float x, int b => PyFloat.eqInt x b
  | float x, float y => PyFloat.eq x y

/-- `>= 0`. -/
def nonneg : Num F → Bool
  | int a => 0 ≤ a
  | float x => PyFloat.nonneg x

/-- `str`. -/
def repr : Num F → String
  | int a => toString a
  | float x => PyFloat.repr x

end Num

/-- A value of a parsed text. -/
inductive Json (F : Type) where
  | none
  | bool (b : Bool)
  | int (n : ℤ)
  | float (x : F)
  | str (s : String)
  | list (items : List (Json F))
  | dict (items : List (String × Json F))

namespace Json

variable {F : Type}

mutual

/-- The value with other floating-point numbers. -/
def map {G : Type} (f : F → G) : Json F → Json G
  | none => none
  | bool b => bool b
  | int n => int n
  | float x => float (f x)
  | str s => str s
  | list items => list (mapItems f items)
  | dict items => dict (mapFields f items)

def mapItems {G : Type} (f : F → G) : List (Json F) → List (Json G)
  | [] => []
  | v :: items => map f v :: mapItems f items

def mapFields {G : Type} (f : F → G) : List (String × Json F) → List (String × Json G)
  | [] => []
  | (key, v) :: items => (key, map f v) :: mapFields f items

end

/-- The value as a number; a truth value is zero or one. -/
def num? : Json F → Option (Num F)
  | bool b => some (.int b.toNat)
  | int n => some (.int n)
  | float x => some (.float x)
  | _ => Option.none

/-- A number as a value. -/
def ofNum : Num F → Json F
  | .int n => int n
  | .float x => float x

/-- The value as an operand of an operation on numbers. -/
def num (v : Json F) : Except PyError (Num F) :=
  match v.num? with
  | some x => .ok x
  | Option.none => .error .typeError

/-- The value of a key, if the dictionary has it. -/
def lookup (key : String) (items : List (String × Json F)) : Option (Json F) :=
  (items.find? fun item => item.1 == key).map Prod.snd

/-- `v[key]`, for a key that is a string. -/
def getItem (v : Json F) (key : String) : Except PyError (Json F) :=
  match v with
  | dict items =>
      match lookup key items with
      | some w => .ok w
      | Option.none => .error (.keyError key)
  | _ => .error .typeError

/-- `v.get(key, default)`. -/
def get (v : Json F) (key : String) (default : Json F) : Except PyError (Json F) :=
  match v with
  | dict items => .ok ((lookup key items).getD default)
  | _ => .error .attributeError

/-- What a loop over `v` runs through: the items of a list, the keys of a dictionary, the
characters of a string. -/
def elements : Json F → Except PyError (List (Json F))
  | list items => .ok items
  | dict items => .ok (items.map fun item => str item.1)
  | str s => .ok (s.toList.map fun c => str c.toString)
  | _ => .error .typeError

/-- `v.endswith(suffix)`. -/
def endsWith (v : Json F) (suffix : String) : Except PyError Bool :=
  match v with
  | str s => .ok (s.endsWith suffix)
  | _ => .error .attributeError

variable [PyFloat F]

/-- `==`, for values of which one is no list and no dictionary. -/
def eq : Json F → Json F → Bool
  | none, none => true
  | str s, str t => s == t
  | v, w =>
      match v.num?, w.num? with
      | some x, some y => x.eq y
      | _, _ => false

/-- `key in v`. -/
def contains (v : Json F) (key : String) : Except PyError Bool :=
  match v with
  | dict items => .ok (lookup key items).isSome
  | list items => .ok (items.any fun w => w.eq (str key))
  | str s => .ok (decide (key.toList <:+: s.toList))
  | _ => .error .typeError

/-- `v * n`, which repeats a list or a string. -/
def mulInt (v : Json F) (n : ℤ) : Except PyError (Json F) :=
  match v with
  | str s => .ok (str (String.join (List.replicate n.toNat s)))
  | list items => .ok (list (List.replicate n.toNat items).flatten)
  | _ =>
      match v.num? with
      | some x => (x.mul (.int n)).map ofNum
      | Option.none => .error .typeError

end Json

end Py
