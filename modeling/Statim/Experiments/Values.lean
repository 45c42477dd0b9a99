import Mathlib.Data.Rat.Defs
import Mathlib.Data.Int.Order.Basic

/-!
# Values of the configuration

The configuration holds JSON literals: scalars and lists of scalars.  Numbers are
integers or floats; what the scripts use of floats is a class, so that the results about
the expansion hold for every floating-point format, and those about the recorded
parameters for exact decimals.
-/

namespace Statim.Experiments

/-- A number: an `int` or a `float`. -/
inductive Number (φ : Type)
  | int (n : ℤ)
  | float (x : φ)
  deriving DecidableEq

/-- What the scripts use of the numbers of the interpreter. -/
class FloatArithmetic (φ : Type) where
  /-- The float that a decimal literal denotes. -/
  literal : ℚ → φ
  /-- `math.isfinite`; an integer too large for a float is not finite. -/
  isfinite : Number φ → Bool
  le : Number φ → Number φ → Bool
  add : Number φ → Number φ → Number φ
  sub : Number φ → Number φ → Number φ
  mul : Number φ → Number φ → Number φ
  div : Number φ → Number φ → Number φ
  /-- The built-in `round` to an integer. -/
  round : Number φ → Number φ
  /-- `math.isclose` with `rel_tol=0` and an absolute tolerance. -/
  isclose : Number φ → Number φ → φ → Bool
  /-- `format(x, ".15g")`. -/
  format : Number φ → String
  /-- `finite_number` of a text. -/
  parse : String → Option φ

namespace Number

variable {φ : Type} [FloatArithmetic φ]

def le (x y : Number φ) : Bool :=
  FloatArithmetic.le x y

def lt (x y : Number φ) : Bool :=
  !le y x

def eq (x y : Number φ) : Bool :=
  le x y && le y x

/-- `min(x, y)`. -/
def min (x y : Number φ) : Number φ :=
  if lt y x then y else x

end Number

/-- A JSON literal that is no list. -/
inductive Scalar (φ : Type)
  | null
  | bool (b : Bool)
  | number (x : Number φ)
  | str (s : String)
  /-- An object, or a list inside a list, with its JSON text: no check accepts one. -/
  | nested (text : String)
  deriving DecidableEq

/-- A JSON literal of the configuration. -/
inductive Value (φ : Type)
  | item (x : Scalar φ)
  | array (items : List (Scalar φ))
  deriving DecidableEq

namespace Scalar

variable {φ : Type}

/-- `item in names`. -/
def isIn (names : List String) : Scalar φ → Bool
  | str s => s ∈ names
  | _ => false

/-- `item == name`. -/
def isStr (name : String) (x : Scalar φ) : Bool :=
  x.isIn [name]

def isBool : Scalar φ → Bool
  | bool _ => true
  | _ => false

def isTrue : Scalar φ → Bool
  | bool b => b
  | _ => false

def isString : Scalar φ → Bool
  | str _ => true
  | _ => false

/-- The number of a numeric literal. -/
def toNumber : Scalar φ → Number φ
  | number x => x
  | _ => .int 0

/-- The value of an integer literal. -/
def toInt : Scalar φ → ℤ
  | number (.int n) => n
  | _ => 0

/-- The text of a string literal. -/
def toStr : Scalar φ → String
  | str s => s
  | _ => ""

/-- An integer literal. -/
def int (n : ℤ) : Scalar φ :=
  number (.int n)

/-- `x == y`: numbers are compared by value, also as `bool`. -/
def eq [FloatArithmetic φ] : Scalar φ → Scalar φ → Bool
  | null, null => true
  | str s, str t => s = t
  | nested s, nested t => s = t
  | bool b, bool c => b = c
  | bool b, number y => y.eq (.int b.toNat)
  | number x, bool c => x.eq (.int c.toNat)
  | number x, number y => x.eq y
  | _, _ => false

@[simp] theorem toInt_int (n : ℤ) : (int n : Scalar φ).toInt = n := rfl

theorem isIn_eq_true {names : List String} {x : Scalar φ} :
    x.isIn names = true ↔ ∃ s ∈ names, x = str s := by
  cases x with
  | str s => simp [isIn]
  | null => simp [isIn]
  | bool b => simp [isIn]
  | number x => simp [isIn]
  | nested text => simp [isIn]

theorem isBool_eq_true {x : Scalar φ} : x.isBool = true ↔ ∃ b, x = bool b := by
  cases x with
  | bool b => simp [isBool]
  | null => simp [isBool]
  | str s => simp [isBool]
  | number x => simp [isBool]
  | nested text => simp [isBool]

theorem isStr_eq_true {name : String} {x : Scalar φ} : x.isStr name = true ↔ x = str name := by
  rw [isStr, isIn_eq_true]
  simp

@[simp] theorem isStr_str (s name : String) :
    (str s : Scalar φ).isStr name = decide (s = name) := by
  simp [isStr, isIn]

end Scalar

namespace Value

variable {φ : Type}

/-- `values(value)`. -/
def values : Value φ → List (Scalar φ)
  | item x => [x]
  | array items => items

/-- The literal of a setting that is no list. -/
def scalar : Value φ → Scalar φ
  | item x => x
  | array _ => .null

def isArray : Value φ → Bool
  | item _ => false
  | array _ => true

theorem scalar_mem_values {v : Value φ} (h : v.isArray = false) : v.scalar ∈ v.values := by
  cases v with
  | item x => exact List.mem_singleton_self x
  | array items => cases h

end Value

end Statim.Experiments
