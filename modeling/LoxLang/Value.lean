import LoxLang.Number

/-!
# Values

The values of a running program.  Functions, classes and instances live on the heap and are values
by reference; two references are the same value exactly when they are the same reference.

* `Value.isTruthy`: what counts as true in a condition;
* `Value.same`: the equality of the language, under which NaN differs from itself.
-/

namespace LoxLang

/-- The number of a frame on the heap. -/
abbrev FrameId := Nat

/-- The number of a function on the heap. -/
abbrev FunctionId := Nat

/-- The number of a class on the heap. -/
abbrev ClassId := Nat

/-- The number of an instance on the heap. -/
abbrev InstanceId := Nat

/-- The functions that come with the language. -/
inductive Native where
  /-- The time in seconds. -/
  | clock
  deriving DecidableEq, Repr

namespace Native

/-- The name of the global variable that holds the function. -/
def name : Native → String
  | clock => "clock"

/-- How many arguments the function takes. -/
def arity : Native → Nat
  | clock => 0

/-- Every native function. -/
def all : List Native := [clock]

end Native

/-- A value. -/
inductive Value where
  | nil
  | bool (b : Bool)
  | number (x : Float)
  | string (s : String)
  | native (n : Native)
  | functionRef (id : FunctionId)
  | classRef (id : ClassId)
  | instanceRef (id : InstanceId)
  deriving Repr, Inhabited

namespace Value

/-- `nil` and `false` are false in a condition, and everything else is true. -/
def isTruthy : Value → Bool
  | nil => false
  | bool b => b
  | _ => true

/-- The name of a value's type. -/
def typeName : Value → String
  | nil => "nil"
  | bool _ => "boolean"
  | number _ => "number"
  | string _ => "string"
  | native _ => "function"
  | functionRef _ => "function"
  | classRef _ => "class"
  | instanceRef _ => "instance"

/-- The equality of the language: values of different types differ, numbers compare as numbers, and
references by what they refer to. -/
def same : Value → Value → Bool
  | nil, nil => true
  | bool a, bool b => a == b
  | number a, number b => a == b
  | string a, string b => a == b
  | native a, native b => a == b
  | functionRef a, functionRef b => a == b
  | classRef a, classRef b => a == b
  | instanceRef a, instanceRef b => a == b
  | _, _ => false

/-- Two values that may be missing are the same if both are missing, or both are there and the
same. -/
def sameOption : Option Value → Option Value → Bool
  | none, none => true
  | some a, some b => a.same b
  | _, _ => false

end Value

end LoxLang
