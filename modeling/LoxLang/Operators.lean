import LoxLang.Tree
import LoxLang.Value

/-!
# Operators

What the prefix and binary operators do to values, and the faults of a running program.  Which
operator a token is depends on its kind; its text is only quoted in messages.
-/

namespace LoxLang

/-- One of the two operands of a binary operator. -/
inductive Side where
  | left
  | right
  deriving DecidableEq, Repr

/-- The word that starts a message about an operand. -/
def Side.word : Side → String
  | left => "Left"
  | right => "Right"

/-- Why a program cannot go on. -/
inductive RuntimeFault where
  | undefinedVariable (name : String)
  | undefinedProperty (name : String)
  | propertyOfNonInstance
  | fieldOfNonInstance
  | negatedNonNumber (op : String)
  | unaddable
  | nonNumber (side : Side) (op typeName : String)
  | unknownPrefixOperator
  | unknownBinaryOperator
  | tooManyCalls
  | wrongArity (expected got : Nat)
  | uncallable
  deriving DecidableEq, Repr

/-- The wording of the fault. -/
def RuntimeFault.message : RuntimeFault → String
  | undefinedVariable name => s!"Undefined variable '{name}'."
  | undefinedProperty name => s!"Undefined property '{name}'."
  | propertyOfNonInstance => "Only instances have properties."
  | fieldOfNonInstance => "Only instances have fields."
  | negatedNonNumber op => s!"Operand of '{op}' must be a number."
  | unaddable => "Operands of '+' must be two numbers or two strings."
  | nonNumber side op typeName =>
    s!"{side.word} operand of '{op}' must be a number, got {typeName}."
  | unknownPrefixOperator => "Invalid unary operator."
  | unknownBinaryOperator => "Invalid binary operator."
  | tooManyCalls => "Stack overflow."
  | wrongArity expected got => s!"Expected {expected} arguments but got {got}."
  | uncallable => "Can only call functions and classes."

namespace Operators

/-- The value of a prefix operator. -/
def applyUnary (op : Token) (v : Value) : Except RuntimeFault Value :=
  match op.kind with
  | .symbol .minus => match v with
    | .number x => .ok (.number (-x))
    | _ => .error (.negatedNonNumber op.lexeme)
  | .symbol .bang => .ok (.bool !v.isTruthy)
  | _ => .error .unknownPrefixOperator

/-- Two operands that have to be numbers; the left one is looked at first. -/
def numbers (op : Token) (left right : Value) : Except RuntimeFault (Float × Float) :=
  match left, right with
  | .number a, .number b => .ok (a, b)
  | .number _, _ => .error (.nonNumber .right op.lexeme right.typeName)
  | _, _ => .error (.nonNumber .left op.lexeme left.typeName)

/-- The sum of two numbers, or two strings one after the other. -/
def add (left right : Value) : Except RuntimeFault Value :=
  match left, right with
  | .number a, .number b => .ok (.number (a + b))
  | .string a, .string b => .ok (.string (a ++ b))
  | _, _ => .error .unaddable

/-- The value of a binary operator. -/
def applyBinary (op : Token) (left right : Value) : Except RuntimeFault Value :=
  match op.kind with
  | .symbol .plus => add left right
  | .symbol .minus => do let (a, b) ← numbers op left right; return .number (a - b)
  | .symbol .star => do let (a, b) ← numbers op left right; return .number (a * b)
  | .symbol .slash => do let (a, b) ← numbers op left right; return .number (a / b)
  | .symbol .greater => do let (a, b) ← numbers op left right; return .bool (decide (b < a))
  | .symbol .greaterEqual => do let (a, b) ← numbers op left right; return .bool (decide (b ≤ a))
  | .symbol .less => do let (a, b) ← numbers op left right; return .bool (decide (a < b))
  | .symbol .lessEqual => do let (a, b) ← numbers op left right; return .bool (decide (a ≤ b))
  | .symbol .equalEqual => .ok (.bool (left.same right))
  | .symbol .bangEqual => .ok (.bool !(left.same right))
  | _ => .error .unknownBinaryOperator

end Operators

end LoxLang
