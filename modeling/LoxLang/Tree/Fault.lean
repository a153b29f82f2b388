import LoxLang.Token

/-!
# Syntax errors

Why a token sequence is no program: something the grammar asks for is missing (`Expectation`),
there are too many parameters or arguments, or an assignment has a wrong target.  A `SyntaxError`
is such a fault with the place it is reported at.
-/

namespace LoxLang

/-- Whether a function stands by itself or in a class. -/
inductive FunctionKind where
  | function
  | method
  deriving DecidableEq, Repr

/-- The word for the kind of a function. -/
def FunctionKind.word : FunctionKind → String
  | function => "function"
  | method => "method"

/-- What the grammar asks for where something else stands. -/
inductive Expectation where
  | className | classBody | classEnd
  | functionName (kind : FunctionKind)
  | parameters (kind : FunctionKind)
  | parameterName | parametersEnd
  | functionBody (kind : FunctionKind)
  | variableName | variableEnd
  | forClauses | conditionEnd | clausesEnd
  | ifCondition | ifConditionEnd
  | printEnd | returnEnd
  | whileCondition | whileConditionEnd
  | expressionEnd | blockEnd
  | propertyName | argumentsEnd | groupEnd
  | expression
  deriving DecidableEq, Repr

/-- What is expected, in words. -/
def Expectation.describe : Expectation → String
  | className => "class name"
  | classBody => "'\x7b' before class body"
  | classEnd => "'\x7d' after class body"
  | functionName kind => kind.word ++ " name"
  | parameters kind => "'(' after " ++ kind.word ++ " name"
  | parameterName => "parameter name"
  | parametersEnd => "')' after parameters"
  | functionBody kind => "'\x7b' before " ++ kind.word ++ " body"
  | variableName => "variable name"
  | variableEnd => "';' after variable declaration"
  | forClauses => "'(' after 'for'"
  | conditionEnd => "';' after loop condition"
  | clausesEnd => "')' after for clauses"
  | ifCondition => "'(' after 'if'"
  | ifConditionEnd => "')' after if condition"
  | printEnd => "';' after value"
  | returnEnd => "';' after return value"
  | whileCondition => "'(' after 'while'"
  | whileConditionEnd => "')' after condition"
  | expressionEnd => "';' after expression"
  | blockEnd => "'\x7d' after block"
  | propertyName => "property name after '.'"
  | argumentsEnd => "')' after arguments"
  | groupEnd => "')' after expression"
  | expression => "expression"

/-- The most parameters a function may have, and the most arguments of a call. -/
def maxArity : Nat := 255

/-- Why a token sequence is no program. -/
inductive SyntaxFault where
  | expected (what : Expectation)
  | tooManyParameters
  | tooManyArguments
  | invalidTarget
  deriving DecidableEq, Repr

/-- The wording of the fault. -/
def SyntaxFault.message : SyntaxFault → String
  | expected what => "Expect " ++ what.describe ++ "."
  | tooManyParameters => s!"Can't have more than {maxArity} parameters."
  | tooManyArguments => s!"Can't have more than {maxArity} arguments."
  | invalidTarget => "Invalid assignment target."

/-- A fault and the place it is reported at. -/
structure SyntaxError where
  site : Site
  fault : SyntaxFault
  deriving DecidableEq, Repr

end LoxLang
