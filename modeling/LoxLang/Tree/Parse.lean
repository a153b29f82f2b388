import LoxLang.Tree
import LoxLang.Tree.Parser

/-!
# Parsing

`parse` turns tokens into statements by recursive descent.  The grammar, with `X*` for any number
of `X` and `X?` for an optional one, is

* declaration: `class IDENT { function* }`, `fun function`, `var IDENT (= expression)? ;`, statement
* function: `IDENT ( parameters? ) { declaration* }`
* statement: expression `;`, `print` expression `;`, `return` expression`?` `;`, block, `if` and
  `while` with a condition in parentheses, `for ( initializer condition? ; increment? )` statement
* expression: assignment, or the levels `or`, `and`, equality, comparison, term, factor (each
  associating to the left), then the prefix operators, then calls and properties, then primaries.

A mistake inside a declaration ends it: the mistake is reported, the tokens up to the next statement
boundary are skipped (`synchronize`), and parsing goes on, so that every statement that could be
read is returned.  Too many parameters or arguments and a wrong assignment target are only reported.

A parser reads the tokens *before* the end of the input, and speaks of a mistake at the end without
naming a token; `parse` then fills in the line of the end.
-/

namespace LoxLang

namespace Parse

/-! ### Levels of binary operators -/

/-- The levels of binary operators, from the loosest to the tightest. -/
inductive Level where
  | or | and | equality | comparison | term | factor
  deriving DecidableEq, Repr

namespace Level

/-- The level of the operands, or `none` for prefix expressions. -/
def operands : Level → Option Level
  | or => some and
  | and => some equality
  | equality => some comparison
  | comparison => some term
  | term => some factor
  | factor => none

/-- The operators of a level. -/
def operators : Level → List Symbol
  | or => [.orKw]
  | and => [.andKw]
  | equality => [.bangEqual, .equalEqual]
  | comparison => [.greater, .greaterEqual, .less, .lessEqual]
  | term => [.minus, .plus]
  | factor => [.slash, .star]

/-- The tree of an operator and its operands. -/
def node (level : Level) (left : Expr Unit) (op : Token) (right : Expr Unit) : Expr Unit :=
  match level with
  | or | and => .logical left op right
  | _ => .binary left op right

end Level

/-! ### The grammar -/

/-- The parameters of a function after its opening parenthesis, of which `count` are read. -/
def parameters : (fuel count : Nat) → Parser (List Token)
  | 0, _ => starve
  | fuel + 1, count => do
    if maxArity ≤ count then
      report (← peek?) .tooManyParameters
    let name ← expect .identifier .parameterName
    match ← accept .comma with
    | some _ => return name :: (← parameters fuel (count + 1))
    | none => return [name]

/-- The assignment to a target that has been read as an expression; a wrong target is reported at
the equals sign, and stands for the whole. -/
def assignTo (target : Expr Unit) (equals : Token) (value : Expr Unit) : Parser (Expr Unit) :=
  match target with
  | .var label name => pure (.assign label name value)
  | .get object name => pure (.set object name value)
  | _ => do
    report (some equals) .invalidTarget
    pure target

/-- The expression that a single token is. -/
def atom? (t : Token) : Option (Expr Unit) :=
  match t.kind with
  | .number x => some (.literal (.number x))
  | .string s => some (.literal (.string s))
  | .symbol .falseKw => some (.literal (.bool false))
  | .symbol .trueKw => some (.literal (.bool true))
  | .symbol .nilKw => some (.literal .nil)
  | .symbol .thisKw => some (.thisRef () t)
  | .symbol .identifier => some (.var () t)
  | _ => none

mutual

/-- An assignment or anything tighter. -/
def expression : (fuel : Nat) → Parser (Expr Unit)
  | 0 => starve
  | fuel + 1 => do
    let target ← operand fuel (some .or)
    match ← accept .equal with
    | none => pure target
    | some equals => do
      let value ← expression fuel
      assignTo target equals value

/-- The operators of a level between tighter operands, or without a level a prefix expression. -/
def operand : (fuel : Nat) → Option Level → Parser (Expr Unit)
  | 0, _ => starve
  | fuel + 1, none => unary fuel
  | fuel + 1, some level => do
    let left ← operand fuel level.operands
    operandRest fuel level left

/-- The operators of a level and their right operands, after the operand `left`. -/
def operandRest : (fuel : Nat) → Level → Expr Unit → Parser (Expr Unit)
  | 0, _, _ => starve
  | fuel + 1, level, left => do
    match ← acceptAny level.operators with
    | none => pure left
    | some op => do
      let right ← operand fuel level.operands
      operandRest fuel level (level.node left op right)

/-- Prefix operators before a call. -/
def unary : (fuel : Nat) → Parser (Expr Unit)
  | 0 => starve
  | fuel + 1 => do
    match ← acceptAny [.bang, .minus] with
    | some op => return .unary op (← unary fuel)
    | none => do
      let callee ← primary fuel
      callRest fuel callee

/-- Calls and property names after the expression `callee`. -/
def callRest : (fuel : Nat) → Expr Unit → Parser (Expr Unit)
  | 0, _ => starve
  | fuel + 1, callee => do
    if ← accepts .leftParen then
      let args ← if ← sees .rightParen then pure [] else arguments fuel 0
      let paren ← expect .rightParen .argumentsEnd
      callRest fuel (.call callee paren args)
    else if ← accepts .dot then
      let name ← expect .identifier .propertyName
      callRest fuel (.get callee name)
    else
      pure callee

/-- The arguments of a call after its opening parenthesis, of which `count` are read. -/
def arguments : (fuel count : Nat) → Parser (List (Expr Unit))
  | 0, _ => starve
  | fuel + 1, count => do
    if maxArity ≤ count then
      report (← peek?) .tooManyArguments
    let arg ← expression fuel
    if ← accepts .comma then
      return arg :: (← arguments fuel (count + 1))
    else
      return [arg]

/-- A single token, or an expression in parentheses. -/
def primary : (fuel : Nat) → Parser (Expr Unit)
  | 0 => starve
  | fuel + 1 => do
    match ← take? atom? with
    | some e => pure e
    | none => do
      if ← accepts .leftParen then
        let inner ← expression fuel
        skip .rightParen .groupEnd
        return .group inner
      else
        fail (.expected .expression)

end

/-- A variable declaration after its keyword. -/
def varDeclaration (fuel : Nat) : Parser (Stmt Unit) := do
  let name ← expect .identifier .variableName
  let value? ← if ← accepts .equal then some <$> expression fuel else pure none
  skip .semicolon .variableEnd
  return .var name value?

/-- An expression and its semicolon. -/
def expressionStatement (fuel : Nat) : Parser (Stmt Unit) := do
  let e ← expression fuel
  skip .semicolon .expressionEnd
  return .expr e

/-- The first clause of a `for` loop with its semicolon. -/
def forInitializer (fuel : Nat) : Parser (Option (Stmt Unit)) := do
  if ← accepts .semicolon then pure none
  else if ← accepts .varKw then some <$> varDeclaration fuel
  else some <$> expressionStatement fuel

/-- An expression, unless the symbol that would follow it stands here. -/
def expressionBefore (fuel : Nat) (s : Symbol) : Parser (Option (Expr Unit)) := do
  if ← sees s then pure none else some <$> expression fuel

mutual

/-- Declarations up to the end of the input, or in a block up to a closing brace; each mistake
costs the declaration it is found in. -/
def declarations : (fuel : Nat) → (inBlock : Bool) → Parser (List (Stmt Unit))
  | 0, _ => starve
  | fuel + 1, inBlock => do
    if ← (if inBlock then atClose else atEnd) then
      return []
    else
      let first? ← recover (declaration fuel)
      return first?.toList ++ (← declarations fuel inBlock)

/-- A class, a function, a variable, or a statement. -/
def declaration : (fuel : Nat) → Parser (Stmt Unit)
  | 0 => starve
  | fuel + 1 => do
    if ← accepts .classKw then
      let name ← expect .identifier .className
      skip .leftBrace .classBody
      let methods ← methods fuel
      skip .rightBrace .classEnd
      return .classDecl name methods
    else if ← accepts .funKw then
      return .function (← function fuel .function)
    else if ← accepts .varKw then
      varDeclaration fuel
    else
      statement fuel

/-- Methods up to a closing brace or the end of the input. -/
def methods : (fuel : Nat) → Parser (List (Function Unit))
  | 0 => starve
  | fuel + 1 => do
    if ← atClose then
      return []
    else
      let first ← function fuel .method
      return first :: (← methods fuel)

/-- A function from its name on. -/
def function : (fuel : Nat) → FunctionKind → Parser (Function Unit)
  | 0, _ => starve
  | fuel + 1, kind => do
    let name ← expect .identifier (.functionName kind)
    skip .leftParen (.parameters kind)
    let params ← if ← sees .rightParen then pure [] else parameters fuel 0
    skip .rightParen .parametersEnd
    skip .leftBrace (.functionBody kind)
    return ⟨(), name, params, ← block fuel⟩

/-- A block from after its opening brace on. -/
def block : (fuel : Nat) → Parser (List (Stmt Unit))
  | 0 => starve
  | fuel + 1 => do
    let body ← declarations fuel true
    skip .rightBrace .blockEnd
    return body

/-- A statement that declares nothing.  An `else` belongs to the nearest `if`. -/
def statement : (fuel : Nat) → Parser (Stmt Unit)
  | 0 => starve
  | fuel + 1 => do
    if ← accepts .forKw then
      skip .leftParen .forClauses
      let initializer? ← forInitializer fuel
      let condition? ← expressionBefore fuel .semicolon
      skip .semicolon .conditionEnd
      let increment? ← expressionBefore fuel .rightParen
      skip .rightParen .clausesEnd
      return .forLoop initializer? condition? increment? (← statement fuel)
    else if ← accepts .ifKw then
      skip .leftParen .ifCondition
      let condition ← expression fuel
      skip .rightParen .ifConditionEnd
      let thenBranch ← statement fuel
      if ← accepts .elseKw then
        return .ifElse condition thenBranch (← statement fuel)
      else
        return .ifThen condition thenBranch
    else if ← accepts .printKw then
      let value ← expression fuel
      skip .semicolon .printEnd
      return .print value
    else if ← accepts .whileKw then
      skip .leftParen .whileCondition
      let condition ← expression fuel
      skip .rightParen .whileConditionEnd
      return .whileLoop condition (← statement fuel)
    else if ← accepts .leftBrace then
      return .block (← block fuel)
    else match ← accept .returnKw with
      | some keyword => do
        let value? ← expressionBefore fuel .semicolon
        skip .semicolon .returnEnd
        return .ret keyword value?
      | none => expressionStatement fuel

end

/-- Fuel for these tokens: no more than sixteen rules are entered between one token and the next. -/
def fuelFor (tokens : List Token) : Nat := 16 * (tokens.length + 1)

/-- The mistake with its place; a mistake at the end of the input is placed on the given line. -/
def Mistake.locate (endLine : Nat) (m : Mistake) : SyntaxError :=
  ⟨match m.at? with
    | some t => t.site
    | none => ⟨endLine, none⟩, m.fault⟩

end Parse

/-- What parsing yields: the statements that could be read, and the errors in the order in which
they were found. -/
structure Parsed where
  statements : List (Stmt Unit)
  errors : List SyntaxError

/-- Parses a token sequence up to the first end of input in it.  Without one, the input ends on
line 0. -/
def parse (tokens : List Token) : Parsed :=
  let body := tokens.takeWhile (!·.isEnd)
  let endLine := ((tokens.find? (·.isEnd)).map Token.line).getD 0
  match Parse.declarations (Parse.fuelFor body) false body with
  | .done statements _ reported => ⟨statements, reported.map (·.locate endLine)⟩
  | .failed _ _ reported => ⟨[], reported.map (·.locate endLine)⟩
  | .starved => ⟨[], []⟩

end LoxLang
