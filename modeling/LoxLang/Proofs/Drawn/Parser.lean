import LoxLang.Tree.Label
import LoxLang.Tree.Parse

/-!
# Numbers drawn while parsing

`parse` builds trees without labels, and they are numbered when the whole source has been read.  A parser
can also draw a number for each node that has a label, at the moment when it builds the node (`Drawing`).
Such a parser draws numbers that no tree has in the end: a variable that turns out to be the target of an
assignment loses its number to the assignment, and what recovery skips loses all of them.

`parseDrawing` is that parser for whole token sequences.  It has the rules of the grammar in the order in
which `parse` has them.
-/

namespace LoxLang

namespace Parse

/-- A parser that draws numbers from a counter.  It never puts one back, however it ends. -/
def Drawing (α : Type) := NodeId → List Token → Reply α × NodeId

namespace Drawing

variable {α β : Type}

instance : Monad Drawing where
  pure a := fun n tokens => (.done a tokens [], n)
  bind p f := fun n tokens => match p n tokens with
    | (.done a rest reported, n) =>
      let (reply, n) := f a n rest
      (reply.after reported, n)
    | (.failed e rest reported, n) => (.failed e rest reported, n)
    | (.starved, n) => (.starved, n)

/-- A parser that builds no node draws no number. -/
instance : MonadLift Parser Drawing := ⟨fun p n tokens => (p tokens, n)⟩

/-- The next number. -/
def draw : Drawing NodeId := fun n tokens => (.done n tokens [], n + 1)

/-- Reports the mistake that ends `p`, if one does, and skips to a statement boundary. -/
def recover (p : Drawing α) : Drawing (Option α) := fun n tokens =>
  match p n tokens with
  | (.done a rest reported, n) => (.done (some a) rest reported, n)
  | (.failed e rest reported, n) => (.done none (synchronize rest) (reported ++ [e]), n)
  | (.starved, n) => (.starved, n)

/-! ### Expressions -/

/-- The tree of an operator and its operands. -/
def node (level : Level) (left : Expr NodeId) (op : Token) (right : Expr NodeId) : Expr NodeId :=
  match level with
  | .or | .and => .logical left op right
  | _ => .binary left op right

/-- The assignment to a target that has been read as an expression.  A variable gives way to an
assignment with a number of its own. -/
def assignTo (target : Expr NodeId) (equals : Token) (value : Expr NodeId) :
    Drawing (Expr NodeId) :=
  match target with
  | .var _ name => return .assign (← draw) name value
  | .get object name => pure (.set object name value)
  | _ => do
    report (some equals) .invalidTarget
    pure target

/-- The expression that a single token is. -/
def atom? (t : Token) : Option (Drawing (Expr NodeId)) :=
  match t.kind with
  | .number x => some (pure (.literal (.number x)))
  | .string s => some (pure (.literal (.string s)))
  | .symbol .falseKw => some (pure (.literal (.bool false)))
  | .symbol .trueKw => some (pure (.literal (.bool true)))
  | .symbol .nilKw => some (pure (.literal .nil))
  | .symbol .thisKw => some do return .thisRef (← draw) t
  | .symbol .identifier => some do return .var (← draw) t
  | _ => none

mutual

/-- An assignment or anything tighter. -/
def expression : (fuel : Nat) → Drawing (Expr NodeId)
  | 0 => starve
  | fuel + 1 => do
    let target ← operand fuel (some .or)
    match ← accept .equal with
    | none => pure target
    | some equals => do
      let value ← expression fuel
      assignTo target equals value

/-- The operators of a level between tighter operands, or without a level a prefix expression. -/
def operand : (fuel : Nat) → Option Level → Drawing (Expr NodeId)
  | 0, _ => starve
  | fuel + 1, none => unary fuel
  | fuel + 1, some level => do
    let left ← operand fuel level.operands
    operandRest fuel level left

/-- The operators of a level and their right operands, after the operand `left`. -/
def operandRest : (fuel : Nat) → Level → Expr NodeId → Drawing (Expr NodeId)
  | 0, _, _ => starve
  | fuel + 1, level, left => do
    match ← acceptAny level.operators with
    | none => pure left
    | some op => do
      let right ← operand fuel level.operands
      operandRest fuel level (node level left op right)

/-- Prefix operators before a call. -/
def unary : (fuel : Nat) → Drawing (Expr NodeId)
  | 0 => starve
  | fuel + 1 => do
    match ← acceptAny [.bang, .minus] with
    | some op => return .unary op (← unary fuel)
    | none => do
      let callee ← primary fuel
      callRest fuel callee

/-- Calls and property names after the expression `callee`. -/
def callRest : (fuel : Nat) → Expr NodeId → Drawing (Expr NodeId)
  | 0, _ => starve
  | fuel + 1, callee => do
    if ← accepts .leftParen then
      let args ← if ← sees .rightParen then pure [] else arguments fuel 0
      let paren ← expect .rightParen .argumentsEnd
      callRest fuel (.call callee paren args)
    else if ← accepts .dot then
      let name ← expect .identifier .propertyName
      callRest fuel (.get callee name)
    else
      pure callee

/-- The arguments of a call after its opening parenthesis, of which `count` are read. -/
def arguments : (fuel count : Nat) → Drawing (List (Expr NodeId))
  | 0, _ => starve
  | fuel + 1, count => do
    if maxArity ≤ count then
      report (← peek?) .tooManyArguments
    let arg ← expression fuel
    if ← accepts .comma then
      return arg :: (← arguments fuel (count + 1))
    else
      return [arg]

/-- A single token, or an expression in parentheses. -/
def primary : (fuel : Nat) → Drawing (Expr NodeId)
  | 0 => starve
  | fuel + 1 => do
    match ← take? atom? with
    | some e => e
    | none => do
      if ← accepts .leftParen then
        let inner ← expression fuel
        skip .rightParen .groupEnd
        return .group inner
      else
        fail (.expected .expression)

end

/-! ### Statements -/

/-- A variable declaration after its keyword. -/
def varDeclaration (fuel : Nat) : Drawing (Stmt NodeId) := do
  let name ← expect .identifier .variableName
  let value? ← if ← accepts .equal then some <$> expression fuel else pure none
  skip .semicolon .variableEnd
  return .var name value?

/-- An expression and its semicolon. -/
def expressionStatement (fuel : Nat) : Drawing (Stmt NodeId) := do
  let e ← expression fuel
  skip .semicolon .expressionEnd
  return .expr e

/-- The first clause of a `for` loop with its semicolon. -/
def forInitializer (fuel : Nat) : Drawing (Option (Stmt NodeId)) := do
  if ← accepts .semicolon then pure none
  else if ← accepts .varKw then some <$> varDeclaration fuel
  else some <$> expressionStatement fuel

/-- An expression, unless the symbol that would follow it stands here. -/
def expressionBefore (fuel : Nat) (s : Symbol) : Drawing (Option (Expr NodeId)) := do
  if ← sees s then pure none else some <$> expression fuel

mutual

/-- Declarations up to the end of the input, or in a block up to a closing brace; each mistake
costs the declaration it is found in. -/
def declarations : (fuel : Nat) → (inBlock : Bool) → Drawing (List (Stmt NodeId))
  | 0, _ => starve
  | fuel + 1, inBlock => do
    if ← (if inBlock then atClose else atEnd) then
      return []
    else
      let first? ← recover (declaration fuel)
      return first?.toList ++ (← declarations fuel inBlock)

/-- A class, a function, a variable, or a statement. -/
def declaration : (fuel : Nat) → Drawing (Stmt NodeId)
  | 0 => starve
  | fuel + 1 => do
    if ← accepts .classKw then
      let name ← expect .identifier .className
      skip .leftBrace .classBody
      let methods ← methods fuel
      skip .rightBrace .classEnd
      return .classDecl name methods
    else if ← accepts .funKw then
      return .function (← function fuel .function)
    else if ← accepts .varKw then
      varDeclaration fuel
    else
      statement fuel

/-- Methods up to a closing brace or the end of the input. -/
def methods : (fuel : Nat) → Drawing (List (Function NodeId))
  | 0 => starve
  | fuel + 1 => do
    if ← atClose then
      return []
    else
      let first ← function fuel .method
      return first :: (← methods fuel)

/-- A function from its name on.  It gets its number when its body has been read. -/
def function : (fuel : Nat) → FunctionKind → Drawing (Function NodeId)
  | 0, _ => starve
  | fuel + 1, kind => do
    let name ← expect .identifier (.functionName kind)
    skip .leftParen (.parameters kind)
    let params ← if ← sees .rightParen then pure [] else parameters fuel 0
    skip .rightParen .parametersEnd
    skip .leftBrace (.functionBody kind)
    let body ← block fuel
    return ⟨← draw, name, params, body⟩

/-- A block from after its opening brace on. -/
def block : (fuel : Nat) → Drawing (List (Stmt NodeId))
  | 0 => starve
  | fuel + 1 => do
    let body ← declarations fuel true
    skip .rightBrace .blockEnd
    return body

/-- A statement that declares nothing.  An `else` belongs to the nearest `if`. -/
def statement : (fuel : Nat) → Drawing (Stmt NodeId)
  | 0 => starve
  | fuel + 1 => do
    if ← accepts .forKw then
      skip .leftParen .forClauses
      let initializer? ← forInitializer fuel
      let condition? ← expressionBefore fuel .semicolon
      skip .semicolon .conditionEnd
      let increment? ← expressionBefore fuel .rightParen
      skip .rightParen .clausesEnd
      return .forLoop initializer? condition? increment? (← statement fuel)
    else if ← accepts .ifKw then
      skip .leftParen .ifCondition
      let condition ← expression fuel
      skip .rightParen .ifConditionEnd
      let thenBranch ← statement fuel
      if ← accepts .elseKw then
        return .ifElse condition thenBranch (← statement fuel)
      else
        return .ifThen condition thenBranch
    else if ← accepts .printKw then
      let value ← expression fuel
      skip .semicolon .printEnd
      return .print value
    else if ← accepts .whileKw then
      skip .leftParen .whileCondition
      let condition ← expression fuel
      skip .rightParen .whileConditionEnd
      return .whileLoop condition (← statement fuel)
    else if ← accepts .leftBrace then
      return .block (← block fuel)
    else match ← accept .returnKw with
      | some keyword => do
        let value? ← expressionBefore fuel .semicolon
        skip .semicolon .returnEnd
        return .ret keyword value?
      | none => expressionStatement fuel

end

end Drawing

end Parse

/-- What parsing yields if it draws its numbers: the statements that could be read, the errors in the
order in which they were found, and the next unused number. -/
structure Drawn where
  statements : List (Stmt NodeId)
  errors : List SyntaxError
  nextId : NodeId

/-- Parses a token sequence as `parse` does, and draws numbers from the given one on. -/
def parseDrawing (nextId : NodeId) (tokens : List Token) : Drawn :=
  let body := tokens.takeWhile (!·.isEnd)
  let endLine := ((tokens.find? (·.isEnd)).map Token.line).getD 0
  match Parse.Drawing.declarations (Parse.fuelFor body) false nextId body with
  | (.done statements _ reported, nextId) => ⟨statements, reported.map (·.locate endLine), nextId⟩
  | (.failed _ _ reported, nextId) => ⟨[], reported.map (·.locate endLine), nextId⟩
  | (.starved, nextId) => ⟨[], [], nextId⟩

end LoxLang
