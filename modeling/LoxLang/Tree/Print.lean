import LoxLang.Tree

/-!
# Trees as text

`Expr.render` and `Stmt.render` write a tree in nested parentheses with the operator in front.  The
text depends on the shape of the tree alone, never on labels or lines, and a string literal stands
without its quotes.
-/

namespace LoxLang

/-- The text of a literal. -/
def Literal.render : Literal → String
  | nil => "nil"
  | bool b => if b then "true" else "false"
  | number x => Number.literal x
  | string s => s

variable {α : Type}

mutual

/-- The text of an expression. -/
def Expr.render : Expr α → String
  | .literal value => value.render
  | .group inner => "(group " ++ inner.render ++ ")"
  | .unary op operand => "(" ++ op.lexeme ++ " " ++ operand.render ++ ")"
  | .binary left op right => "(" ++ op.lexeme ++ " " ++ left.render ++ " " ++ right.render ++ ")"
  | .logical left op right => "(" ++ op.lexeme ++ " " ++ left.render ++ " " ++ right.render ++ ")"
  | .var _ name => name.lexeme
  | .assign _ name value => "(= " ++ name.lexeme ++ " " ++ value.render ++ ")"
  | .call callee _ args => "(call " ++ callee.render ++ Expr.renderEach args ++ ")"
  | .get object name => "(. " ++ object.render ++ " " ++ name.lexeme ++ ")"
  | .set object name value =>
    "(= (. " ++ object.render ++ " " ++ name.lexeme ++ ") " ++ value.render ++ ")"
  | .thisRef _ _ => "this"

/-- The texts of expressions, each after a space. -/
def Expr.renderEach : List (Expr α) → String
  | [] => ""
  | e :: es => " " ++ e.render ++ Expr.renderEach es

end

mutual

/-- The text of a statement. -/
def Stmt.render : Stmt α → String
  | .expr e => "(; " ++ e.render ++ ")"
  | .print e => "(print " ++ e.render ++ ")"
  | .var name none => "(var " ++ name.lexeme ++ ")"
  | .var name (some value) => "(var " ++ name.lexeme ++ " " ++ value.render ++ ")"
  | .block body => "(block" ++ Stmt.renderEach body ++ ")"
  | .ifThen condition thenBranch => "(if " ++ condition.render ++ " " ++ thenBranch.render ++ ")"
  | .ifElse condition thenBranch elseBranch =>
    "(if-else " ++ condition.render ++ " " ++ thenBranch.render ++ " " ++ elseBranch.render ++ ")"
  | .whileLoop condition body => "(while " ++ condition.render ++ " " ++ body.render ++ ")"
  | .function decl => Stmt.renderFunction "fun" decl
  | .ret _ none => "(return)"
  | .ret _ (some value) => "(return " ++ value.render ++ ")"
  | .classDecl name methods => "(class " ++ name.lexeme ++ Stmt.renderMethods methods ++ ")"

/-- The texts of statements, each after a space. -/
def Stmt.renderEach : List (Stmt α) → String
  | [] => ""
  | s :: ss => " " ++ s.render ++ Stmt.renderEach ss

/-- The text of a function after the given tag: name, parameters, body. -/
def Stmt.renderFunction (tag : String) : FunDecl α (Stmt α) → String
  | ⟨_, name, params, body⟩ =>
    "(" ++ tag ++ " " ++ name.lexeme ++ " (" ++ " ".intercalate (params.map Token.lexeme) ++ ")" ++
      Stmt.renderEach body ++ ")"

/-- The texts of methods, each after a space. -/
def Stmt.renderMethods : List (FunDecl α (Stmt α)) → String
  | [] => ""
  | m :: ms => " " ++ Stmt.renderFunction "method" m ++ Stmt.renderMethods ms

end

end LoxLang
