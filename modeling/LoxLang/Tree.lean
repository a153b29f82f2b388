import LoxLang.Token

/-!
# Syntax trees

`Expr α` and `Stmt α` are the trees of a program.  Every occurrence of a name that stands for a
variable (a read, an assignment, `this`) and every function declaration carries a label of type `α`:
nothing (`Unit`) in a freshly parsed tree, a number once they are told apart.

Operators and names are kept as tokens, because error messages quote them.  There is no `for`
statement: `Stmt.forLoop` builds the block and the `while` loop that it stands for.
-/

namespace LoxLang

/-- The value of a literal. -/
inductive Literal where
  | nil
  | bool (b : Bool)
  | number (x : Float)
  | string (s : String)

/-- An expression. -/
inductive Expr (α : Type) where
  | literal (value : Literal)
  | group (inner : Expr α)
  | unary (op : Token) (operand : Expr α)
  | binary (left : Expr α) (op : Token) (right : Expr α)
  /-- `and` and `or`, which evaluate the right operand only if the left one does not decide. -/
  | logical (left : Expr α) (op : Token) (right : Expr α)
  | var (label : α) (name : Token)
  | assign (label : α) (name : Token) (value : Expr α)
  /-- A call; `paren` is the closing parenthesis. -/
  | call (callee : Expr α) (paren : Token) (args : List (Expr α))
  | get (object : Expr α) (name : Token)
  | set (object : Expr α) (name : Token) (value : Expr α)
  | thisRef (label : α) (keyword : Token)

/-- A function or method: its name, its parameters, and the statements of its body.  The label
tells it from other declarations that read the same. -/
structure FunDecl (α σ : Type) where
  label : α
  name : Token
  params : List Token
  body : List σ

/-- A statement. -/
inductive Stmt (α : Type) where
  | expr (e : Expr α)
  | print (e : Expr α)
  | var (name : Token) (value? : Option (Expr α))
  | block (body : List (Stmt α))
  | ifThen (condition : Expr α) (thenBranch : Stmt α)
  | ifElse (condition : Expr α) (thenBranch elseBranch : Stmt α)
  | whileLoop (condition : Expr α) (body : Stmt α)
  | function (decl : FunDecl α (Stmt α))
  | ret (keyword : Token) (value? : Option (Expr α))
  | classDecl (name : Token) (methods : List (FunDecl α (Stmt α)))

/-- A function declaration with labelled trees in its body. -/
abbrev Function (α : Type) := FunDecl α (Stmt α)

/-- The name that makes a method the initializer of its class. -/
def initializerName : String := "init"

/-- The method is an initializer. -/
def FunDecl.isInitializer {α σ : Type} (d : FunDecl α σ) : Bool := d.name.lexeme == initializerName

/-- How many arguments the function takes. -/
def FunDecl.arity {α σ : Type} (d : FunDecl α σ) : Nat := d.params.length

namespace Stmt

variable {α : Type}

/-- The body of a `for` loop followed by its increment, if there is one. -/
def withIncrement (body : Stmt α) : Option (Expr α) → Stmt α
  | none => body
  | some increment => .block [body, .expr increment]

/-- A loop inside the scope of its initializer, if there is one. -/
def withInitializer (loop : Stmt α) : Option (Stmt α) → Stmt α
  | none => loop
  | some initializer => .block [initializer, loop]

/-- What `for (initializer; condition; increment) body` stands for.  A missing condition is true. -/
def forLoop (initializer? : Option (Stmt α)) (condition? increment? : Option (Expr α))
    (body : Stmt α) : Stmt α :=
  withInitializer
    (.whileLoop (condition?.getD (.literal (.bool true))) (body.withIncrement increment?))
    initializer?

end Stmt

end LoxLang
