import LoxLang.NameMap
import LoxLang.Tree.Label

/-!
# Scope checking

Before a program runs, each occurrence of a name is traced to the scope that declares it.  The walk
keeps the local scopes around a tree, innermost first; global names are not tracked.  It yields a
`Report`: the rules that the program breaks, and for every use of a name the number of scopes
between the use and the declaration.

A walk over part of a tree is a `Pass`; `p ++ q` runs one after the other and joins the reports.
Scopes come and go in pairs (`Pass.within`), so a program leaves the scopes as they were.
-/

namespace LoxLang

/-- A rule of scoping that a program breaks. -/
inductive ScopeFault where
  | redeclared
  | ownInitializer
  | returnOutsideFunction
  | returnFromInitializer
  | thisOutsideClass
  deriving DecidableEq, Repr

/-- The wording of the fault. -/
def ScopeFault.message : ScopeFault → String
  | redeclared => "Already a variable with this name in this scope."
  | ownInitializer => "Can't read local variable in its own initializer."
  | returnOutsideFunction => "Can't return from top-level code."
  | returnFromInitializer => "Can't return a value from an initializer."
  | thisOutsideClass => "Can't use 'this' outside of a class."

/-- A fault and the token it is reported at. -/
structure ScopeError where
  site : Site
  fault : ScopeFault
  deriving DecidableEq, Repr

/-- A use of a name: the occurrence, its text, and how many scopes lie between it and the scope
that declares the name; `none` if no local scope does. -/
structure NameUse where
  id : NodeId
  name : String
  distance? : Option Nat
  deriving DecidableEq, Repr

namespace Scoping

/-- A local scope: its names, with `true` for those whose declaration is complete. -/
abbrev Scope := NameMap Bool

/-- The local scopes around a tree, innermost first. -/
abbrev Scopes := List Scope

/-- What a walk finds, each list in the order of the walk. -/
structure Report where
  errors : List ScopeError
  uses : List NameUse

/-- A walk over part of a tree. -/
def Pass := Scopes → Scopes × Report

namespace Pass

/-- Nothing happens. -/
def skip : Pass := fun scopes => (scopes, ⟨[], []⟩)

/-- One walk after another. -/
def andThen (p q : Pass) : Pass := fun scopes =>
  let (scopes, first) := p scopes
  let (scopes, second) := q scopes
  (scopes, ⟨first.errors ++ second.errors, first.uses ++ second.uses⟩)

instance : Append Pass := ⟨andThen⟩

/-- Walks over the elements of a list from left to right. -/
def each {α : Type} (p : α → Pass) : List α → Pass
  | [] => skip
  | a :: as => p a ++ each p as

/-- Reports a fault at a token. -/
def fault (t : Token) (f : ScopeFault) : Pass := fun scopes => (scopes, ⟨[⟨t.site, f⟩], []⟩)

/-- Reports a fault at a token if a condition holds. -/
def faultIf (condition : Bool) (t : Token) (f : ScopeFault) : Pass :=
  if condition then fault t f else skip

/-- Runs a walk inside a new scope that holds the given names, and drops the scope. -/
def within (names : Scope) (p : Pass) : Pass := fun scopes =>
  let (inner, report) := p (names :: scopes)
  (inner.tail, report)

/-- Enters a name into the innermost scope, incomplete, unless it is there already. -/
def declare (name : Token) : Pass
  | [] => ([], ⟨[], []⟩)
  | scope :: outer =>
    if scope.contains name.lexeme then fault name .redeclared (scope :: outer)
    else (scope.insert name.lexeme false :: outer, ⟨[], []⟩)

/-- Completes the declaration of a name in the innermost scope. -/
def define (name : Token) : Pass
  | [] => ([], ⟨[], []⟩)
  | scope :: outer => (scope.insert name.lexeme true :: outer, ⟨[], []⟩)

/-- Declares a name and completes it at once. -/
def introduce (name : Token) : Pass := declare name ++ define name

theorem append_apply (p q : Pass) (scopes : Scopes) :
    (p ++ q) scopes = ((q (p scopes).1).1,
      ⟨(p scopes).2.errors ++ (q (p scopes).1).2.errors,
        (p scopes).2.uses ++ (q (p scopes).1).2.uses⟩) := rfl

@[simp] theorem skip_append (p : Pass) : skip ++ p = p := by
  funext scopes; simp [append_apply, skip]

@[simp] theorem append_skip (p : Pass) : p ++ skip = p := by
  funext scopes; simp [append_apply, skip]

theorem append_assoc (p q r : Pass) : p ++ q ++ r = p ++ (q ++ r) := by
  funext scopes; simp [append_apply]

end Pass

/-- How many scopes lie between the innermost scope and the first one that declares the name. -/
def distance? (scopes : Scopes) (name : String) : Option Nat :=
  scopes.findIdx? (·.contains name)

/-- The name stands in the innermost scope with its declaration incomplete: the use lies in the
initializer of that very name. -/
def isIncomplete (scopes : Scopes) (name : String) : Bool :=
  (scopes.head?.bind (·.get? name)) == some false

/-- Traces a use of a name. -/
def trace (id : NodeId) (name : Token) : Pass := fun scopes =>
  (scopes, ⟨[], [⟨id, name.lexeme, distance? scopes name.lexeme⟩]⟩)

/-- Refuses to read a name in its own initializer. -/
def refuseIncomplete (name : Token) : Pass := fun scopes =>
  Pass.faultIf (isIncomplete scopes name.lexeme) name .ownInitializer scopes

/-! ### Expressions -/

mutual

/-- The walk over an expression; `inClass` tells whether a class lies around it. -/
def expr (inClass : Bool) : Expr NodeId → Pass
  | .literal _ => .skip
  | .group inner => expr inClass inner
  | .unary _ operand => expr inClass operand
  | .binary left _ right => expr inClass left ++ expr inClass right
  | .logical left _ right => expr inClass left ++ expr inClass right
  | .var id name => refuseIncomplete name ++ trace id name
  | .assign id name value => expr inClass value ++ trace id name
  | .call callee _ args => expr inClass callee ++ exprs inClass args
  | .get object _ => expr inClass object
  | .set object _ value => expr inClass value ++ expr inClass object
  | .thisRef id keyword =>
    if inClass then trace id keyword else .fault keyword .thisOutsideClass

/-- The walk over expressions from left to right. -/
def exprs (inClass : Bool) : List (Expr NodeId) → Pass
  | [] => .skip
  | e :: es => expr inClass e ++ exprs inClass es

end

/-- The walk over an expression that may be missing. -/
def expr? (inClass : Bool) : Option (Expr NodeId) → Pass
  | none => .skip
  | some e => expr inClass e

/-! ### Statements -/

/-- What lies nearest around a statement: no function, a function or method, or an initializer. -/
inductive Body where
  | topLevel
  | function
  | initializer
  deriving DecidableEq, Repr

/-- The surroundings of a statement. -/
structure Context where
  body : Body
  inClass : Bool

/-- The surroundings of a whole program. -/
def Context.program : Context := ⟨.topLevel, false⟩

/-- The scope that a class puts around its methods. -/
def thisScope : Scope := NameMap.empty.insert "this" true

mutual

/-- The walk over a statement. -/
def stmt (ctx : Context) : Stmt NodeId → Pass
  | .expr e => expr ctx.inClass e
  | .print e => expr ctx.inClass e
  | .var name value? => .declare name ++ expr? ctx.inClass value? ++ .define name
  | .block body => .within ∅ (stmts ctx body)
  | .ifThen condition thenBranch => expr ctx.inClass condition ++ stmt ctx thenBranch
  | .ifElse condition thenBranch elseBranch =>
    expr ctx.inClass condition ++ stmt ctx thenBranch ++ stmt ctx elseBranch
  | .whileLoop condition body => expr ctx.inClass condition ++ stmt ctx body
  | .function decl => .introduce decl.name ++ function ctx .function decl
  | .ret keyword value? =>
    .faultIf (ctx.body == .topLevel) keyword .returnOutsideFunction ++
      .faultIf (value?.isSome && ctx.body == .initializer) keyword .returnFromInitializer ++
      expr? ctx.inClass value?
  | .classDecl name methods =>
    .introduce name ++ .within thisScope (methodsIn ⟨ctx.body, true⟩ methods)

/-- The walk over statements from first to last. -/
def stmts (ctx : Context) : List (Stmt NodeId) → Pass
  | [] => .skip
  | s :: ss => stmt ctx s ++ stmts ctx ss

/-- The walk over a function: one scope holds its parameters and the names of its body. -/
def function (ctx : Context) (kind : Body) : FunDecl NodeId (Stmt NodeId) → Pass
  | ⟨_, _, params, body⟩ =>
    .within ∅ (.each .introduce params ++ stmts { ctx with body := kind } body)

/-- The walk over the methods of a class. -/
def methodsIn (ctx : Context) : List (FunDecl NodeId (Stmt NodeId)) → Pass
  | [] => .skip
  | m :: ms =>
    function ctx (if m.isInitializer then .initializer else .function) m ++ methodsIn ctx ms

end

/-- What the walk over a whole program finds. -/
def check (program : List (Stmt NodeId)) : Report := (stmts .program program []).2

end Scoping

end LoxLang
