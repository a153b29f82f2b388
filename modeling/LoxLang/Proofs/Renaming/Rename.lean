import LoxLang.Proofs.Scope.Visit

/-!
# Renaming a local variable

`Renames old new v c` says that the part `c` of a tree comes from the part that is visited in `v` by
giving one local variable a new name: a parameter, or a variable that a block or the body of a
function declares.  Renamed are its declaration and those uses of the name that the scope check
traces to the scope of the declaration.

The walk over that scope (`Stmt.renameEach`) follows the scope check: it takes along the scopes that
the check has at each place, and asks them where the check traces a use to (`Renaming.binds`).
-/

namespace LoxLang

open Scoping

/-- A new name for the variable `old` of the scope around which `level` local scopes lie. -/
structure Renaming where
  old : String
  new : String
  level : Nat

namespace Renaming

variable (r : Renaming)

/-- The scope check traces the name to the variable. -/
def binds (scopes : Scopes) (name : Token) : Bool :=
  name.lexeme == r.old &&
    (distance? scopes name.lexeme).any fun d => d + r.level + 1 == scopes.length

/-- Declaring the name declares the variable. -/
def declares (scopes : Scopes) (name : Token) : Bool :=
  name.lexeme == r.old && scopes.length == r.level + 1

/-- The token with the new name. -/
def token (name : Token) : Token := { name with lexeme := r.new }

/-- A used name after the renaming. -/
def use (scopes : Scopes) (name : Token) : Token :=
  if r.binds scopes name then r.token name else name

/-- A declared name after the renaming. -/
def declaration (scopes : Scopes) (name : Token) : Token :=
  if r.declares scopes name then r.token name else name

/-- The names differ, and both can be names of variables. -/
structure Valid : Prop where
  ne : r.old ≠ r.new
  old : r.old ≠ thisName
  new : r.new ≠ thisName

variable {r} in
theorem use_of_ne {name : Token} (h : name.lexeme ≠ r.old) (scopes : Scopes) :
    r.use scopes name = name := by simp [use, binds, h]

end Renaming

/-! ### The walk over the scope -/

mutual

/-- The expression after the renaming; the scopes are those with which it is checked. -/
def Expr.rename (r : Renaming) (scopes : Scopes) : Expr NodeId → Expr NodeId
  | .literal value => .literal value
  | .group inner => .group (inner.rename r scopes)
  | .unary op operand => .unary op (operand.rename r scopes)
  | .binary left op right => .binary (left.rename r scopes) op (right.rename r scopes)
  | .logical left op right => .logical (left.rename r scopes) op (right.rename r scopes)
  | .var id name => .var id (r.use scopes name)
  | .assign id name value => .assign id (r.use scopes name) (value.rename r scopes)
  | .call callee paren args => .call (callee.rename r scopes) paren (Expr.renameEach r scopes args)
  | .get object name => .get (object.rename r scopes) name
  | .set object name value => .set (object.rename r scopes) name (value.rename r scopes)
  | .thisRef id keyword => .thisRef id keyword

/-- The expressions after the renaming. -/
def Expr.renameEach (r : Renaming) (scopes : Scopes) : List (Expr NodeId) → List (Expr NodeId)
  | [] => []
  | e :: es => e.rename r scopes :: Expr.renameEach r scopes es

end

/-- An expression that may be missing, after the renaming. -/
def Expr.rename? (r : Renaming) (scopes : Scopes) : Option (Expr NodeId) → Option (Expr NodeId)
  | none => none
  | some e => some (e.rename r scopes)

mutual

/-- The statement after the renaming. -/
def Stmt.rename (r : Renaming) (ctx : Context) (scopes : Scopes) : Stmt NodeId → Stmt NodeId
  | .expr e => .expr (e.rename r scopes)
  | .print e => .print (e.rename r scopes)
  | .var name value? =>
    .var (r.declaration scopes name) (Expr.rename? r (Pass.declare name scopes).1 value?)
  | .block body => .block (Stmt.renameEach r ctx (∅ :: scopes) body)
  | .ifThen condition s => .ifThen (condition.rename r scopes) (s.rename r ctx scopes)
  | .ifElse condition s s' =>
    .ifElse (condition.rename r scopes) (s.rename r ctx scopes)
      (s'.rename r ctx (stmt ctx s scopes).1)
  | .whileLoop condition body => .whileLoop (condition.rename r scopes) (body.rename r ctx scopes)
  | .function decl =>
    .function (Stmt.renameFunction r ctx .function (Pass.introduce decl.name scopes).1 decl)
  | .ret keyword value? => .ret keyword (Expr.rename? r scopes value?)
  | .classDecl name methods =>
    .classDecl name (Stmt.renameMethods r ⟨ctx.body, true⟩
      (thisScope :: (Pass.introduce name scopes).1) methods)

/-- The statements after the renaming. -/
def Stmt.renameEach (r : Renaming) (ctx : Context) (scopes : Scopes) :
    List (Stmt NodeId) → List (Stmt NodeId)
  | [] => []
  | s :: ss => s.rename r ctx scopes :: Stmt.renameEach r ctx (stmt ctx s scopes).1 ss

/-- The function after the renaming. -/
def Stmt.renameFunction (r : Renaming) (ctx : Context) (kind : Body) (scopes : Scopes) :
    FunDecl NodeId (Stmt NodeId) → FunDecl NodeId (Stmt NodeId)
  | ⟨label, name, params, body⟩ =>
    ⟨label, name, params.map (r.declaration (∅ :: scopes)),
      Stmt.renameEach r { ctx with body := kind }
        (Pass.each Pass.introduce params (∅ :: scopes)).1 body⟩

/-- The methods of a class after the renaming. -/
def Stmt.renameMethods (r : Renaming) (ctx : Context) (scopes : Scopes) :
    List (FunDecl NodeId (Stmt NodeId)) → List (FunDecl NodeId (Stmt NodeId))
  | [] => []
  | m :: ms =>
    Stmt.renameFunction r ctx (methodKind m) scopes m :: Stmt.renameMethods r ctx scopes ms

end

/-! ### The place of the declaration -/

/-- One of the statements declares the variable. -/
def DeclaresVar (name : String) (ss : List (Stmt NodeId)) : Prop :=
  ∃ t value?, .var t value? ∈ ss ∧ t.lexeme = name

/-- One local variable of the name `old` in the visited part is given the name `new`. -/
inductive Renames (old new : String) : Visit → Code → Prop where
  /-- The block declares the variable. -/
  | inBlock {body ctx scopes} : DeclaresVar old body →
    Renames old new ⟨.stmt (.block body), ctx, scopes⟩
      (.stmt (.block (Stmt.renameEach ⟨old, new, scopes.length⟩ ctx (∅ :: scopes) body)))
  /-- The variable is a parameter, or declared by the body of the function. -/
  | inFunction {kind decl ctx scopes} :
    (∃ p ∈ decl.params, p.lexeme = old) ∨ DeclaresVar old decl.body →
    Renames old new ⟨.function kind decl, ctx, scopes⟩
      (.function kind (Stmt.renameFunction ⟨old, new, scopes.length⟩ ctx kind scopes decl))
  -- the declaration lies further inside
  | block {body body' ctx scopes} :
    Renames old new ⟨.stmts body, ctx, ∅ :: scopes⟩ (.stmts body') →
    Renames old new ⟨.stmt (.block body), ctx, scopes⟩ (.stmt (.block body'))
  | ifThen {condition s s' ctx scopes} :
    Renames old new ⟨.stmt s, ctx, scopes⟩ (.stmt s') →
    Renames old new ⟨.stmt (.ifThen condition s), ctx, scopes⟩ (.stmt (.ifThen condition s'))
  | thenBranch {condition s s' t ctx scopes} :
    Renames old new ⟨.stmt s, ctx, scopes⟩ (.stmt s') →
    Renames old new ⟨.stmt (.ifElse condition s t), ctx, scopes⟩ (.stmt (.ifElse condition s' t))
  | elseBranch {condition s t t' ctx scopes} :
    Renames old new ⟨.stmt t, ctx, (stmt ctx s scopes).1⟩ (.stmt t') →
    Renames old new ⟨.stmt (.ifElse condition s t), ctx, scopes⟩ (.stmt (.ifElse condition s t'))
  | whileLoop {condition s s' ctx scopes} :
    Renames old new ⟨.stmt s, ctx, scopes⟩ (.stmt s') →
    Renames old new ⟨.stmt (.whileLoop condition s), ctx, scopes⟩ (.stmt (.whileLoop condition s'))
  | function {decl decl' ctx scopes} :
    Renames old new ⟨.function .function decl, ctx, (Pass.introduce decl.name scopes).1⟩
      (.function .function decl') →
    Renames old new ⟨.stmt (.function decl), ctx, scopes⟩ (.stmt (.function decl'))
  | classDecl {name methods methods' ctx scopes} :
    Renames old new ⟨.methods methods, ⟨ctx.body, true⟩, thisScope :: (Pass.introduce name scopes).1⟩
      (.methods methods') →
    Renames old new ⟨.stmt (.classDecl name methods), ctx, scopes⟩
      (.stmt (.classDecl name methods'))
  | head {s s' ss ctx scopes} :
    Renames old new ⟨.stmt s, ctx, scopes⟩ (.stmt s') →
    Renames old new ⟨.stmts (s :: ss), ctx, scopes⟩ (.stmts (s' :: ss))
  | tail {s ss ss' ctx scopes} :
    Renames old new ⟨.stmts ss, ctx, (stmt ctx s scopes).1⟩ (.stmts ss') →
    Renames old new ⟨.stmts (s :: ss), ctx, scopes⟩ (.stmts (s :: ss'))
  | body {kind label name params body body' ctx scopes} :
    Renames old new ⟨.stmts body, { ctx with body := kind },
      (Pass.each Pass.introduce params (∅ :: scopes)).1⟩ (.stmts body') →
    Renames old new ⟨.function kind ⟨label, name, params, body⟩, ctx, scopes⟩
      (.function kind ⟨label, name, params, body'⟩)
  | method {m m' ms ctx scopes} :
    Renames old new ⟨.function (methodKind m) m, ctx, scopes⟩ (.function (methodKind m) m') →
    Renames old new ⟨.methods (m :: ms), ctx, scopes⟩ (.methods (m' :: ms))
  | methods {m ms ms' ctx scopes} :
    Renames old new ⟨.methods ms, ctx, scopes⟩ (.methods ms') →
    Renames old new ⟨.methods (m :: ms), ctx, scopes⟩ (.methods (m :: ms'))

/-! ### Fresh names -/

mutual

/-- No variable in the expression has the name. -/
def Expr.Avoids (name : String) : Expr NodeId → Prop
  | .literal _ => True
  | .group inner => inner.Avoids name
  | .unary _ operand => operand.Avoids name
  | .binary left _ right => left.Avoids name ∧ right.Avoids name
  | .logical left _ right => left.Avoids name ∧ right.Avoids name
  | .var _ t => t.lexeme ≠ name
  | .assign _ t value => t.lexeme ≠ name ∧ value.Avoids name
  | .call callee _ args => callee.Avoids name ∧ Expr.AvoidEach name args
  | .get object _ => object.Avoids name
  | .set object _ value => object.Avoids name ∧ value.Avoids name
  | .thisRef _ _ => True

/-- No variable in the expressions has the name. -/
def Expr.AvoidEach (name : String) : List (Expr NodeId) → Prop
  | [] => True
  | e :: es => e.Avoids name ∧ Expr.AvoidEach name es

end

/-- No variable in the expression has the name, if there is one. -/
def Expr.Avoids? (name : String) : Option (Expr NodeId) → Prop
  | none => True
  | some e => e.Avoids name

mutual

/-- Nothing in the statement that is declared or used as a variable has the name. -/
def Stmt.Avoids (name : String) : Stmt NodeId → Prop
  | .expr e => e.Avoids name
  | .print e => e.Avoids name
  | .var t value? => t.lexeme ≠ name ∧ Expr.Avoids? name value?
  | .block body => Stmt.AvoidEach name body
  | .ifThen condition s => condition.Avoids name ∧ s.Avoids name
  | .ifElse condition s s' => condition.Avoids name ∧ s.Avoids name ∧ s'.Avoids name
  | .whileLoop condition body => condition.Avoids name ∧ body.Avoids name
  | .function decl => Stmt.AvoidFunction name decl
  | .ret _ value? => Expr.Avoids? name value?
  | .classDecl t methods => t.lexeme ≠ name ∧ Stmt.AvoidFunctions name methods

/-- Nothing in the statements that is declared or used as a variable has the name. -/
def Stmt.AvoidEach (name : String) : List (Stmt NodeId) → Prop
  | [] => True
  | s :: ss => s.Avoids name ∧ Stmt.AvoidEach name ss

/-- Nothing in the function that is declared or used as a variable has the name. -/
def Stmt.AvoidFunction (name : String) : FunDecl NodeId (Stmt NodeId) → Prop
  | ⟨_, t, params, body⟩ =>
    t.lexeme ≠ name ∧ (∀ p ∈ params, p.lexeme ≠ name) ∧ Stmt.AvoidEach name body

/-- Nothing in the functions that is declared or used as a variable has the name. -/
def Stmt.AvoidFunctions (name : String) : List (FunDecl NodeId (Stmt NodeId)) → Prop
  | [] => True
  | d :: ds => Stmt.AvoidFunction name d ∧ Stmt.AvoidFunctions name ds

end

end LoxLang
