import LoxLang.Proofs.Scope.Scopes

/-!
# A walker that keeps its surroundings

The scope check hands the surroundings of a statement down to its parts, so that nothing has to be put
back.  A `Walk` keeps them in the state of the `Walker` instead, next to the scopes: on the way into a
body or a class it overwrites the kind that stands there, and on the way out it puts back the one that
it found.  The two find the same, and the walker ends with the surroundings that it had at the start
(`Walk.stmts_eq`).
-/

namespace LoxLang

namespace Scoping

/-- The local scopes around a tree, and the surroundings of the statement that is walked over. -/
structure Walker where
  scopes : Scopes
  ctx : Context

/-- A walker before it has seen anything. -/
def Walker.fresh : Walker := ⟨[], .program⟩

/-- A walk over part of a tree that may change the surroundings as well as the scopes. -/
def Walk := Walker → Walker × Report

namespace Walk

/-- Nothing happens. -/
def skip : Walk := fun w => (w, ⟨[], []⟩)

/-- One walk after another. -/
def andThen (p q : Walk) : Walk := fun w =>
  let (w, first) := p w
  let (w, second) := q w
  (w, ⟨first.errors ++ second.errors, first.uses ++ second.uses⟩)

instance : Append Walk := ⟨andThen⟩

/-- A pass that reads the surroundings and leaves them alone. -/
def reading (p : Context → Pass) : Walk := fun w =>
  let (scopes, report) := p w.ctx w.scopes
  ({ w with scopes }, report)

/-- Opens a scope, walks, and drops the scope. -/
def within (names : Scope) (p : Walk) : Walk := fun w =>
  let (w, report) := p { w with scopes := names :: w.scopes }
  ({ w with scopes := w.scopes.tail }, report)

/-- Sets the kind of the nearest body, walks, and puts the former kind back. -/
def inBody (kind : Body) (p : Walk) : Walk := fun w =>
  let former := w.ctx.body
  let (w, report) := p { w with ctx.body := kind }
  ({ w with ctx.body := former }, report)

/-- Notes that a class lies around, walks, and puts back what was noted before. -/
def inClass (p : Walk) : Walk := fun w =>
  let former := w.ctx.inClass
  let (w, report) := p { w with ctx.inClass := true }
  ({ w with ctx.inClass := former }, report)

mutual

/-- The walk over a statement. -/
def stmt : Stmt NodeId → Walk
  | .expr e => reading fun ctx => expr ctx.inClass e
  | .print e => reading fun ctx => expr ctx.inClass e
  | .var name value? =>
    reading fun ctx => .declare name ++ expr? ctx.inClass value? ++ .define name
  | .block body => within ∅ (stmts body)
  | .ifThen condition thenBranch =>
    reading (fun ctx => expr ctx.inClass condition) ++ stmt thenBranch
  | .ifElse condition thenBranch elseBranch =>
    reading (fun ctx => expr ctx.inClass condition) ++ stmt thenBranch ++ stmt elseBranch
  | .whileLoop condition body => reading (fun ctx => expr ctx.inClass condition) ++ stmt body
  | .function decl => reading (fun _ => .introduce decl.name) ++ function .function decl
  | .ret keyword value? => reading fun ctx =>
    .faultIf (ctx.body == .topLevel) keyword .returnOutsideFunction ++
      .faultIf (value?.isSome && ctx.body == .initializer) keyword .returnFromInitializer ++
      expr? ctx.inClass value?
  | .classDecl name methods =>
    inClass (reading (fun _ => .introduce name) ++ within thisScope (methodsIn methods))

/-- The walk over statements from first to last. -/
def stmts : List (Stmt NodeId) → Walk
  | [] => skip
  | s :: ss => stmt s ++ stmts ss

/-- The walk over a function. -/
def function (kind : Body) : FunDecl NodeId (Stmt NodeId) → Walk
  | ⟨_, _, params, body⟩ =>
    inBody kind (within ∅ (reading (fun _ => .each .introduce params) ++ stmts body))

/-- The walk over the methods of a class. -/
def methodsIn : List (FunDecl NodeId (Stmt NodeId)) → Walk
  | [] => skip
  | m :: ms => function (if m.isInitializer then .initializer else .function) m ++ methodsIn ms

end

/-! ### The surroundings are put back -/

theorem reading_append (p q : Context → Pass) :
    reading p ++ reading q = reading fun ctx => p ctx ++ q ctx := rfl

theorem within_reading (names : Scope) (p : Context → Pass) :
    within names (reading p) = reading fun ctx => .within names (p ctx) := rfl

theorem inBody_reading (kind : Body) (p : Context → Pass) :
    inBody kind (reading p) = reading fun ctx => p { ctx with body := kind } := rfl

theorem inClass_reading (p : Context → Pass) :
    inClass (reading p) = reading fun ctx => p { ctx with inClass := true } := rfl

mutual

theorem stmt_eq (s : Stmt NodeId) : stmt s = reading fun ctx => Scoping.stmt ctx s := by
  cases s with
  | expr e | print e | var name value? | ret keyword value? => rfl
  | block body =>
    rw [stmt, stmts_eq body, within_reading]
    rfl
  | ifThen condition s | whileLoop condition s =>
    rw [stmt, stmt_eq s, reading_append]
    rfl
  | ifElse condition s s' =>
    rw [stmt, stmt_eq s, stmt_eq s', reading_append, reading_append]
    rfl
  | function decl =>
    rw [stmt, function_eq .function decl, reading_append]
    rfl
  | classDecl name methods =>
    rw [stmt, methods_eq methods, within_reading, reading_append, inClass_reading]
    rfl

theorem stmts_eq (ss : List (Stmt NodeId)) :
    stmts ss = reading fun ctx => Scoping.stmts ctx ss := by
  cases ss with
  | nil => rfl
  | cons s ss =>
    rw [stmts, stmt_eq s, stmts_eq ss, reading_append]
    rfl

theorem function_eq (kind : Body) (decl : FunDecl NodeId (Stmt NodeId)) :
    function kind decl = reading fun ctx => Scoping.function ctx kind decl := by
  obtain ⟨label, name, params, body⟩ := decl
  rw [function, stmts_eq body, reading_append, within_reading, inBody_reading]
  rfl

theorem methods_eq (ms : List (FunDecl NodeId (Stmt NodeId))) :
    methodsIn ms = reading fun ctx => Scoping.methodsIn ctx ms := by
  cases ms with
  | nil => rfl
  | cons m ms =>
    rw [methodsIn, function_eq _ m, methods_eq ms, reading_append]
    rfl

end

end Walk

end Scoping

end LoxLang
