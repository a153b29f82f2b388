import LoxLang.Tree

/-!
# Labels of name occurrences and functions

`Expr.relabel` and `Stmt.relabel` visit the labels of a tree from left to right and replace each one
by a step that may count; `numberOccurrences` gives every name occurrence and every function a
number of its own, starting from a given one, so that the labels of a tree are consecutive and
distinct from all that were given out before.
-/

namespace LoxLang

/-- The number of a name occurrence or of a function. -/
abbrev NodeId := Nat

variable {α β : Type} {m : Type → Type} [Monad m]

mutual

/-- The expression with every label replaced by the result of `f`, from left to right. -/
def Expr.relabel (f : α → m β) : Expr α → m (Expr β)
  | .literal value => pure (.literal value)
  | .group inner => .group <$> inner.relabel f
  | .unary op operand => .unary op <$> operand.relabel f
  | .binary left op right => do
    let left ← left.relabel f
    return .binary left op (← right.relabel f)
  | .logical left op right => do
    let left ← left.relabel f
    return .logical left op (← right.relabel f)
  | .var label name => return .var (← f label) name
  | .assign label name value => do
    let label ← f label
    return .assign label name (← value.relabel f)
  | .call callee paren args => do
    let callee ← callee.relabel f
    return .call callee paren (← Expr.relabelEach f args)
  | .get object name => return .get (← object.relabel f) name
  | .set object name value => do
    let object ← object.relabel f
    return .set object name (← value.relabel f)
  | .thisRef label keyword => return .thisRef (← f label) keyword

/-- All expressions relabelled, from left to right. -/
def Expr.relabelEach (f : α → m β) : List (Expr α) → m (List (Expr β))
  | [] => pure []
  | e :: es => do
    let e ← e.relabel f
    return e :: (← Expr.relabelEach f es)

end

/-- An expression that may be missing, relabelled. -/
def Expr.relabel? (f : α → m β) : Option (Expr α) → m (Option (Expr β))
  | none => pure none
  | some e => some <$> e.relabel f

mutual

/-- The statement with every label replaced by the result of `f`, from left to right. -/
def Stmt.relabel (f : α → m β) : Stmt α → m (Stmt β)
  | .expr e => .expr <$> e.relabel f
  | .print e => .print <$> e.relabel f
  | .var name value? => .var name <$> Expr.relabel? f value?
  | .block body => .block <$> Stmt.relabelEach f body
  | .ifThen condition thenBranch => do
    let condition ← condition.relabel f
    return .ifThen condition (← thenBranch.relabel f)
  | .ifElse condition thenBranch elseBranch => do
    let condition ← condition.relabel f
    let thenBranch ← thenBranch.relabel f
    return .ifElse condition thenBranch (← elseBranch.relabel f)
  | .whileLoop condition body => do
    let condition ← condition.relabel f
    return .whileLoop condition (← body.relabel f)
  | .function decl => .function <$> Stmt.relabelFunction f decl
  | .ret keyword value? => .ret keyword <$> Expr.relabel? f value?
  | .classDecl name methods => .classDecl name <$> Stmt.relabelFunctions f methods

/-- All statements relabelled, from left to right. -/
def Stmt.relabelEach (f : α → m β) : List (Stmt α) → m (List (Stmt β))
  | [] => pure []
  | s :: ss => do
    let s ← s.relabel f
    return s :: (← Stmt.relabelEach f ss)

/-- The function relabelled, itself before its body. -/
def Stmt.relabelFunction (f : α → m β) : FunDecl α (Stmt α) → m (FunDecl β (Stmt β))
  | ⟨label, name, params, body⟩ => do
    let label ← f label
    return ⟨label, name, params, ← Stmt.relabelEach f body⟩

/-- All functions relabelled, from left to right. -/
def Stmt.relabelFunctions (f : α → m β) :
    List (FunDecl α (Stmt α)) → m (List (FunDecl β (Stmt β)))
  | [] => pure []
  | d :: ds => do
    let d ← Stmt.relabelFunction f d
    return d :: (← Stmt.relabelFunctions f ds)

end

/-- The next unused number. -/
def freshId (_ : α) : StateM NodeId NodeId := modifyGet fun n => (n, n + 1)

/-- The statements with their labels numbered from `next`, and the next unused number. -/
def numberOccurrences (next : NodeId) (program : List (Stmt α)) :
    List (Stmt NodeId) × NodeId :=
  (Stmt.relabelEach freshId program).run next

end LoxLang
