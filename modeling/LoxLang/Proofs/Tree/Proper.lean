import LoxLang.Heap
import LoxLang.Tree.Label

/-!
# Proper trees

A tree is proper if it could have been written: no branch and no body of a loop is a declaration,
`this` is the text of every `this`, and of no name that is declared or assigned.  Labels do not matter to this
(`Stmt.relabelEach_proper`).
-/

namespace LoxLang

variable {α β : Type}

/-- The name that a statement declares where it stands. -/
def Stmt.declared? : Stmt α → Option Token
  | .var name _ => some name
  | .function decl => some decl.name
  | .classDecl name _ => some name
  | _ => none

mutual

/-- Every `this` in the expression has the text of `this`, and no name that is assigned has it. -/
def Expr.Proper : Expr α → Prop
  | .literal _ => True
  | .group inner => inner.Proper
  | .unary _ operand => operand.Proper
  | .binary left _ right => left.Proper ∧ right.Proper
  | .logical left _ right => left.Proper ∧ right.Proper
  | .var _ _ => True
  | .assign _ name value => name.lexeme ≠ thisName ∧ value.Proper
  | .call callee _ args => callee.Proper ∧ Expr.ProperEach args
  | .get object _ => object.Proper
  | .set object _ value => object.Proper ∧ value.Proper
  | .thisRef _ keyword => keyword.lexeme = thisName

/-- All of the expressions are proper. -/
def Expr.ProperEach : List (Expr α) → Prop
  | [] => True
  | e :: es => e.Proper ∧ Expr.ProperEach es

end

/-- An expression that may be missing is proper. -/
def Expr.Proper? : Option (Expr α) → Prop
  | none => True
  | some e => e.Proper

mutual

/-- Declared names are not `this`, and branches and bodies of loops declare nothing. -/
def Stmt.Proper : Stmt α → Prop
  | .expr e => e.Proper
  | .print e => e.Proper
  | .var name value? => name.lexeme ≠ thisName ∧ Expr.Proper? value?
  | .block body => Stmt.ProperEach body
  | .ifThen condition s => condition.Proper ∧ s.declared? = none ∧ s.Proper
  | .ifElse condition s s' =>
    condition.Proper ∧ s.declared? = none ∧ s.Proper ∧ s'.declared? = none ∧ s'.Proper
  | .whileLoop condition body => condition.Proper ∧ body.declared? = none ∧ body.Proper
  | .function decl => Stmt.ProperFunction decl
  | .ret _ value? => Expr.Proper? value?
  | .classDecl name methods => name.lexeme ≠ thisName ∧ Stmt.ProperFunctions methods

/-- All of the statements are proper. -/
def Stmt.ProperEach : List (Stmt α) → Prop
  | [] => True
  | s :: ss => s.Proper ∧ Stmt.ProperEach ss

/-- The function is proper, its name and parameters included. -/
def Stmt.ProperFunction : FunDecl α (Stmt α) → Prop
  | ⟨_, name, params, body⟩ =>
    name.lexeme ≠ thisName ∧ (∀ p ∈ params, p.lexeme ≠ thisName) ∧ Stmt.ProperEach body

/-- All of the functions are proper. -/
def Stmt.ProperFunctions : List (FunDecl α (Stmt α)) → Prop
  | [] => True
  | d :: ds => Stmt.ProperFunction d ∧ Stmt.ProperFunctions ds

end

/-! ### Labels do not matter -/

section

variable {σ : Type} (f : α → StateM σ β)

mutual

theorem Expr.relabel_proper (e : Expr α) (n : σ) : (e.relabel f n).1.Proper ↔ e.Proper := by
  cases e with
  | literal _ | var _ _ | thisRef _ _ => rfl
  | group inner => exact Expr.relabel_proper inner n
  | unary op operand => exact Expr.relabel_proper operand n
  | binary left op right =>
    exact and_congr (Expr.relabel_proper left n) (Expr.relabel_proper right _)
  | logical left op right =>
    exact and_congr (Expr.relabel_proper left n) (Expr.relabel_proper right _)
  | assign label name value => exact and_congr_right fun _ => Expr.relabel_proper value _
  | call callee paren args =>
    exact and_congr (Expr.relabel_proper callee n) (Expr.relabelEach_proper args _)
  | get object name => exact Expr.relabel_proper object n
  | set object name value =>
    exact and_congr (Expr.relabel_proper object n) (Expr.relabel_proper value _)

theorem Expr.relabelEach_proper (es : List (Expr α)) (n : σ) :
    Expr.ProperEach (Expr.relabelEach f es n).1 ↔ Expr.ProperEach es := by
  cases es with
  | nil => rfl
  | cons e es => exact and_congr (Expr.relabel_proper e n) (Expr.relabelEach_proper es _)

end

theorem Expr.relabel?_proper (e? : Option (Expr α)) (n : σ) :
    Expr.Proper? (Expr.relabel? f e? n).1 ↔ Expr.Proper? e? := by
  cases e? with
  | none => rfl
  | some e => exact Expr.relabel_proper f e n

theorem Stmt.relabel_declared? (s : Stmt α) (n : σ) :
    (s.relabel f n).1.declared? = s.declared? := by
  cases s with
  | function decl => obtain ⟨label, name, params, body⟩ := decl; rfl
  | _ => rfl

mutual

theorem Stmt.relabel_proper (s : Stmt α) (n : σ) : (s.relabel f n).1.Proper ↔ s.Proper := by
  cases s with
  | expr e | print e => exact Expr.relabel_proper f e n
  | var name value? => exact and_congr_right fun _ => Expr.relabel?_proper f value? n
  | block body => exact Stmt.relabelEach_proper body n
  | ifThen condition s =>
    refine and_congr (Expr.relabel_proper f condition n) ?_
    exact and_congr (by rw [Stmt.relabel_declared?]) (Stmt.relabel_proper s _)
  | ifElse condition s s' =>
    refine and_congr (Expr.relabel_proper f condition n) ?_
    refine and_congr (by rw [Stmt.relabel_declared?]) (and_congr (Stmt.relabel_proper s _) ?_)
    exact and_congr (by rw [Stmt.relabel_declared?]) (Stmt.relabel_proper s' _)
  | whileLoop condition body =>
    refine and_congr (Expr.relabel_proper f condition n) ?_
    exact and_congr (by rw [Stmt.relabel_declared?]) (Stmt.relabel_proper body _)
  | function decl => exact Stmt.relabelFunction_proper decl n
  | ret keyword value? => exact Expr.relabel?_proper f value? n
  | classDecl name methods => exact and_congr_right fun _ => Stmt.relabelFunctions_proper methods n

theorem Stmt.relabelEach_proper (ss : List (Stmt α)) (n : σ) :
    Stmt.ProperEach (Stmt.relabelEach f ss n).1 ↔ Stmt.ProperEach ss := by
  cases ss with
  | nil => rfl
  | cons s ss => exact and_congr (Stmt.relabel_proper s n) (Stmt.relabelEach_proper ss _)

theorem Stmt.relabelFunction_proper (decl : FunDecl α (Stmt α)) (n : σ) :
    Stmt.ProperFunction (Stmt.relabelFunction f decl n).1 ↔ Stmt.ProperFunction decl := by
  obtain ⟨label, name, params, body⟩ := decl
  exact and_congr_right fun _ => and_congr_right fun _ => Stmt.relabelEach_proper body _

theorem Stmt.relabelFunctions_proper (decls : List (FunDecl α (Stmt α))) (n : σ) :
    Stmt.ProperFunctions (Stmt.relabelFunctions f decls n).1 ↔ Stmt.ProperFunctions decls := by
  cases decls with
  | nil => rfl
  | cons d ds =>
    exact and_congr (Stmt.relabelFunction_proper d n) (Stmt.relabelFunctions_proper ds _)

end

end

end LoxLang
