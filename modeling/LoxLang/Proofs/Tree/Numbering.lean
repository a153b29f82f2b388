import LoxLang.Tree.Label
import Mathlib.Data.List.Range

/-!
# Consecutive labels

`Expr.labels` and `Stmt.labels` list the labels of a tree from left to right.  The labels that
`numberOccurrences` gives are the numbers from the first one on, each once
(`numberOccurrences_labels`).
-/

namespace LoxLang

variable {α : Type}

mutual

/-- The labels of an expression from left to right. -/
def Expr.labels : Expr α → List α
  | .literal _ => []
  | .group inner => inner.labels
  | .unary _ operand => operand.labels
  | .binary left _ right => left.labels ++ right.labels
  | .logical left _ right => left.labels ++ right.labels
  | .var label _ => [label]
  | .assign label _ value => label :: value.labels
  | .call callee _ args => callee.labels ++ Expr.labelsEach args
  | .get object _ => object.labels
  | .set object _ value => object.labels ++ value.labels
  | .thisRef label _ => [label]

/-- The labels of expressions from left to right. -/
def Expr.labelsEach : List (Expr α) → List α
  | [] => []
  | e :: es => e.labels ++ Expr.labelsEach es

end

/-- The labels of an expression that may be missing. -/
def Expr.labels? : Option (Expr α) → List α
  | none => []
  | some e => e.labels

mutual

/-- The labels of a statement from left to right. -/
def Stmt.labels : Stmt α → List α
  | .expr e => e.labels
  | .print e => e.labels
  | .var _ value? => Expr.labels? value?
  | .block body => Stmt.labelsEach body
  | .ifThen condition s => condition.labels ++ s.labels
  | .ifElse condition s s' => condition.labels ++ (s.labels ++ s'.labels)
  | .whileLoop condition body => condition.labels ++ body.labels
  | .function decl => Stmt.labelsFunction decl
  | .ret _ value? => Expr.labels? value?
  | .classDecl _ methods => Stmt.labelsFunctions methods

/-- The labels of statements from left to right. -/
def Stmt.labelsEach : List (Stmt α) → List α
  | [] => []
  | s :: ss => s.labels ++ Stmt.labelsEach ss

/-- The labels of a function, its own before those of its body. -/
def Stmt.labelsFunction : FunDecl α (Stmt α) → List α
  | ⟨label, _, _, body⟩ => label :: Stmt.labelsEach body

/-- The labels of functions from left to right. -/
def Stmt.labelsFunctions : List (FunDecl α (Stmt α)) → List α
  | [] => []
  | d :: ds => Stmt.labelsFunction d ++ Stmt.labelsFunctions ds

end

/-! ### Numbering -/

/-- The labels are the numbers from `n` up to, but not including, `n'`. -/
def Consecutive (labels : List Nat) (n n' : Nat) : Prop :=
  n ≤ n' ∧ labels = List.range' n (n' - n)

namespace Consecutive

theorem nil (n : Nat) : Consecutive [] n n := ⟨le_rfl, by simp⟩

theorem single (n : Nat) : Consecutive [n] n (n + 1) := ⟨by omega, by simp⟩

theorem append {ls ls' : List Nat} {n m n' : Nat} (h : Consecutive ls n m)
    (h' : Consecutive ls' m n') : Consecutive (ls ++ ls') n n' := by
  obtain ⟨hle, rfl⟩ := h
  obtain ⟨hle', rfl⟩ := h'
  refine ⟨by omega, ?_⟩
  obtain ⟨k, rfl⟩ := Nat.exists_eq_add_of_le hle
  obtain ⟨k', rfl⟩ := Nat.exists_eq_add_of_le hle'
  rw [show n + k - n = k by omega, show n + k + k' - (n + k) = k' by omega,
    show n + k + k' - n = k + k' by omega, List.range'_append_1]

theorem cons {ls : List Nat} {n n' : Nat} (h : Consecutive ls (n + 1) n') :
    Consecutive (n :: ls) n n' := (single n).append h

theorem nodup {ls : List Nat} {n n' : Nat} (h : Consecutive ls n n') : ls.Nodup := by
  rw [h.2]
  exact List.nodup_range'

theorem mem_iff {ls : List Nat} {n n' id : Nat} (h : Consecutive ls n n') :
    id ∈ ls ↔ n ≤ id ∧ id < n' := by
  obtain ⟨hle, rfl⟩ := h
  rw [List.mem_range'_1]
  omega

end Consecutive

mutual

theorem Expr.numbered (e : Expr α) (n : NodeId) :
    Consecutive (e.relabel freshId n).1.labels n (e.relabel freshId n).2 := by
  cases e with
  | literal _ => exact .nil n
  | group inner => exact Expr.numbered inner n
  | unary op operand => exact Expr.numbered operand n
  | binary left op right => exact (Expr.numbered left n).append (Expr.numbered right _)
  | logical left op right => exact (Expr.numbered left n).append (Expr.numbered right _)
  | var _ _ => exact .single n
  | assign _ name value => exact .cons (Expr.numbered value (n + 1))
  | call callee paren args => exact (Expr.numbered callee n).append (Expr.numberedEach args _)
  | get object name => exact Expr.numbered object n
  | set object name value => exact (Expr.numbered object n).append (Expr.numbered value _)
  | thisRef _ _ => exact .single n

theorem Expr.numberedEach (es : List (Expr α)) (n : NodeId) :
    Consecutive (Expr.labelsEach (Expr.relabelEach freshId es n).1) n
      (Expr.relabelEach freshId es n).2 := by
  cases es with
  | nil => exact .nil n
  | cons e es => exact (Expr.numbered e n).append (Expr.numberedEach es _)

end

theorem Expr.numbered? (e? : Option (Expr α)) (n : NodeId) :
    Consecutive (Expr.labels? (Expr.relabel? freshId e? n).1) n
      (Expr.relabel? freshId e? n).2 := by
  cases e? with
  | none => exact .nil n
  | some e => exact Expr.numbered e n

mutual

theorem Stmt.numbered (s : Stmt α) (n : NodeId) :
    Consecutive (s.relabel freshId n).1.labels n (s.relabel freshId n).2 := by
  cases s with
  | expr e | print e => exact Expr.numbered e n
  | var name value? => exact Expr.numbered? value? n
  | block body => exact Stmt.numberedEach body n
  | ifThen condition s => exact (Expr.numbered condition n).append (Stmt.numbered s _)
  | ifElse condition s s' =>
    exact (Expr.numbered condition n).append ((Stmt.numbered s _).append (Stmt.numbered s' _))
  | whileLoop condition body => exact (Expr.numbered condition n).append (Stmt.numbered body _)
  | function decl => exact Stmt.numberedFunction decl n
  | ret keyword value? => exact Expr.numbered? value? n
  | classDecl name methods => exact Stmt.numberedFunctions methods n

theorem Stmt.numberedEach (ss : List (Stmt α)) (n : NodeId) :
    Consecutive (Stmt.labelsEach (Stmt.relabelEach freshId ss n).1) n
      (Stmt.relabelEach freshId ss n).2 := by
  cases ss with
  | nil => exact .nil n
  | cons s ss => exact (Stmt.numbered s n).append (Stmt.numberedEach ss _)

theorem Stmt.numberedFunction (decl : FunDecl α (Stmt α)) (n : NodeId) :
    Consecutive (Stmt.labelsFunction (Stmt.relabelFunction freshId decl n).1) n
      (Stmt.relabelFunction freshId decl n).2 := by
  obtain ⟨label, name, params, body⟩ := decl
  exact .cons (Stmt.numberedEach body (n + 1))

theorem Stmt.numberedFunctions (decls : List (FunDecl α (Stmt α))) (n : NodeId) :
    Consecutive (Stmt.labelsFunctions (Stmt.relabelFunctions freshId decls n).1) n
      (Stmt.relabelFunctions freshId decls n).2 := by
  cases decls with
  | nil => exact .nil n
  | cons d ds => exact (Stmt.numberedFunction d n).append (Stmt.numberedFunctions ds _)

end

/-- Numbering gives each label a number of its own, from the given one on. -/
theorem numberOccurrences_labels (next : NodeId) (program : List (Stmt α)) :
    Consecutive (Stmt.labelsEach (numberOccurrences next program).1) next
      (numberOccurrences next program).2 := Stmt.numberedEach program next

end LoxLang
