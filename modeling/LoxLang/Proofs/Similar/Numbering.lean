import LoxLang.Proofs.Similar.Tree
import LoxLang.Tree.Label

/-!
# Numbering similar trees

Similar trees take the same number of labels, and stay similar when they are numbered, the first one
from `n` and the second one from `n'` on, if the labels at the same distance from `n` and `n'` correspond
(`Stmt.SimilarEach.numberOccurrences`).
-/

namespace LoxLang

/-- Two steps give out the same number of labels, and what they yield is related if the labels given
out are. -/
def NumberAlike {τ τ' : Type} (S : (NodeId → NodeId → Prop) → τ → τ' → Prop) (x : StateM NodeId τ)
    (x' : StateM NodeId τ') : Prop :=
  ∀ n n', ∃ k, (x n).2 = n + k ∧ (x' n').2 = n' + k ∧
    ∀ L : NodeId → NodeId → Prop, (∀ i < k, L (n + i) (n' + i)) → S L (x n).1 (x' n').1

namespace NumberAlike

variable {τ τ' υ υ' : Type} {S : (NodeId → NodeId → Prop) → τ → τ' → Prop}
  {T : (NodeId → NodeId → Prop) → υ → υ' → Prop} {x : StateM NodeId τ} {x' : StateM NodeId τ'}

theorem pure {a : τ} {a' : τ'} (h : ∀ L, S L a a') :
    NumberAlike S (Pure.pure a) (Pure.pure a') := fun _ _ => ⟨0, rfl, rfl, fun L _ => h L⟩

theorem fresh {α β : Type} (a : α) (b : β) : NumberAlike (fun L => L) (freshId a) (freshId b) :=
  fun _ _ => ⟨1, rfl, rfl, fun _ hL => hL 0 Nat.one_pos⟩

/-- The second steps may take for granted that the first ones have yielded related things. -/
theorem bind {f : τ → StateM NodeId υ} {f' : τ' → StateM NodeId υ'} (hx : NumberAlike S x x')
    (hf : ∀ a a', NumberAlike (fun L b b' => S L a a' → T L b b') (f a) (f' a')) :
    NumberAlike T (x >>= f) (x' >>= f') := by
  intro n n'
  obtain ⟨k, hn, hn', hS⟩ := hx n n'
  obtain ⟨l, hl, hl', hT⟩ := hf (x n).1 (x' n').1 (x n).2 (x' n').2
  refine ⟨k + l, ?_, ?_, fun L hL => ?_⟩
  · rw [← Nat.add_assoc, ← hn]
    exact hl
  · rw [← Nat.add_assoc, ← hn']
    exact hl'
  · refine hT L (fun i hi => ?_) (hS L fun i hi => hL i (Nat.lt_add_right l hi))
    rw [hn, hn', Nat.add_assoc, Nat.add_assoc]
    exact hL (k + i) (Nat.add_lt_add_left hi k)

theorem map {f : τ → υ} {f' : τ' → υ'} (hx : NumberAlike S x x')
    (hf : ∀ L a a', S L a a' → T L (f a) (f' a')) : NumberAlike T (f <$> x) (f' <$> x') := by
  intro n n'
  obtain ⟨k, hn, hn', hS⟩ := hx n n'
  exact ⟨k, hn, hn', fun L hL => hf L _ _ (hS L hL)⟩

end NumberAlike

section

variable {α β : Type} {M : α → β → Prop} {K : Token → Token → Prop}

open NumberAlike

mutual

theorem Expr.Similar.relabel {e : Expr α} {e' : Expr β} (h : Expr.Similar M K e e') :
    NumberAlike (fun L => Expr.Similar L K) (e.relabel freshId) (e'.relabel freshId) := by
  cases e with
  | literal value => cases h with | literal => exact pure fun L => .literal
  | group inner => cases h with | group h => exact h.relabel.map fun _ _ _ h => .group h
  | unary op operand =>
    cases h with | unary hop h => exact h.relabel.map fun _ _ _ h => .unary hop h
  | binary left op right =>
    cases h with
    | binary hl hop hr =>
      exact hl.relabel.bind fun _ _ => hr.relabel.bind fun _ _ => pure fun _ hr hl => .binary hl hop hr
  | logical left op right =>
    cases h with
    | logical hl hop hr =>
      exact hl.relabel.bind fun _ _ => hr.relabel.bind fun _ _ => pure fun _ hr hl => .logical hl hop hr
  | var label name =>
    cases h with
    | var _ ht => exact (fresh _ _).bind fun _ _ => pure fun _ hid => .var hid ht
  | assign label name value =>
    cases h with
    | assign _ ht h =>
      exact (fresh _ _).bind fun _ _ => h.relabel.bind fun _ _ => pure fun _ h hid => .assign hid ht h
  | call callee paren args =>
    cases h with
    | call hf hparen hes =>
      exact hf.relabel.bind fun _ _ => hes.relabel.bind fun _ _ => pure fun _ hes hf =>
        .call hf hparen hes
  | get object name =>
    cases h with
    | get h hname => exact h.relabel.bind fun _ _ => pure fun _ h => .get h hname
  | set object name value =>
    cases h with
    | set ho hname h =>
      exact ho.relabel.bind fun _ _ => h.relabel.bind fun _ _ => pure fun _ h ho => .set ho hname h
  | thisRef label keyword =>
    cases h with
    | thisRef _ ht => exact (fresh _ _).bind fun _ _ => pure fun _ hid => .thisRef hid ht

theorem Expr.SimilarEach.relabel {es : List (Expr α)} {es' : List (Expr β)}
    (h : Expr.SimilarEach M K es es') :
    NumberAlike (fun L => Expr.SimilarEach L K) (Expr.relabelEach freshId es)
      (Expr.relabelEach freshId es') := by
  cases es with
  | nil => cases h with | nil => exact pure fun L => .nil
  | cons e es =>
    cases h with
    | cons he hes =>
      exact he.relabel.bind fun _ _ => hes.relabel.bind fun _ _ => pure fun _ hes he => .cons he hes

end

theorem Expr.Similar?.relabel {e? : Option (Expr α)} {e?' : Option (Expr β)}
    (h : Expr.Similar? M K e? e?') :
    NumberAlike (fun L => Expr.Similar? L K) (Expr.relabel? freshId e?)
      (Expr.relabel? freshId e?') := by
  cases h with
  | none => exact pure fun L => .none
  | some h => exact h.relabel.map fun _ _ _ h => .some h

mutual

theorem Stmt.Similar.relabel {s : Stmt α} {s' : Stmt β} (h : Stmt.Similar M K s s') :
    NumberAlike (fun L => Stmt.Similar L K) (s.relabel freshId) (s'.relabel freshId) := by
  cases s with
  | expr e => cases h with | expr h => exact h.relabel.map fun _ _ _ h => .expr h
  | print e => cases h with | print h => exact h.relabel.map fun _ _ _ h => .print h
  | var name value? => cases h with | var ht h => exact h.relabel.map fun _ _ _ h => .var ht h
  | block body => cases h with | block h => exact h.relabel.map fun _ _ _ h => .block h
  | ifThen condition s =>
    cases h with
    | ifThen he hs =>
      exact he.relabel.bind fun _ _ => hs.relabel.bind fun _ _ => pure fun _ hs he => .ifThen he hs
  | ifElse condition s t =>
    cases h with
    | ifElse he hs ht =>
      exact he.relabel.bind fun _ _ => hs.relabel.bind fun _ _ => ht.relabel.bind fun _ _ =>
        pure fun _ ht hs he => .ifElse he hs ht
  | whileLoop condition body =>
    cases h with
    | whileLoop he hs =>
      exact he.relabel.bind fun _ _ => hs.relabel.bind fun _ _ => pure fun _ hs he => .whileLoop he hs
  | function decl => cases h with | function h => exact h.relabel.map fun _ _ _ h => .function h
  | ret keyword value? =>
    cases h with | ret hkeyword h => exact h.relabel.map fun _ _ _ h => .ret hkeyword h
  | classDecl name methods =>
    cases h with | classDecl ht h => exact h.relabel.map fun _ _ _ h => .classDecl ht h

theorem Stmt.SimilarEach.relabel {ss : List (Stmt α)} {ss' : List (Stmt β)}
    (h : Stmt.SimilarEach M K ss ss') :
    NumberAlike (fun L => Stmt.SimilarEach L K) (Stmt.relabelEach freshId ss)
      (Stmt.relabelEach freshId ss') := by
  cases ss with
  | nil => cases h with | nil => exact pure fun L => .nil
  | cons s ss =>
    cases h with
    | cons hs hss =>
      exact hs.relabel.bind fun _ _ => hss.relabel.bind fun _ _ => pure fun _ hss hs => .cons hs hss

theorem Stmt.SimilarFunction.relabel {f : FunDecl α (Stmt α)} {f' : FunDecl β (Stmt β)}
    (h : Stmt.SimilarFunction M K f f') :
    NumberAlike (fun L => Stmt.SimilarFunction L K) (Stmt.relabelFunction freshId f)
      (Stmt.relabelFunction freshId f') := by
  obtain ⟨label, name, params, body⟩ := f
  cases h with
  | mk _ ht hps h =>
    exact (fresh _ _).bind fun _ _ => h.relabel.bind fun _ _ => pure fun _ h hid => .mk hid ht hps h

theorem Stmt.SimilarFunctions.relabel {fs : List (FunDecl α (Stmt α))}
    {fs' : List (FunDecl β (Stmt β))} (h : Stmt.SimilarFunctions M K fs fs') :
    NumberAlike (fun L => Stmt.SimilarFunctions L K) (Stmt.relabelFunctions freshId fs)
      (Stmt.relabelFunctions freshId fs') := by
  cases fs with
  | nil => cases h with | nil => exact pure fun L => .nil
  | cons f fs =>
    cases h with
    | cons hf hfs =>
      exact hf.relabel.bind fun _ _ => hfs.relabel.bind fun _ _ => pure fun _ hfs hf => .cons hf hfs

end

/-- Similar programs, numbered from two numbers on. -/
theorem Stmt.SimilarEach.numberOccurrences {P : List (Stmt α)} {P' : List (Stmt β)}
    (h : Stmt.SimilarEach M K P P') (n n' : NodeId) :
    ∃ k, (LoxLang.numberOccurrences n P).2 = n + k ∧ (LoxLang.numberOccurrences n' P').2 = n' + k ∧
      ∀ L : NodeId → NodeId → Prop, (∀ i < k, L (n + i) (n' + i)) →
        Stmt.SimilarEach L K (LoxLang.numberOccurrences n P).1
          (LoxLang.numberOccurrences n' P').1 := h.relabel n n'

end

end LoxLang
