import LoxLang.Tree
import Mathlib.Data.List.Forall2

/-!
# Similar trees

Trees are similar if they have the same shape and the same names, values and operators.  They may
differ in their labels and in where their tokens stand, and how is told by two relations: `L` between
the labels and `K` between the tokens.  So the trees of one source numbered from different numbers on
are similar, and so are the trees of a source and of the same source further down.
-/

namespace LoxLang

section

variable {α β : Type} (L : α → β → Prop) (K : Token → Token → Prop)

/-- The tokens correspond, and have the same kind and text. -/
structure Token.Similar (t t' : Token) : Prop where
  place : K t t'
  kind : t'.kind = t.kind
  lexeme : t'.lexeme = t.lexeme

mutual

/-- The expressions are similar. -/
inductive Expr.Similar : Expr α → Expr β → Prop where
  | literal {l} : Expr.Similar (.literal l) (.literal l)
  | group {e e'} : Expr.Similar e e' → Expr.Similar (.group e) (.group e')
  | unary {op op' e e'} : op.Similar K op' → Expr.Similar e e' →
    Expr.Similar (.unary op e) (.unary op' e')
  | binary {l l' op op' r r'} : Expr.Similar l l' → op.Similar K op' → Expr.Similar r r' →
    Expr.Similar (.binary l op r) (.binary l' op' r')
  | logical {l l' op op' r r'} : Expr.Similar l l' → op.Similar K op' → Expr.Similar r r' →
    Expr.Similar (.logical l op r) (.logical l' op' r')
  | var {id id' t t'} : L id id' → t.Similar K t' → Expr.Similar (.var id t) (.var id' t')
  | assign {id id' t t' e e'} : L id id' → t.Similar K t' → Expr.Similar e e' →
    Expr.Similar (.assign id t e) (.assign id' t' e')
  | call {f f' paren paren' es es'} : Expr.Similar f f' → paren.Similar K paren' →
    Expr.SimilarEach es es' → Expr.Similar (.call f paren es) (.call f' paren' es')
  | get {e e' name name'} : Expr.Similar e e' → name.Similar K name' →
    Expr.Similar (.get e name) (.get e' name')
  | set {o o' name name' e e'} : Expr.Similar o o' → name.Similar K name' → Expr.Similar e e' →
    Expr.Similar (.set o name e) (.set o' name' e')
  | thisRef {id id' t t'} : L id id' → t.Similar K t' →
    Expr.Similar (.thisRef id t) (.thisRef id' t')

/-- The expressions are similar one by one. -/
inductive Expr.SimilarEach : List (Expr α) → List (Expr β) → Prop where
  | nil : Expr.SimilarEach [] []
  | cons {e e' es es'} : Expr.Similar e e' → Expr.SimilarEach es es' →
    Expr.SimilarEach (e :: es) (e' :: es')

end

/-- Two expressions that may be missing are similar, or both missing. -/
def Expr.Similar? : Option (Expr α) → Option (Expr β) → Prop := Option.Rel (Expr.Similar L K)

mutual

/-- The statements are similar. -/
inductive Stmt.Similar : Stmt α → Stmt β → Prop where
  | expr {e e'} : Expr.Similar L K e e' → Stmt.Similar (.expr e) (.expr e')
  | print {e e'} : Expr.Similar L K e e' → Stmt.Similar (.print e) (.print e')
  | var {t t' e? e?'} : t.Similar K t' → Expr.Similar? L K e? e?' →
    Stmt.Similar (.var t e?) (.var t' e?')
  | block {body body'} : Stmt.SimilarEach body body' → Stmt.Similar (.block body) (.block body')
  | ifThen {e e' s s'} : Expr.Similar L K e e' → Stmt.Similar s s' →
    Stmt.Similar (.ifThen e s) (.ifThen e' s')
  | ifElse {e e' s s' t t'} : Expr.Similar L K e e' → Stmt.Similar s s' → Stmt.Similar t t' →
    Stmt.Similar (.ifElse e s t) (.ifElse e' s' t')
  | whileLoop {e e' s s'} : Expr.Similar L K e e' → Stmt.Similar s s' →
    Stmt.Similar (.whileLoop e s) (.whileLoop e' s')
  | function {f f'} : Stmt.SimilarFunction f f' → Stmt.Similar (.function f) (.function f')
  | ret {keyword keyword' e? e?'} : keyword.Similar K keyword' → Expr.Similar? L K e? e?' →
    Stmt.Similar (.ret keyword e?) (.ret keyword' e?')
  | classDecl {t t' fs fs'} : t.Similar K t' → Stmt.SimilarFunctions fs fs' →
    Stmt.Similar (.classDecl t fs) (.classDecl t' fs')

/-- The statements are similar one by one. -/
inductive Stmt.SimilarEach : List (Stmt α) → List (Stmt β) → Prop where
  | nil : Stmt.SimilarEach [] []
  | cons {s s' ss ss'} : Stmt.Similar s s' → Stmt.SimilarEach ss ss' →
    Stmt.SimilarEach (s :: ss) (s' :: ss')

/-- The functions are similar, their parameters included. -/
inductive Stmt.SimilarFunction : FunDecl α (Stmt α) → FunDecl β (Stmt β) → Prop where
  | mk {label label' t t' ps ps' body body'} : L label label' → t.Similar K t' →
    List.Forall₂ (Token.Similar K) ps ps' → Stmt.SimilarEach body body' →
    Stmt.SimilarFunction ⟨label, t, ps, body⟩ ⟨label', t', ps', body'⟩

/-- The functions are similar one by one. -/
inductive Stmt.SimilarFunctions : List (FunDecl α (Stmt α)) → List (FunDecl β (Stmt β)) → Prop where
  | nil : Stmt.SimilarFunctions [] []
  | cons {f f' fs fs'} : Stmt.SimilarFunction f f' → Stmt.SimilarFunctions fs fs' →
    Stmt.SimilarFunctions (f :: fs) (f' :: fs')

end

end

/-! ### Tokens -/

section

variable {K : Token → Token → Prop} {t t' : Token}

theorem Token.Similar.is_eq (h : t.Similar K t') (s : Symbol) : t'.is s = t.is s := by
  rw [Token.is, Token.is, h.kind]

theorem Token.Similar.isEnd_eq (h : t.Similar K t') : t'.isEnd = t.isEnd := h.is_eq _

/-- A token is similar to itself, if it corresponds to itself. -/
theorem Token.Similar.refl (h : K t t) : t.Similar K t := ⟨h, rfl, rfl⟩

end

/-! ### What is the same -/

section

variable {α β : Type} {L : α → β → Prop} {K : Token → Token → Prop}

theorem Expr.Similar?.isSome_eq {e? : Option (Expr α)} {e?' : Option (Expr β)}
    (h : Expr.Similar? L K e? e?') : e?'.isSome = e?.isSome := by
  cases h <;> rfl

theorem Stmt.SimilarFunction.name {f : FunDecl α (Stmt α)} {f' : FunDecl β (Stmt β)}
    (h : Stmt.SimilarFunction L K f f') : f.name.Similar K f'.name := by
  cases h with
  | mk _ hname => exact hname

theorem Stmt.SimilarFunction.isInitializer_eq {f : FunDecl α (Stmt α)} {f' : FunDecl β (Stmt β)}
    (h : Stmt.SimilarFunction L K f f') : f'.isInitializer = f.isInitializer := by
  rw [FunDecl.isInitializer, FunDecl.isInitializer, h.name.lexeme]

end

/-! ### A tree and itself -/

section

variable {α : Type}

mutual

theorem Expr.Similar.refl (e : Expr α) : Expr.Similar Eq Eq e e := by
  cases e with
  | literal value => exact .literal
  | group inner => exact .group (.refl inner)
  | unary op operand => exact .unary (.refl rfl) (.refl operand)
  | binary left op right => exact .binary (.refl left) (.refl rfl) (.refl right)
  | logical left op right => exact .logical (.refl left) (.refl rfl) (.refl right)
  | var id name => exact .var rfl (.refl rfl)
  | assign id name value => exact .assign rfl (.refl rfl) (.refl value)
  | call callee paren args => exact .call (.refl callee) (.refl rfl) (.refl args)
  | get object name => exact .get (.refl object) (.refl rfl)
  | set object name value => exact .set (.refl object) (.refl rfl) (.refl value)
  | thisRef id keyword => exact .thisRef rfl (.refl rfl)

theorem Expr.SimilarEach.refl (es : List (Expr α)) : Expr.SimilarEach Eq Eq es es := by
  cases es with
  | nil => exact .nil
  | cons e es => exact .cons (.refl e) (.refl es)

end

theorem Expr.Similar?.refl (e? : Option (Expr α)) : Expr.Similar? Eq Eq e? e? := by
  cases e? with
  | none => exact .none
  | some e => exact .some (.refl e)

mutual

theorem Stmt.Similar.refl (s : Stmt α) : Stmt.Similar Eq Eq s s := by
  cases s with
  | expr e => exact .expr (.refl e)
  | print e => exact .print (.refl e)
  | var name value? => exact .var (.refl rfl) (.refl value?)
  | block body => exact .block (.refl body)
  | ifThen condition s => exact .ifThen (.refl condition) (.refl s)
  | ifElse condition s s' => exact .ifElse (.refl condition) (.refl s) (.refl s')
  | whileLoop condition body => exact .whileLoop (.refl condition) (.refl body)
  | function decl => exact .function (.refl decl)
  | ret keyword value? => exact .ret (.refl rfl) (.refl value?)
  | classDecl name methods => exact .classDecl (.refl rfl) (.refl methods)

theorem Stmt.SimilarEach.refl (ss : List (Stmt α)) : Stmt.SimilarEach Eq Eq ss ss := by
  cases ss with
  | nil => exact .nil
  | cons s ss => exact .cons (.refl s) (.refl ss)

theorem Stmt.SimilarFunction.refl (f : FunDecl α (Stmt α)) : Stmt.SimilarFunction Eq Eq f f := by
  obtain ⟨label, name, params, body⟩ := f
  exact .mk rfl (.refl rfl) (List.forall₂_same.2 fun p _ => .refl rfl) (.refl body)

theorem Stmt.SimilarFunctions.refl (fs : List (FunDecl α (Stmt α))) :
    Stmt.SimilarFunctions Eq Eq fs fs := by
  cases fs with
  | nil => exact .nil
  | cons f fs => exact .cons (.refl f) (.refl fs)

end

end

end LoxLang
