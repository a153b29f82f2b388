import LoxLang.Proofs.Print.Form
import Mathlib.Data.List.Forall2

/-!
# Trees that match

Trees match if they are the same but for their labels, for the lines of their tokens, and for number
literals that have the same text.  Matching trees are printed alike (`Stmt.Matches.form_eq`).
-/

namespace LoxLang

/-- The tokens have the same kind and text. -/
structure Token.Matches (t t' : Token) : Prop where
  kind : t.kind = t'.kind
  lexeme : t.lexeme = t'.lexeme

/-- The literals are the same, or numbers with the same text. -/
inductive Literal.Matches : Literal → Literal → Prop where
  | same {v} : Literal.Matches v v
  | number {x y} : Number.literal x = Number.literal y → Literal.Matches (.number x) (.number y)

section

variable {α β : Type}

mutual

/-- The expressions match. -/
inductive Expr.Matches : Expr α → Expr β → Prop where
  | literal {v v'} : v.Matches v' → Expr.Matches (.literal v) (.literal v')
  | group {e e'} : Expr.Matches e e' → Expr.Matches (.group e) (.group e')
  | unary {op op' e e'} : op.Matches op' → Expr.Matches e e' →
    Expr.Matches (.unary op e) (.unary op' e')
  | binary {l l' op op' r r'} : Expr.Matches l l' → op.Matches op' → Expr.Matches r r' →
    Expr.Matches (.binary l op r) (.binary l' op' r')
  | logical {l l' op op' r r'} : Expr.Matches l l' → op.Matches op' → Expr.Matches r r' →
    Expr.Matches (.logical l op r) (.logical l' op' r')
  | var {id id' t t'} : t.Matches t' → Expr.Matches (.var id t) (.var id' t')
  | assign {id id' t t' e e'} : t.Matches t' → Expr.Matches e e' →
    Expr.Matches (.assign id t e) (.assign id' t' e')
  | call {f f' paren paren' es es'} : Expr.Matches f f' → paren.Matches paren' →
    Expr.MatchesEach es es' → Expr.Matches (.call f paren es) (.call f' paren' es')
  | get {e e' name name'} : Expr.Matches e e' → name.Matches name' →
    Expr.Matches (.get e name) (.get e' name')
  | set {o o' name name' e e'} : Expr.Matches o o' → name.Matches name' → Expr.Matches e e' →
    Expr.Matches (.set o name e) (.set o' name' e')
  | thisRef {id id' t t'} : t.Matches t' → Expr.Matches (.thisRef id t) (.thisRef id' t')

/-- The expressions match one by one. -/
inductive Expr.MatchesEach : List (Expr α) → List (Expr β) → Prop where
  | nil : Expr.MatchesEach [] []
  | cons {e e' es es'} : Expr.Matches e e' → Expr.MatchesEach es es' →
    Expr.MatchesEach (e :: es) (e' :: es')

end

/-- Two expressions that may be missing match, or both are missing. -/
def Expr.Matches? : Option (Expr α) → Option (Expr β) → Prop := Option.Rel Expr.Matches

mutual

/-- The statements match. -/
inductive Stmt.Matches : Stmt α → Stmt β → Prop where
  | expr {e e'} : Expr.Matches e e' → Stmt.Matches (.expr e) (.expr e')
  | print {e e'} : Expr.Matches e e' → Stmt.Matches (.print e) (.print e')
  | var {t t' e? e?'} : t.Matches t' → Expr.Matches? e? e?' → Stmt.Matches (.var t e?) (.var t' e?')
  | block {body body'} : Stmt.MatchesEach body body' → Stmt.Matches (.block body) (.block body')
  | ifThen {e e' s s'} : Expr.Matches e e' → Stmt.Matches s s' →
    Stmt.Matches (.ifThen e s) (.ifThen e' s')
  | ifElse {e e' s s' t t'} : Expr.Matches e e' → Stmt.Matches s s' → Stmt.Matches t t' →
    Stmt.Matches (.ifElse e s t) (.ifElse e' s' t')
  | whileLoop {e e' s s'} : Expr.Matches e e' → Stmt.Matches s s' →
    Stmt.Matches (.whileLoop e s) (.whileLoop e' s')
  | function {f f'} : Stmt.MatchesFunction f f' → Stmt.Matches (.function f) (.function f')
  | ret {keyword keyword' e? e?'} : keyword.Matches keyword' → Expr.Matches? e? e?' →
    Stmt.Matches (.ret keyword e?) (.ret keyword' e?')
  | classDecl {t t' fs fs'} : t.Matches t' → Stmt.MatchesFunctions fs fs' →
    Stmt.Matches (.classDecl t fs) (.classDecl t' fs')

/-- The statements match one by one. -/
inductive Stmt.MatchesEach : List (Stmt α) → List (Stmt β) → Prop where
  | nil : Stmt.MatchesEach [] []
  | cons {s s' ss ss'} : Stmt.Matches s s' → Stmt.MatchesEach ss ss' →
    Stmt.MatchesEach (s :: ss) (s' :: ss')

/-- The functions match, their parameters included. -/
inductive Stmt.MatchesFunction : FunDecl α (Stmt α) → FunDecl β (Stmt β) → Prop where
  | mk {label label' t t' ps ps' body body'} : t.Matches t' → List.Forall₂ Token.Matches ps ps' →
    Stmt.MatchesEach body body' → Stmt.MatchesFunction ⟨label, t, ps, body⟩ ⟨label', t', ps', body'⟩

/-- The functions match one by one. -/
inductive Stmt.MatchesFunctions : List (FunDecl α (Stmt α)) → List (FunDecl β (Stmt β)) → Prop where
  | nil : Stmt.MatchesFunctions [] []
  | cons {f f' fs fs'} : Stmt.MatchesFunction f f' → Stmt.MatchesFunctions fs fs' →
    Stmt.MatchesFunctions (f :: fs) (f' :: fs')

end

/-! ### Matching trees have the same form -/

theorem Literal.Matches.render_eq {v v' : Literal} (h : v.Matches v') : v.render = v'.render := by
  cases h with
  | same => rfl
  | number h => exact h

mutual

theorem Expr.Matches.form_eq {e : Expr α} {e' : Expr β} (h : e.Matches e') : e.form = e'.form := by
  cases h with
  | literal hv => rw [Expr.form, Expr.form, hv.render_eq]
  | group h => rw [Expr.form, Expr.form, h.form_eq]
  | unary hop h => rw [Expr.form, Expr.form, hop.lexeme, h.form_eq]
  | binary hl hop hr => rw [Expr.form, Expr.form, hl.form_eq, hop.lexeme, hr.form_eq]
  | logical hl hop hr => rw [Expr.form, Expr.form, hl.form_eq, hop.lexeme, hr.form_eq]
  | var ht => rw [Expr.form, Expr.form, ht.lexeme]
  | assign ht h => rw [Expr.form, Expr.form, ht.lexeme, h.form_eq]
  | call hf _ hes => rw [Expr.form, Expr.form, hf.form_eq, hes.forms_eq]
  | get h hname => rw [Expr.form, Expr.form, h.form_eq, hname.lexeme]
  | set ho hname h => rw [Expr.form, Expr.form, ho.form_eq, hname.lexeme, h.form_eq]
  | thisRef _ => rfl

theorem Expr.MatchesEach.forms_eq {es : List (Expr α)} {es' : List (Expr β)}
    (h : Expr.MatchesEach es es') : Expr.forms es = Expr.forms es' := by
  cases h with
  | nil => rfl
  | cons h hes => rw [Expr.forms, Expr.forms, h.form_eq, hes.forms_eq]

end

theorem Expr.Matches?.form?_eq {e? : Option (Expr α)} {e?' : Option (Expr β)}
    (h : Expr.Matches? e? e?') : Expr.form? e? = Expr.form? e?' := by
  cases h with
  | none => rfl
  | some h => rw [Expr.form?, Expr.form?, h.form_eq]

theorem words_eq {ps ps' : List Token} (h : List.Forall₂ Token.Matches ps ps') :
    ps.map (Form.word ·.lexeme) = ps'.map (Form.word ·.lexeme) := by
  induction h with
  | nil => rfl
  | cons hp _ ih => rw [List.map_cons, List.map_cons, hp.lexeme, ih]

mutual

theorem Stmt.Matches.form_eq {s : Stmt α} {s' : Stmt β} (h : s.Matches s') : s.form = s'.form := by
  cases h with
  | expr h => rw [Stmt.form, Stmt.form, h.form_eq]
  | print h => rw [Stmt.form, Stmt.form, h.form_eq]
  | var ht h => rw [Stmt.form, Stmt.form, ht.lexeme, h.form?_eq]
  | block h => rw [Stmt.form, Stmt.form, h.forms_eq]
  | ifThen h hs => rw [Stmt.form, Stmt.form, h.form_eq, hs.form_eq]
  | ifElse h hs ht => rw [Stmt.form, Stmt.form, h.form_eq, hs.form_eq, ht.form_eq]
  | whileLoop h hs => rw [Stmt.form, Stmt.form, h.form_eq, hs.form_eq]
  | function h => rw [Stmt.form, Stmt.form, h.form_eq]
  | ret _ h => rw [Stmt.form, Stmt.form, h.form?_eq]
  | classDecl ht h => rw [Stmt.form, Stmt.form, ht.lexeme, h.forms_eq]

theorem Stmt.MatchesEach.forms_eq {ss : List (Stmt α)} {ss' : List (Stmt β)}
    (h : Stmt.MatchesEach ss ss') : Stmt.forms ss = Stmt.forms ss' := by
  cases h with
  | nil => rfl
  | cons h hss => rw [Stmt.forms, Stmt.forms, h.form_eq, hss.forms_eq]

theorem Stmt.MatchesFunction.form_eq {d : FunDecl α (Stmt α)} {d' : FunDecl β (Stmt β)}
    (h : Stmt.MatchesFunction d d') (tag : String) : Stmt.functionForm tag d = Stmt.functionForm tag d' := by
  cases h with
  | mk hname hparams hbody =>
    rw [Stmt.functionForm, Stmt.functionForm, hname.lexeme, words_eq hparams, hbody.forms_eq]

theorem Stmt.MatchesFunctions.forms_eq {ds : List (FunDecl α (Stmt α))} {ds' : List (FunDecl β (Stmt β))}
    (h : Stmt.MatchesFunctions ds ds') : Stmt.methodForms ds = Stmt.methodForms ds' := by
  cases h with
  | nil => rfl
  | cons h hds => rw [Stmt.methodForms, Stmt.methodForms, h.form_eq, hds.forms_eq]

end

end

end LoxLang
