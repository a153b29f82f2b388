import LoxLang.Proofs.Similar.Tree
import LoxLang.Tree.Parse

/-!
# Parsing similar token sequences

The parser does not see where a token stands, and this holds for the mistakes that it finds as well: for
similar sequences it replies with similar trees and with the same mistakes at similar tokens.  Every way
of composing parsers keeps this (`Parse.Alike`), so it passes from the parsers of single tokens to all
others (`expressions_alike`, `statements_alike`).  What it makes of two similar sequences is similar, and
the errors are the same but for their lines (`parse_similar`).
-/

namespace LoxLang

namespace Parse

/-! ### Replies -/

section

variable (K : Token → Token → Prop)

/-- The same fault at similar tokens, or at the end of the input. -/
structure Mistake.Similar (m m' : Mistake) : Prop where
  at? : Option.Rel (Token.Similar K) m.at? m'.at?
  fault : m'.fault = m.fault

variable {α β : Type} (R : α → β → Prop)

/-- The replies end in the same way, the values are related, and all else is similar. -/
inductive Reply.Similar : Reply α → Reply β → Prop where
  | done {a a' rest rest' reported reported'} : R a a' →
    List.Forall₂ (Token.Similar K) rest rest' →
    List.Forall₂ (Mistake.Similar K) reported reported' →
    Reply.Similar (.done a rest reported) (.done a' rest' reported')
  | failed {e e' rest rest' reported reported'} : e.Similar K e' →
    List.Forall₂ (Token.Similar K) rest rest' →
    List.Forall₂ (Mistake.Similar K) reported reported' →
    Reply.Similar (.failed e rest reported) (.failed e' rest' reported')
  | starved : Reply.Similar .starved .starved

/-- The parsers give similar replies to similar tokens. -/
def Alike (p : Parser α) (p' : Parser β) : Prop :=
  ∀ ⦃tokens tokens'⦄, List.Forall₂ (Token.Similar K) tokens tokens' →
    (p tokens).Similar K R (p' tokens')

end

variable {K : Token → Token → Prop} {α α' β β' : Type} {R : α → α' → Prop} {S : β → β' → Prop}

theorem head?_similar {tokens tokens' : List Token}
    (h : List.Forall₂ (Token.Similar K) tokens tokens') :
    Option.Rel (Token.Similar K) tokens.head? tokens'.head? := by
  cases h with
  | nil => exact .none
  | cons ht _ => exact .some ht

theorem Reply.Similar.after {r : Reply α} {r' : Reply α'} (h : r.Similar K R r')
    {earlier earlier' : List Mistake} (he : List.Forall₂ (Mistake.Similar K) earlier earlier') :
    (r.after earlier).Similar K R (r'.after earlier') := by
  cases h with
  | done ha hrest hreported => exact .done ha hrest (List.rel_append he hreported)
  | failed hm hrest hreported => exact .failed hm hrest (List.rel_append he hreported)
  | starved => exact .starved

namespace Alike

/-! ### Ways of composing parsers -/

theorem pure {a : α} {a' : α'} (h : R a a') :
    Alike K R (Pure.pure a : Parser α) (Pure.pure a' : Parser α') :=
  fun _ _ htokens => .done h htokens .nil

theorem bind {p : Parser α} {p' : Parser α'} {f : α → Parser β} {f' : α' → Parser β'}
    (h : Alike K R p p') (hf : ∀ a a', R a a' → Alike K S (f a) (f' a')) :
    Alike K S (p >>= f) (p' >>= f') := by
  intro tokens tokens' htokens
  have hreply := h htokens
  rw [bind_apply, bind_apply]
  generalize p tokens = r, p' tokens' = r' at hreply
  cases hreply with
  | done ha hrest hreported => exact (hf _ _ ha hrest).after hreported
  | failed hm hrest hreported => exact .failed hm hrest hreported
  | starved => exact .starved

/-- After a parser whose value is the same for both. -/
theorem next {p : Parser α} {f : α → Parser β} {f' : α → Parser β'} (h : Alike K Eq p p)
    (hf : ∀ a, Alike K S (f a) (f' a)) : Alike K S (p >>= f) (p >>= f') :=
  h.bind fun a _ ha => ha ▸ hf a

theorem map {p : Parser α} {p' : Parser α'} {f : α → β} {f' : α' → β'} (h : Alike K R p p')
    (hf : ∀ a a', R a a' → S (f a) (f' a')) : Alike K S (f <$> p) (f' <$> p') := by
  rw [← bind_pure_comp, ← bind_pure_comp]
  exact h.bind fun a a' ha => .pure (hf a a' ha)

theorem ite {c : Prop} [Decidable c] {p q : Parser α} {p' q' : Parser α'} (h : Alike K R p p')
    (h' : Alike K R q q') : Alike K R (if c then p else q) (if c then p' else q') := by
  split
  · exact h
  · exact h'

theorem starve : Alike K R starve starve := fun _ _ _ => .starved

theorem fail (fault : SyntaxFault) : Alike K R (fail fault) (fail fault) :=
  fun _ _ htokens => .failed ⟨head?_similar htokens, rfl⟩ htokens .nil

theorem report {t? t?' : Option Token} (h : Option.Rel (Token.Similar K) t? t?')
    (fault : SyntaxFault) : Alike K Eq (report t? fault) (report t?' fault) :=
  fun _ _ htokens => .done rfl htokens (.cons ⟨h, rfl⟩ .nil)

/-! ### Single tokens -/

theorem peek? : Alike K (Option.Rel (Token.Similar K)) peek? peek? :=
  fun _ _ htokens => .done (head?_similar htokens) htokens .nil

theorem take? {f : Token → Option α} {f' : Token → Option α'}
    (hf : ∀ t t', t.Similar K t' → Option.Rel R (f t) (f' t')) :
    Alike K (Option.Rel R) (take? f) (take? f') := by
  intro tokens tokens' htokens
  cases htokens with
  | nil => exact .done .none .nil .nil
  | @cons t t' ts ts' ht hts =>
    rw [Parse.take?, Parse.take?]
    have hvalue := hf t t' ht
    generalize f t = a?, f' t' = a?' at hvalue
    cases hvalue with
    | none => exact .done .none (.cons ht hts) .nil
    | some ha => exact .done (.some ha) hts .nil

theorem acceptAny (symbols : List Symbol) :
    Alike K (Option.Rel (Token.Similar K)) (acceptAny symbols) (acceptAny symbols) := by
  refine take? fun t t' ht => ?_
  rw [funext ht.is_eq]
  split
  · exact .some ht
  · exact .none

theorem accept (s : Symbol) : Alike K (Option.Rel (Token.Similar K)) (accept s) (accept s) :=
  acceptAny [s]

theorem accepts (s : Symbol) : Alike K Eq (accepts s) (accepts s) :=
  (accept s).bind fun _ _ ht => .pure (by cases ht <;> rfl)

theorem expect (s : Symbol) (what : Expectation) :
    Alike K (Token.Similar K) (expect s what) (expect s what) := by
  refine (accept s).bind fun _ _ ht => ?_
  cases ht with
  | none => exact fail _
  | some ht => exact .pure ht

theorem skip (s : Symbol) (what : Expectation) : Alike K Eq (skip s what) (skip s what) :=
  (expect s what).bind fun _ _ _ => .pure rfl

theorem sees (s : Symbol) : Alike K Eq (sees s) (sees s) := by
  refine peek?.bind fun _ _ ht => .pure ?_
  cases ht with
  | none => rfl
  | some ht => exact (ht.is_eq s).symm

theorem atEnd : Alike K Eq atEnd atEnd :=
  peek?.bind fun _ _ ht => .pure (by cases ht <;> rfl)

theorem atClose : Alike K Eq atClose atClose := by
  refine peek?.bind fun _ _ ht => .pure ?_
  cases ht with
  | none => rfl
  | some ht => exact (ht.is_eq _).symm

/-! ### Recovery -/

theorem settle {last last' : Token} (hlast : last.Similar K last') {tokens tokens' : List Token}
    (h : List.Forall₂ (Token.Similar K) tokens tokens') :
    List.Forall₂ (Token.Similar K) (settle last tokens) (settle last' tokens') := by
  induction h generalizing last last' with
  | nil => exact .nil
  | @cons t t' ts ts' ht hts ih =>
    rw [Parse.settle, Parse.settle, hlast.is_eq, funext ht.is_eq]
    split
    · exact .cons ht hts
    · exact ih ht

theorem synchronize {tokens tokens' : List Token}
    (h : List.Forall₂ (Token.Similar K) tokens tokens') :
    List.Forall₂ (Token.Similar K) (synchronize tokens) (synchronize tokens') := by
  cases h with
  | nil => exact .nil
  | cons ht hts => exact settle ht hts

theorem recover {p : Parser α} {p' : Parser α'} (h : Alike K R p p') :
    Alike K (Option.Rel R) (recover p) (recover p') := by
  intro tokens tokens' htokens
  have hreply := h htokens
  unfold Parse.recover
  generalize p tokens = r, p' tokens' = r' at hreply
  cases hreply with
  | done ha hrest hreported => exact .done (.some ha) hrest hreported
  | failed hm hrest hreported =>
    exact .done .none (synchronize hrest) (List.rel_append hreported (.cons hm .nil))
  | starved => exact .starved

end Alike

/-! ### Expressions -/

theorem atom?_similar (t t' : Token) (h : t.Similar K t') :
    Option.Rel (Expr.Similar Eq K) (atom? t) (atom? t') := by
  unfold atom?
  rw [h.kind]
  split
  · exact .some .literal
  · exact .some .literal
  · exact .some .literal
  · exact .some .literal
  · exact .some .literal
  · exact .some (.thisRef rfl h)
  · exact .some (.var rfl h)
  · exact .none

theorem node_similar (level : Level) {left left' right right' : Expr Unit} {op op' : Token}
    (hl : Expr.Similar Eq K left left') (hop : op.Similar K op')
    (hr : Expr.Similar Eq K right right') :
    Expr.Similar Eq K (level.node left op right) (level.node left' op' right') := by
  cases level with
  | or | and => exact .logical hl hop hr
  | _ => exact .binary hl hop hr

theorem assignTo_alike {target target' value value' : Expr Unit} {equals equals' : Token}
    (htarget : Expr.Similar Eq K target target') (hequals : equals.Similar K equals')
    (hvalue : Expr.Similar Eq K value value') :
    Alike K (Expr.Similar Eq K) (assignTo target equals value)
      (assignTo target' equals' value') := by
  have hreport : Alike K (Expr.Similar Eq K)
      (do report (some equals) .invalidTarget; return target)
      (do report (some equals') .invalidTarget; return target') :=
    (Alike.report (.some hequals) _).bind fun _ _ _ => .pure htarget
  cases htarget with
  | var hid hname => exact .pure (.assign hid hname hvalue)
  | get hobject hname => exact .pure (.set hobject hname hvalue)
  | _ => exact hreport

/-- The parsers of expressions give similar replies to similar tokens. -/
structure ExpressionsAlike (K : Token → Token → Prop) (fuel : Nat) : Prop where
  expression : Alike K (Expr.Similar Eq K) (expression fuel) (expression fuel)
  operand : ∀ l?, Alike K (Expr.Similar Eq K) (operand fuel l?) (operand fuel l?)
  operandRest : ∀ level left left', Expr.Similar Eq K left left' →
    Alike K (Expr.Similar Eq K) (operandRest fuel level left) (operandRest fuel level left')
  unary : Alike K (Expr.Similar Eq K) (unary fuel) (unary fuel)
  callRest : ∀ callee callee', Expr.Similar Eq K callee callee' →
    Alike K (Expr.Similar Eq K) (callRest fuel callee) (callRest fuel callee')
  arguments : ∀ count,
    Alike K (Expr.SimilarEach Eq K) (arguments fuel count) (arguments fuel count)
  primary : Alike K (Expr.Similar Eq K) (primary fuel) (primary fuel)

theorem expressions_alike (K : Token → Token → Prop) (fuel : Nat) : ExpressionsAlike K fuel := by
  induction fuel with
  | zero => constructor <;> intros <;> exact Alike.starve
  | succ fuel ih =>
    constructor
    case expression =>
      rw [Parse.expression]
      refine (ih.operand _).bind fun target target' htarget => ?_
      refine (Alike.accept _).bind fun _ _ hequals => ?_
      cases hequals with
      | none => exact .pure htarget
      | some hequals =>
        exact ih.expression.bind fun value value' hvalue => assignTo_alike htarget hequals hvalue
    case operand =>
      intro l?
      cases l? with
      | none => rw [Parse.operand]; exact ih.unary
      | some level =>
        rw [Parse.operand]
        exact (ih.operand _).bind fun left left' hleft => ih.operandRest level left left' hleft
    case operandRest =>
      intro level left left' hleft
      rw [Parse.operandRest, Parse.operandRest]
      refine (Alike.acceptAny _).bind fun _ _ hop => ?_
      cases hop with
      | none => exact .pure hleft
      | some hop =>
        refine (ih.operand _).bind fun right right' hright => ih.operandRest level _ _ ?_
        exact node_similar level hleft hop hright
    case unary =>
      rw [Parse.unary]
      refine (Alike.acceptAny _).bind fun _ _ hop => ?_
      cases hop with
      | none => exact ih.primary.bind fun callee callee' hcallee => ih.callRest _ _ hcallee
      | some hop => exact ih.unary.bind fun operand operand' h => .pure (.unary hop h)
    case callRest =>
      intro callee callee' hcallee
      rw [Parse.callRest, Parse.callRest]
      have hcall : ∀ args args', Expr.SimilarEach Eq K args args' → Alike K (Expr.Similar Eq K)
          (do callRest fuel (.call callee (← expect .rightParen .argumentsEnd) args))
          (do callRest fuel (.call callee' (← expect .rightParen .argumentsEnd) args')) :=
        fun args args' hargs => (Alike.expect _ _).bind fun paren paren' hparen =>
          ih.callRest _ _ (.call hcallee hparen hargs)
      refine (Alike.accepts _).next fun _ => .ite ?_ ?_
      · refine (Alike.sees _).next fun _ => .ite ?_ ?_
        · exact (Alike.pure .nil).bind hcall
        · exact (ih.arguments 0).bind hcall
      · refine (Alike.accepts _).next fun _ => .ite ?_ (.pure hcallee)
        exact (Alike.expect _ _).bind fun name name' hname =>
          ih.callRest _ _ (.get hcallee hname)
    case arguments =>
      intro count
      rw [Parse.arguments]
      have hrest : ∀ arg arg', Expr.Similar Eq K arg arg' → Alike K (Expr.SimilarEach Eq K)
          (do if ← accepts .comma then return arg :: (← arguments fuel (count + 1))
              else return [arg])
          (do if ← accepts .comma then return arg' :: (← arguments fuel (count + 1))
              else return [arg']) := fun arg arg' harg =>
        (Alike.accepts _).next fun _ =>
          .ite ((ih.arguments _).bind fun _ _ hargs => .pure (.cons harg hargs))
            (.pure (.cons harg .nil))
      refine .ite ?_ (ih.expression.bind hrest)
      exact Alike.peek?.bind fun _ _ ht => (Alike.report ht _).bind fun _ _ _ =>
        ih.expression.bind hrest
    case primary =>
      rw [Parse.primary]
      refine (Alike.take? atom?_similar).bind fun _ _ hatom => ?_
      cases hatom with
      | some h => exact .pure h
      | none =>
        refine (Alike.accepts _).next fun _ => .ite ?_ (.fail _)
        exact ih.expression.bind fun inner inner' h =>
          (Alike.skip _ _).next fun _ => .pure (.group h)

/-! ### Statements -/

theorem withIncrement_similar {body body' : Stmt Unit} {increment? increment?' : Option (Expr Unit)}
    (hbody : Stmt.Similar Eq K body body') (hincrement : Expr.Similar? Eq K increment? increment?') :
    Stmt.Similar Eq K (body.withIncrement increment?) (body'.withIncrement increment?') := by
  cases hincrement with
  | none => exact hbody
  | some h => exact .block (.cons hbody (.cons (.expr h) .nil))

theorem withInitializer_similar {loop loop' : Stmt Unit}
    {initializer? initializer?' : Option (Stmt Unit)} (hloop : Stmt.Similar Eq K loop loop')
    (hinitializer : Option.Rel (Stmt.Similar Eq K) initializer? initializer?') :
    Stmt.Similar Eq K (loop.withInitializer initializer?)
      (loop'.withInitializer initializer?') := by
  cases hinitializer with
  | none => exact hloop
  | some h => exact .block (.cons h (.cons hloop .nil))

theorem forLoop_similar {initializer? initializer?' : Option (Stmt Unit)}
    {condition? condition?' increment? increment?' : Option (Expr Unit)} {body body' : Stmt Unit}
    (hinitializer : Option.Rel (Stmt.Similar Eq K) initializer? initializer?')
    (hcondition : Expr.Similar? Eq K condition? condition?')
    (hincrement : Expr.Similar? Eq K increment? increment?') (hbody : Stmt.Similar Eq K body body') :
    Stmt.Similar Eq K (.forLoop initializer? condition? increment? body)
      (.forLoop initializer?' condition?' increment?' body') := by
  have hc : Expr.Similar Eq K (condition?.getD (.literal (.bool true)))
      (condition?'.getD (.literal (.bool true))) := by
    cases hcondition with
    | none => exact .literal
    | some h => exact h
  exact withInitializer_similar (.whileLoop hc (withIncrement_similar hbody hincrement)) hinitializer

theorem varDeclaration_alike (fuel : Nat) :
    Alike K (Stmt.Similar Eq K) (varDeclaration fuel) (varDeclaration fuel) := by
  have hend : ∀ (name name' : Token) (value? value?' : Option (Expr Unit)),
      name.Similar K name' → Expr.Similar? Eq K value? value?' → Alike K (Stmt.Similar Eq K)
        (do skip .semicolon .variableEnd; return .var name value?)
        (do skip .semicolon .variableEnd; return .var name' value?') :=
    fun _ _ _ _ hname hvalue => (Alike.skip _ _).next fun _ => .pure (.var hname hvalue)
  refine (Alike.expect _ _).bind fun name name' hname => (Alike.accepts _).next fun _ => .ite ?_ ?_
  · exact ((expressions_alike K fuel).expression.map fun _ _ h => .some h).bind
      fun _ _ hvalue => hend _ _ _ _ hname hvalue
  · exact (Alike.pure .none).bind fun _ _ hvalue => hend _ _ _ _ hname hvalue

theorem expressionStatement_alike (fuel : Nat) :
    Alike K (Stmt.Similar Eq K) (expressionStatement fuel) (expressionStatement fuel) :=
  (expressions_alike K fuel).expression.bind fun _ _ h =>
    (Alike.skip _ _).next fun _ => .pure (.expr h)

theorem forInitializer_alike (fuel : Nat) :
    Alike K (Option.Rel (Stmt.Similar Eq K)) (forInitializer fuel) (forInitializer fuel) := by
  refine (Alike.accepts _).next fun _ => .ite (.pure .none) ?_
  refine (Alike.accepts _).next fun _ => .ite ?_ ?_
  · exact (varDeclaration_alike fuel).map fun _ _ h => .some h
  · exact (expressionStatement_alike fuel).map fun _ _ h => .some h

theorem expressionBefore_alike (fuel : Nat) (s : Symbol) :
    Alike K (Expr.Similar? Eq K) (expressionBefore fuel s) (expressionBefore fuel s) :=
  (Alike.sees _).next fun _ =>
    .ite (.pure .none) ((expressions_alike K fuel).expression.map fun _ _ h => .some h)

/-- What stands after a parameter: the end of the list, or a comma and the rest. -/
theorem moreParameters_alike {rest : Parser (List Token)}
    (hrest : Alike K (List.Forall₂ (Token.Similar K)) rest rest) (name name' : Token)
    (hname : name.Similar K name') :
    Alike K (List.Forall₂ (Token.Similar K))
      (do match ← accept .comma with
          | some _ => return name :: (← rest)
          | none => return [name])
      (do match ← accept .comma with
          | some _ => return name' :: (← rest)
          | none => return [name']) := by
  refine (Alike.accept _).bind fun _ _ hcomma => ?_
  cases hcomma with
  | none => exact .pure (.cons hname .nil)
  | some _ => exact hrest.bind fun _ _ hparams => .pure (.cons hname hparams)

theorem parameters_alike (fuel count : Nat) :
    Alike K (List.Forall₂ (Token.Similar K)) (parameters fuel count) (parameters fuel count) := by
  induction fuel generalizing count with
  | zero => exact Alike.starve
  | succ fuel ih =>
    rw [parameters]
    have hparam := (Alike.expect .identifier .parameterName).bind
      (moreParameters_alike (ih (count + 1)))
    exact .ite (Alike.peek?.bind fun _ _ ht => (Alike.report ht _).bind fun _ _ _ => hparam) hparam

/-- The parsers of statements give similar replies to similar tokens. -/
structure StatementsAlike (K : Token → Token → Prop) (fuel : Nat) : Prop where
  declarations : ∀ inBlock, Alike K (Stmt.SimilarEach Eq K) (declarations fuel inBlock)
    (declarations fuel inBlock)
  declaration : Alike K (Stmt.Similar Eq K) (declaration fuel) (declaration fuel)
  methods : Alike K (Stmt.SimilarFunctions Eq K) (methods fuel) (methods fuel)
  function : ∀ kind,
    Alike K (Stmt.SimilarFunction Eq K) (function fuel kind) (function fuel kind)
  block : Alike K (Stmt.SimilarEach Eq K) (block fuel) (block fuel)
  statement : Alike K (Stmt.Similar Eq K) (statement fuel) (statement fuel)

theorem statement_alike {fuel : Nat} (ih : StatementsAlike K fuel) :
    Alike K (Stmt.Similar Eq K) (statement (fuel + 1)) (statement (fuel + 1)) := by
  have hexpr := (expressions_alike K fuel).expression
  rw [statement]
  -- each keyword in turn, and last an expression statement
  refine (Alike.accepts _).next fun _ => .ite ?_ ((Alike.accepts _).next fun _ => .ite ?_ ?_)
  · refine (Alike.skip _ _).next fun _ => (forInitializer_alike fuel).bind fun _ _ hinit => ?_
    refine (expressionBefore_alike fuel _).bind fun _ _ hcondition => ?_
    refine (Alike.skip _ _).next fun _ => (expressionBefore_alike fuel _).bind fun _ _ hinc => ?_
    exact (Alike.skip _ _).next fun _ => ih.statement.bind fun _ _ hbody =>
      .pure (forLoop_similar hinit hcondition hinc hbody)
  · refine (Alike.skip _ _).next fun _ => hexpr.bind fun _ _ hcondition => ?_
    refine (Alike.skip _ _).next fun _ => ih.statement.bind fun _ _ hthen => ?_
    refine (Alike.accepts _).next fun _ => .ite ?_ (.pure (.ifThen hcondition hthen))
    exact ih.statement.bind fun _ _ helse => .pure (.ifElse hcondition hthen helse)
  refine (Alike.accepts _).next fun _ => .ite ?_ ((Alike.accepts _).next fun _ => .ite ?_ ?_)
  · exact hexpr.bind fun _ _ hvalue => (Alike.skip _ _).next fun _ => .pure (.print hvalue)
  · refine (Alike.skip _ _).next fun _ => hexpr.bind fun _ _ hcondition => ?_
    refine (Alike.skip _ _).next fun _ => ih.statement.bind fun _ _ hbody => ?_
    exact .pure (.whileLoop hcondition hbody)
  refine (Alike.accepts _).next fun _ =>
    .ite (ih.block.bind fun _ _ hbody => .pure (.block hbody)) ?_
  refine (Alike.accept _).bind fun _ _ hkeyword => ?_
  cases hkeyword with
  | none => exact expressionStatement_alike fuel
  | some hkeyword =>
    exact (expressionBefore_alike fuel _).bind fun _ _ hvalue =>
      (Alike.skip _ _).next fun _ => .pure (.ret hkeyword hvalue)

theorem statements_alike (K : Token → Token → Prop) (fuel : Nat) : StatementsAlike K fuel := by
  induction fuel with
  | zero => constructor <;> intros <;> exact Alike.starve
  | succ fuel ih =>
    constructor
    case declarations =>
      intro inBlock
      rw [Parse.declarations]
      have hnext : Alike K (Stmt.SimilarEach Eq K)
          (do return (← recover (declaration fuel)).toList ++ (← declarations fuel inBlock))
          (do return (← recover (declaration fuel)).toList ++ (← declarations fuel inBlock)) := by
        refine ih.declaration.recover.bind fun _ _ hfirst => ?_
        refine (ih.declarations _).bind fun _ _ hmore => .pure ?_
        cases hfirst with
        | none => exact hmore
        | some hfirst => exact .cons hfirst hmore
      have hended : Alike K Eq (if inBlock then atClose else atEnd)
          (if inBlock then atClose else atEnd) := .ite .atClose .atEnd
      exact hended.next fun _ => .ite (.pure .nil) hnext
    case declaration =>
      rw [Parse.declaration]
      refine (Alike.accepts _).next fun _ => .ite ?_ ((Alike.accepts _).next fun _ => .ite ?_ ?_)
      · refine (Alike.expect _ _).bind fun _ _ hname => (Alike.skip _ _).next fun _ => ?_
        exact ih.methods.bind fun _ _ hmethods =>
          (Alike.skip _ _).next fun _ => .pure (.classDecl hname hmethods)
      · exact (ih.function _).bind fun _ _ hdecl => .pure (.function hdecl)
      · exact (Alike.accepts _).next fun _ => .ite (varDeclaration_alike fuel) ih.statement
    case methods =>
      rw [Parse.methods]
      refine Alike.atClose.next fun _ => .ite (.pure .nil) ?_
      exact (ih.function _).bind fun _ _ hfirst => ih.methods.bind fun _ _ hmore =>
        .pure (.cons hfirst hmore)
    case function =>
      intro kind
      rw [Parse.function]
      have hrest : ∀ (name name' : Token) (params params' : List Token), name.Similar K name' →
          List.Forall₂ (Token.Similar K) params params' → Alike K (Stmt.SimilarFunction Eq K)
            (do skip .rightParen .parametersEnd
                skip .leftBrace (.functionBody kind)
                return ⟨(), name, params, ← block fuel⟩)
            (do skip .rightParen .parametersEnd
                skip .leftBrace (.functionBody kind)
                return ⟨(), name', params', ← block fuel⟩) :=
        fun _ _ _ _ hname hparams => (Alike.skip _ _).next fun _ => (Alike.skip _ _).next fun _ =>
          ih.block.bind fun _ _ hbody => .pure (.mk rfl hname hparams hbody)
      refine (Alike.expect _ _).bind fun _ _ hname => (Alike.skip _ _).next fun _ => ?_
      refine (Alike.sees _).next fun _ => .ite ?_ ?_
      · exact (Alike.pure .nil).bind fun _ _ hparams => hrest _ _ _ _ hname hparams
      · exact (parameters_alike fuel 0).bind fun _ _ hparams => hrest _ _ _ _ hname hparams
    case block =>
      rw [Parse.block]
      exact (ih.declarations true).bind fun _ _ hbody => (Alike.skip _ _).next fun _ => .pure hbody
    case statement => exact statement_alike ih

end Parse

/-! ### Whole sequences -/

/-- The errors are the same but for their lines. -/
structure SyntaxError.Similar (e e' : SyntaxError) : Prop where
  fault : e'.fault = e.fault
  lexeme? : e'.site.lexeme? = e.site.lexeme?

/-- Similar statements, and the same errors but for their lines. -/
structure Parsed.Similar (K : Token → Token → Prop) (p p' : Parsed) : Prop where
  statements : Stmt.SimilarEach Eq K p.statements p'.statements
  errors : List.Forall₂ SyntaxError.Similar p.errors p'.errors

section

variable {K : Token → Token → Prop}

theorem Token.Similar.lexeme?_eq {t t' : Token} (h : t.Similar K t') :
    t'.site.lexeme? = t.site.lexeme? := by
  rw [Token.site, Token.site, h.isEnd_eq, h.lexeme]

theorem Parse.Mistake.Similar.locate {m m' : Mistake} (h : m.Similar K m')
    (endLine endLine' : Nat) : (m.locate endLine).Similar (m'.locate endLine') where
  fault := h.fault
  lexeme? := by
    obtain ⟨t?, f⟩ := m
    obtain ⟨t?', f'⟩ := m'
    obtain ⟨hat, -⟩ := h
    cases hat with
    | none => rfl
    | some ht => exact ht.lexeme?_eq

theorem Token.Similar.takeWhile {tokens tokens' : List Token}
    (h : List.Forall₂ (Token.Similar K) tokens tokens') :
    List.Forall₂ (Token.Similar K) (tokens.takeWhile (!·.isEnd)) (tokens'.takeWhile (!·.isEnd)) := by
  induction h with
  | nil => exact .nil
  | @cons t t' ts ts' ht _ ih =>
    rw [List.takeWhile_cons, List.takeWhile_cons, ht.isEnd_eq]
    cases t.isEnd with
    | true => exact .nil
    | false => exact .cons ht ih

/-- The parser makes of similar sequences what is similar. -/
theorem parse_similar {tokens tokens' : List Token}
    (h : List.Forall₂ (Token.Similar K) tokens tokens') :
    (parse tokens).Similar K (parse tokens') := by
  have hbody := Token.Similar.takeWhile h
  have hfuel : Parse.fuelFor (tokens'.takeWhile (!·.isEnd)) =
      Parse.fuelFor (tokens.takeWhile (!·.isEnd)) := by
    rw [Parse.fuelFor, Parse.fuelFor, hbody.length_eq]
  have hreply := (Parse.statements_alike K
    (Parse.fuelFor (tokens.takeWhile (!·.isEnd)))).declarations false hbody
  have hlocate {reported reported'} (endLine endLine' : Nat)
      (h : List.Forall₂ (Parse.Mistake.Similar K) reported reported') :
      List.Forall₂ SyntaxError.Similar (reported.map (·.locate endLine))
        (reported'.map (·.locate endLine')) :=
    List.forall₂_map_left_iff.2 (List.forall₂_map_right_iff.2
      (h.imp fun _ _ hm => hm.locate endLine endLine'))
  unfold parse
  dsimp only
  rw [hfuel]
  generalize Parse.declarations _ _ (tokens.takeWhile (!·.isEnd)) = r,
    Parse.declarations _ _ (tokens'.takeWhile (!·.isEnd)) = r' at hreply
  cases hreply with
  | done hstatements _ hreported => exact ⟨hstatements, hlocate _ _ hreported⟩
  | failed _ _ hreported => exact ⟨.nil, hlocate _ _ hreported⟩
  | starved => exact ⟨.nil, .nil⟩

end

end LoxLang
