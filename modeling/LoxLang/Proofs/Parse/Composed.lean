import LoxLang.Tree.Parse
import Mathlib.Data.List.TakeWhile

/-!
# What parsed trees are composed of

The parser puts a token into a tree only where a token of its kind stands: an operator between operands of
its level, an identifier where something is named, a keyword where it begins something.  This holds of every
statement that is returned, mistakes or not, since a mistake leaves out the declaration that it ends, and
reports the others (`composed_of_mem_parse`).
-/

namespace LoxLang

/-! ### The tokens and literals of a tree -/

/-- The operators that stand between two operands, both of which are evaluated. -/
def binaryOperators : List Symbol :=
  [.bangEqual, .equalEqual, .greater, .greaterEqual, .less, .lessEqual, .minus, .plus, .slash, .star]

/-- The operators whose right operand need not be evaluated. -/
def logicalOperators : List Symbol := [.orKw, .andKw]

section

variable {α : Type} (T : List Symbol → Token → Prop) (P : Literal → Prop)

mutual

/-- `P` holds of every literal in the expression, and `T` of every token together with the symbols that may
stand in its place. -/
def Expr.Composed : Expr α → Prop
  | .literal value => P value
  | .group inner => inner.Composed
  | .unary op operand => T [.bang, .minus] op ∧ operand.Composed
  | .binary left op right => left.Composed ∧ T binaryOperators op ∧ right.Composed
  | .logical left op right => left.Composed ∧ T logicalOperators op ∧ right.Composed
  | .var _ name => T [.identifier] name
  | .assign _ name value => T [.identifier] name ∧ value.Composed
  | .call callee paren args => callee.Composed ∧ T [.rightParen] paren ∧ Expr.ComposedEach args
  | .get object name => object.Composed ∧ T [.identifier] name
  | .set object name value => object.Composed ∧ T [.identifier] name ∧ value.Composed
  | .thisRef _ keyword => T [.thisKw] keyword

/-- All of the expressions are composed so. -/
def Expr.ComposedEach : List (Expr α) → Prop
  | [] => True
  | e :: es => e.Composed ∧ Expr.ComposedEach es

end

/-- An expression that may be missing is composed so. -/
def Expr.Composed? : Option (Expr α) → Prop
  | none => True
  | some e => e.Composed T P

mutual

/-- `P` holds of every literal in the statement, and `T` of every token together with the symbols that may
stand in its place. -/
def Stmt.Composed : Stmt α → Prop
  | .expr e => e.Composed T P
  | .print e => e.Composed T P
  | .var name value? => T [.identifier] name ∧ Expr.Composed? T P value?
  | .block body => Stmt.ComposedEach body
  | .ifThen condition s => condition.Composed T P ∧ s.Composed
  | .ifElse condition s s' => condition.Composed T P ∧ s.Composed ∧ s'.Composed
  | .whileLoop condition body => condition.Composed T P ∧ body.Composed
  | .function decl => Stmt.ComposedFunction decl
  | .ret keyword value? => T [.returnKw] keyword ∧ Expr.Composed? T P value?
  | .classDecl name methods => T [.identifier] name ∧ Stmt.ComposedFunctions methods

/-- All of the statements are composed so. -/
def Stmt.ComposedEach : List (Stmt α) → Prop
  | [] => True
  | s :: ss => s.Composed ∧ Stmt.ComposedEach ss

/-- The function is composed so, its name and parameters included. -/
def Stmt.ComposedFunction : FunDecl α (Stmt α) → Prop
  | ⟨_, name, params, body⟩ =>
    T [.identifier] name ∧ (∀ p ∈ params, T [.identifier] p) ∧ Stmt.ComposedEach body

/-- All of the functions are composed so. -/
def Stmt.ComposedFunctions : List (FunDecl α (Stmt α)) → Prop
  | [] => True
  | d :: ds => Stmt.ComposedFunction d ∧ Stmt.ComposedFunctions ds

end

end

/-! ### Tokens and literals at once -/

section

variable {α : Type} {T : List Symbol → Token → Prop} {P : Literal → Prop}

mutual

theorem Expr.Composed.and {e : Expr α} (h : e.Composed T fun _ => True)
    (h' : e.Composed (fun _ _ => True) P) : e.Composed T P := by
  cases e with
  | literal _ => exact h'
  | var _ _ | thisRef _ _ => exact h
  | group inner => exact Expr.Composed.and (e := inner) h h'
  | unary op operand => exact ⟨h.1, h.2.and h'.2⟩
  | binary left op right => exact ⟨h.1.and h'.1, h.2.1, h.2.2.and h'.2.2⟩
  | logical left op right => exact ⟨h.1.and h'.1, h.2.1, h.2.2.and h'.2.2⟩
  | assign label name value => exact ⟨h.1, h.2.and h'.2⟩
  | call callee paren args => exact ⟨h.1.and h'.1, h.2.1, h.2.2.and h'.2.2⟩
  | get object name => exact ⟨h.1.and h'.1, h.2⟩
  | set object name value => exact ⟨h.1.and h'.1, h.2.1, h.2.2.and h'.2.2⟩

theorem Expr.ComposedEach.and {es : List (Expr α)} (h : Expr.ComposedEach T (fun _ => True) es)
    (h' : Expr.ComposedEach (fun _ _ => True) P es) : Expr.ComposedEach T P es := by
  cases es with
  | nil => trivial
  | cons e es => exact ⟨h.1.and h'.1, h.2.and h'.2⟩

end

theorem Expr.Composed?.and {e? : Option (Expr α)} (h : Expr.Composed? T (fun _ => True) e?)
    (h' : Expr.Composed? (fun _ _ => True) P e?) : Expr.Composed? T P e? := by
  cases e? with
  | none => trivial
  | some e => exact Expr.Composed.and (e := e) h h'

mutual

theorem Stmt.Composed.and {s : Stmt α} (h : s.Composed T fun _ => True)
    (h' : s.Composed (fun _ _ => True) P) : s.Composed T P := by
  cases s with
  | expr e | print e => exact Expr.Composed.and (e := e) h h'
  | var name value? => exact ⟨h.1, h.2.and h'.2⟩
  | block body => exact @Stmt.ComposedEach.and body h h'
  | ifThen condition s => exact ⟨h.1.and h'.1, h.2.and h'.2⟩
  | ifElse condition s s' => exact ⟨h.1.and h'.1, h.2.1.and h'.2.1, h.2.2.and h'.2.2⟩
  | whileLoop condition body => exact ⟨h.1.and h'.1, h.2.and h'.2⟩
  | function decl => exact Stmt.ComposedFunction.and (d := decl) h h'
  | ret keyword value? => exact ⟨h.1, h.2.and h'.2⟩
  | classDecl name methods => exact ⟨h.1, h.2.and h'.2⟩

theorem Stmt.ComposedEach.and {ss : List (Stmt α)} (h : Stmt.ComposedEach T (fun _ => True) ss)
    (h' : Stmt.ComposedEach (fun _ _ => True) P ss) : Stmt.ComposedEach T P ss := by
  cases ss with
  | nil => trivial
  | cons s ss => exact ⟨h.1.and h'.1, h.2.and h'.2⟩

theorem Stmt.ComposedFunction.and {d : FunDecl α (Stmt α)}
    (h : Stmt.ComposedFunction T (fun _ => True) d)
    (h' : Stmt.ComposedFunction (fun _ _ => True) P d) : Stmt.ComposedFunction T P d := by
  obtain ⟨label, name, params, body⟩ := d
  exact ⟨h.1, h.2.1, h.2.2.and h'.2.2⟩

theorem Stmt.ComposedFunctions.and {ds : List (FunDecl α (Stmt α))}
    (h : Stmt.ComposedFunctions T (fun _ => True) ds)
    (h' : Stmt.ComposedFunctions (fun _ _ => True) P ds) : Stmt.ComposedFunctions T P ds := by
  cases ds with
  | nil => trivial
  | cons d ds => exact ⟨h.1.and h'.1, h.2.and h'.2⟩

end

theorem Stmt.ComposedEach.of_mem {ss : List (Stmt α)} (h : Stmt.ComposedEach T P ss) {s : Stmt α}
    (hs : s ∈ ss) : s.Composed T P := by
  induction ss with
  | nil => cases hs
  | cons first ss ih =>
    rcases List.mem_cons.1 hs with rfl | hs
    · exact h.1
    · exact ih h.2 hs

end

namespace Parse

/-! ### What a parser yields -/

section

variable (Q : Token → Prop) {α β : Type}

/-- The token is one of those of which `Q` holds, and of a kind that may stand in its place. -/
def Placed (symbols : List Symbol) (t : Token) : Prop := Q t ∧ symbols.any t.is = true

/-- The value satisfies `post`, and `Q` holds of the tokens that are left. -/
inductive Reply.Yields (post : α → Prop) : Reply α → Prop where
  | done {a rest reported} : post a → (∀ t ∈ rest, Q t) → Reply.Yields post (.done a rest reported)
  | failed {e rest reported} : (∀ t ∈ rest, Q t) → Reply.Yields post (.failed e rest reported)
  | starved : Reply.Yields post .starved

/-- From tokens of which `Q` holds, the parser yields a value that satisfies `post`. -/
def Yields (post : α → Prop) (p : Parser α) : Prop :=
  ∀ ⦃tokens⦄, (∀ t ∈ tokens, Q t) → (p tokens).Yields Q post

variable {Q} {post : α → Prop} {post' : β → Prop}

namespace Yields

protected theorem pure {a : α} (h : post a) : Yields Q post (pure a : Parser α) :=
  fun _ htokens => .done h htokens

theorem bind {p : Parser α} {f : α → Parser β} (h : Yields Q post p)
    (hf : ∀ a, post a → Yields Q post' (f a)) : Yields Q post' (p >>= f) := by
  intro tokens htokens
  have hreply := h htokens
  rw [bind_apply]
  generalize p tokens = r at hreply
  cases hreply with
  | @done a rest reported ha hrest =>
    have hlater := hf a ha hrest
    dsimp only
    generalize f a rest = r at hlater
    cases hlater with
    | done hb hleft => exact .done hb hleft
    | failed hleft => exact .failed hleft
    | starved => exact .starved
  | failed hrest => exact .failed hrest
  | starved => exact .starved

theorem map {p : Parser α} {f : α → β} (h : Yields Q post p) (hf : ∀ a, post a → post' (f a)) :
    Yields Q post' (f <$> p) := by
  rw [← bind_pure_comp]
  exact h.bind fun a ha => .pure (hf a ha)

theorem ite {c : Prop} [Decidable c] {p q : Parser α} (h : Yields Q post p) (h' : Yields Q post q) :
    Yields Q post (if c then p else q) := by
  split
  · exact h
  · exact h'

theorem starve : Yields Q post starve := fun _ _ => .starved

theorem fail (fault : SyntaxFault) : Yields Q post (fail fault) := fun _ htokens => .failed htokens

theorem report (at? : Option Token) (fault : SyntaxFault) :
    Yields Q (fun _ => True) (report at? fault) := fun _ htokens => .done trivial htokens

theorem peek? : Yields Q (fun _ => True) peek? := fun _ htokens => .done trivial htokens

theorem take? {f : Token → Option α} (hf : ∀ t a, Q t → f t = some a → post a) :
    Yields Q (fun a? => ∀ a, a? = some a → post a) (take? f) := by
  intro tokens htokens
  cases tokens with
  | nil => exact .done nofun htokens
  | cons t rest =>
    obtain ⟨ht, hrest⟩ := List.forall_mem_cons.1 htokens
    rw [Parse.take?]
    cases h : f t with
    | some a => exact .done (fun b hb => Option.some.inj hb ▸ hf t a ht h) hrest
    | none => exact .done nofun htokens

theorem acceptAny (symbols : List Symbol) :
    Yields Q (fun t? => ∀ t, t? = some t → Placed Q symbols t) (acceptAny symbols) := by
  refine take? fun t u ht h => ?_
  split at h
  · next hany =>
    obtain rfl := Option.some.inj h
    exact ⟨ht, hany⟩
  · cases h

theorem accept (s : Symbol) : Yields Q (fun t? => ∀ t, t? = some t → Placed Q [s] t) (accept s) :=
  acceptAny [s]

theorem accepts (s : Symbol) : Yields Q (fun _ => True) (accepts s) :=
  (accept s).bind fun _ _ => .pure trivial

theorem expect (s : Symbol) (what : Expectation) : Yields Q (Placed Q [s]) (expect s what) := by
  refine (accept s).bind fun t? ht => ?_
  cases t? with
  | some t => exact .pure (ht t rfl)
  | none => exact fail _

theorem skip (s : Symbol) (what : Expectation) : Yields Q (fun _ => True) (skip s what) :=
  (expect s what).bind fun _ _ => .pure trivial

theorem sees (s : Symbol) : Yields Q (fun _ => True) (sees s) :=
  peek?.bind fun _ _ => .pure trivial

theorem atEnd : Yields Q (fun _ => True) atEnd := peek?.bind fun _ _ => .pure trivial

theorem atClose : Yields Q (fun _ => True) atClose := peek?.bind fun _ _ => .pure trivial

theorem recover {p : Parser α} (h : Yields Q post p) :
    Yields Q (fun a? => ∀ a, a? = some a → post a) (recover p) := by
  intro tokens htokens
  have hreply := h htokens
  unfold Parse.recover
  generalize p tokens = r at hreply
  cases hreply with
  | done ha hrest => exact .done (fun b hb => Option.some.inj hb ▸ ha) hrest
  | @failed e rest reported hrest =>
    exact .done nofun fun t ht =>
      hrest t (List.mem_of_mem_tail ((synchronize_suffix_tail rest).subset ht))
  | starved => exact .starved

end Yields

end

/-! ### Expressions -/

section

variable {Q : Token → Prop}

/-- The tokens of the expression are placed where their kinds may stand. -/
abbrev Good (Q : Token → Prop) (e : Expr Unit) : Prop := e.Composed (Placed Q) fun _ => True

theorem Placed.mono {symbols symbols' : List Symbol} (hsymbols : symbols ⊆ symbols') {t : Token}
    (h : Placed Q symbols t) : Placed Q symbols' t := by
  obtain ⟨s, hs, ht⟩ := List.any_eq_true.1 h.2
  exact ⟨h.1, List.any_eq_true.2 ⟨s, hsymbols hs, ht⟩⟩

theorem atom?_good (t : Token) (e : Expr Unit) (ht : Q t) (h : atom? t = some e) : Good Q e := by
  obtain ⟨kind, lexeme, line⟩ := t
  unfold atom? at h
  dsimp only at h
  split at h
  all_goals cases h
  all_goals trivial

theorem node_good {level : Level} {left right : Expr Unit} {op : Token} (hl : Good Q left)
    (hop : Placed Q level.operators op) (hr : Good Q right) : Good Q (level.node left op right) := by
  cases level with
  | or | and => exact ⟨hl, hop.mono (by decide), hr⟩
  | _ => exact ⟨hl, hop.mono (by decide), hr⟩

theorem assignTo_good {target value : Expr Unit} (equals : Token) (ht : Good Q target)
    (hv : Good Q value) : Yields Q (Good Q) (assignTo target equals value) := by
  have hreport : Yields Q (Good Q) (do report (some equals) .invalidTarget; return target) :=
    (Yields.report _ _).bind fun _ _ => .pure ht
  cases target with
  | var _ name => exact .pure ⟨ht, hv⟩
  | get _ _ => exact .pure ⟨ht.1, ht.2, hv⟩
  | _ => exact hreport

/-- The parsers of expressions yield expressions whose tokens are well placed. -/
structure ExpressionsGood (Q : Token → Prop) (fuel : Nat) : Prop where
  expression : Yields Q (Good Q) (expression fuel)
  operand : ∀ l?, Yields Q (Good Q) (operand fuel l?)
  operandRest : ∀ level left, Good Q left → Yields Q (Good Q) (operandRest fuel level left)
  unary : Yields Q (Good Q) (unary fuel)
  callRest : ∀ callee, Good Q callee → Yields Q (Good Q) (callRest fuel callee)
  arguments : ∀ count,
    Yields Q (Expr.ComposedEach (Placed Q) fun _ => True) (arguments fuel count)
  primary : Yields Q (Good Q) (primary fuel)

theorem expressions_good (Q : Token → Prop) (fuel : Nat) : ExpressionsGood Q fuel := by
  induction fuel with
  | zero => constructor <;> intros <;> exact Yields.starve
  | succ fuel ih =>
    constructor
    case expression =>
      rw [Parse.expression]
      refine (ih.operand _).bind fun target ht => (Yields.accept _).bind fun equals? _ => ?_
      cases equals? with
      | none => exact .pure ht
      | some equals => exact ih.expression.bind fun value hv => assignTo_good equals ht hv
    case operand =>
      intro l?
      cases l? with
      | none => rw [Parse.operand]; exact ih.unary
      | some level =>
        rw [Parse.operand]
        exact (ih.operand _).bind fun left hl => ih.operandRest level left hl
    case operandRest =>
      intro level left hl
      rw [Parse.operandRest]
      refine (Yields.acceptAny _).bind fun op? hop => ?_
      cases op? with
      | none => exact .pure hl
      | some op =>
        exact (ih.operand _).bind fun right hr => ih.operandRest level _ (node_good hl (hop op rfl) hr)
    case unary =>
      rw [Parse.unary]
      refine (Yields.acceptAny _).bind fun op? hop => ?_
      cases op? with
      | none => exact ih.primary.bind fun callee hc => ih.callRest callee hc
      | some op => exact ih.unary.bind fun operand ho => .pure ⟨hop op rfl, ho⟩
    case callRest =>
      intro callee hc
      rw [Parse.callRest]
      have hcall : ∀ args, Expr.ComposedEach (Placed Q) (fun _ => True) args → Yields Q (Good Q)
          (do callRest fuel (.call callee (← expect .rightParen .argumentsEnd) args)) :=
        fun args ha => (Yields.expect _ _).bind fun paren hp => ih.callRest _ ⟨hc, hp, ha⟩
      refine (Yields.accepts _).bind fun _ _ => .ite ?_ ?_
      · refine (Yields.sees _).bind fun _ _ => .ite ?_ ?_
        · exact (Yields.pure (a := []) trivial).bind hcall
        · exact (ih.arguments 0).bind hcall
      · refine (Yields.accepts _).bind fun _ _ => .ite ?_ (.pure hc)
        exact (Yields.expect _ _).bind fun name hn => ih.callRest _ ⟨hc, hn⟩
    case arguments =>
      intro count
      rw [Parse.arguments]
      have hargs : Yields Q (Expr.ComposedEach (Placed Q) fun _ => True)
          (do let arg ← expression fuel
              if ← accepts .comma then return arg :: (← arguments fuel (count + 1))
              else return [arg]) := by
        refine ih.expression.bind fun arg ha => (Yields.accepts _).bind fun _ _ => .ite ?_ ?_
        · exact (ih.arguments _).bind fun _ hmore => .pure ⟨ha, hmore⟩
        · exact .pure ⟨ha, trivial⟩
      exact .ite (Yields.peek?.bind fun _ _ => (Yields.report _ _).bind fun _ _ => hargs) hargs
    case primary =>
      rw [Parse.primary]
      refine (Yields.take? atom?_good).bind fun e? he => ?_
      cases e? with
      | some e => exact .pure (he e rfl)
      | none =>
        refine (Yields.accepts _).bind fun _ _ => .ite ?_ (.fail _)
        exact ih.expression.bind fun inner hi => (Yields.skip _ _).bind fun _ _ => .pure hi

/-! ### Statements -/

/-- The tokens of the statement are placed where their kinds may stand. -/
abbrev GoodStmt (Q : Token → Prop) (s : Stmt Unit) : Prop := s.Composed (Placed Q) fun _ => True

theorem forLoop_good {initializer? : Option (Stmt Unit)} {condition? increment? : Option (Expr Unit)}
    {body : Stmt Unit} (hinitializer : ∀ s, initializer? = some s → GoodStmt Q s)
    (hcondition : Expr.Composed? (Placed Q) (fun _ => True) condition?)
    (hincrement : Expr.Composed? (Placed Q) (fun _ => True) increment?) (hbody : GoodStmt Q body) :
    GoodStmt Q (.forLoop initializer? condition? increment? body) := by
  have hcond : Good Q (condition?.getD (.literal (.bool true))) := by
    cases condition? with
    | none => trivial
    | some e => exact hcondition
  have hturn : GoodStmt Q (body.withIncrement increment?) := by
    cases increment? with
    | none => exact hbody
    | some e => exact ⟨hbody, hincrement, trivial⟩
  cases initializer? with
  | none => exact ⟨hcond, hturn⟩
  | some s => exact ⟨hinitializer s rfl, ⟨hcond, hturn⟩, trivial⟩

theorem varDeclaration_good (fuel : Nat) : Yields Q (GoodStmt Q) (varDeclaration fuel) := by
  have hend : ∀ (name : Token) (value? : Option (Expr Unit)), Placed Q [.identifier] name →
      Expr.Composed? (Placed Q) (fun _ => True) value? →
      Yields Q (GoodStmt Q) (do skip .semicolon .variableEnd; return Stmt.var name value?) :=
    fun _ _ hn hv => (Yields.skip _ _).bind fun _ _ => .pure ⟨hn, hv⟩
  have hsome : Yields Q (Expr.Composed? (Placed Q) fun _ => True) (some <$> expression fuel) :=
    (expressions_good Q fuel).expression.map fun _ he => he
  refine (Yields.expect _ _).bind fun name hn => (Yields.accepts _).bind fun _ _ => .ite ?_ ?_
  · exact hsome.bind fun value? hv => hend name value? hn hv
  · exact (Yields.pure (a := none) trivial).bind fun value? hv => hend name value? hn hv

theorem expressionStatement_good (fuel : Nat) : Yields Q (GoodStmt Q) (expressionStatement fuel) :=
  (expressions_good Q fuel).expression.bind fun _ he => (Yields.skip _ _).bind fun _ _ => .pure he

theorem forInitializer_good (fuel : Nat) :
    Yields Q (fun s? => ∀ s, s? = some s → GoodStmt Q s) (forInitializer fuel) := by
  refine (Yields.accepts _).bind fun _ _ => .ite (.pure nofun) ?_
  refine (Yields.accepts _).bind fun _ _ => .ite ?_ ?_
  · exact (varDeclaration_good fuel).map fun s hs _ h => Option.some.inj h ▸ hs
  · exact (expressionStatement_good fuel).map fun s hs _ h => Option.some.inj h ▸ hs

theorem expressionBefore_good (fuel : Nat) (s : Symbol) :
    Yields Q (Expr.Composed? (Placed Q) fun _ => True) (expressionBefore fuel s) :=
  (Yields.sees _).bind fun _ _ =>
    .ite (.pure trivial) ((expressions_good Q fuel).expression.map fun _ he => he)

theorem parameters_good (fuel count : Nat) :
    Yields Q (fun params => ∀ p ∈ params, Placed Q [.identifier] p) (parameters fuel count) := by
  induction fuel generalizing count with
  | zero => exact Yields.starve
  | succ fuel ih =>
    rw [parameters]
    -- with too many parameters, a report comes first
    refine .ite (Yields.peek?.bind fun _ _ => (Yields.report _ _).bind fun _ _ =>
      (Yields.expect _ _).bind fun name hn => (Yields.accept _).bind fun comma? _ => ?_)
      ((Yields.expect _ _).bind fun name hn => (Yields.accept _).bind fun comma? _ => ?_)
    all_goals
      cases comma? with
      | none => exact .pure (List.forall_mem_singleton.2 hn)
      | some _ => exact (ih _).bind fun _ hmore => .pure (List.forall_mem_cons.2 ⟨hn, hmore⟩)

/-- The parsers of statements yield statements whose tokens are well placed. -/
structure StatementsGood (Q : Token → Prop) (fuel : Nat) : Prop where
  declarations : ∀ inBlock,
    Yields Q (Stmt.ComposedEach (Placed Q) fun _ => True) (declarations fuel inBlock)
  declaration : Yields Q (GoodStmt Q) (declaration fuel)
  methods : Yields Q (Stmt.ComposedFunctions (Placed Q) fun _ => True) (methods fuel)
  function : ∀ kind, Yields Q (Stmt.ComposedFunction (Placed Q) fun _ => True) (function fuel kind)
  block : Yields Q (Stmt.ComposedEach (Placed Q) fun _ => True) (block fuel)
  statement : Yields Q (GoodStmt Q) (statement fuel)

theorem statement_good {fuel : Nat} (ih : StatementsGood Q fuel) :
    Yields Q (GoodStmt Q) (statement (fuel + 1)) := by
  have hexpr := (expressions_good Q fuel).expression
  rw [statement]
  -- each keyword in turn, and last an expression statement
  refine (Yields.accepts _).bind fun _ _ => .ite ?_ ((Yields.accepts _).bind fun _ _ => .ite ?_ ?_)
  · refine (Yields.skip _ _).bind fun _ _ => (forInitializer_good fuel).bind fun _ hinit => ?_
    refine (expressionBefore_good fuel _).bind fun _ hcondition => ?_
    refine (Yields.skip _ _).bind fun _ _ => (expressionBefore_good fuel _).bind fun _ hinc => ?_
    exact (Yields.skip _ _).bind fun _ _ => ih.statement.bind fun _ hbody =>
      .pure (forLoop_good hinit hcondition hinc hbody)
  · refine (Yields.skip _ _).bind fun _ _ => hexpr.bind fun _ hcondition => ?_
    refine (Yields.skip _ _).bind fun _ _ => ih.statement.bind fun _ hthen => ?_
    refine (Yields.accepts _).bind fun _ _ => .ite ?_ (.pure ⟨hcondition, hthen⟩)
    exact ih.statement.bind fun _ helse => .pure ⟨hcondition, hthen, helse⟩
  refine (Yields.accepts _).bind fun _ _ => .ite ?_ ((Yields.accepts _).bind fun _ _ => .ite ?_ ?_)
  · exact hexpr.bind fun _ hvalue => (Yields.skip _ _).bind fun _ _ => .pure hvalue
  · refine (Yields.skip _ _).bind fun _ _ => hexpr.bind fun _ hcondition => ?_
    exact (Yields.skip _ _).bind fun _ _ => ih.statement.bind fun _ hbody => .pure ⟨hcondition, hbody⟩
  refine (Yields.accepts _).bind fun _ _ => .ite (ih.block.bind fun _ hbody => .pure hbody) ?_
  refine (Yields.accept _).bind fun keyword? hkeyword => ?_
  cases keyword? with
  | none => exact expressionStatement_good fuel
  | some keyword =>
    exact (expressionBefore_good fuel _).bind fun _ hvalue =>
      (Yields.skip _ _).bind fun _ _ => .pure ⟨hkeyword keyword rfl, hvalue⟩

theorem statements_good (Q : Token → Prop) (fuel : Nat) : StatementsGood Q fuel := by
  induction fuel with
  | zero => constructor <;> intros <;> exact Yields.starve
  | succ fuel ih =>
    constructor
    case declarations =>
      intro inBlock
      rw [Parse.declarations]
      have hended : Yields Q (fun _ => True) (if inBlock then atClose else atEnd) :=
        .ite .atClose .atEnd
      refine hended.bind fun _ _ => .ite (.pure trivial) ?_
      refine ih.declaration.recover.bind fun first? hfirst => ?_
      refine (ih.declarations _).bind fun _ hmore => .pure ?_
      cases first? with
      | none => exact hmore
      | some first => exact ⟨hfirst first rfl, hmore⟩
    case declaration =>
      rw [Parse.declaration]
      refine (Yields.accepts _).bind fun _ _ => .ite ?_
        ((Yields.accepts _).bind fun _ _ => .ite ?_ ?_)
      · refine (Yields.expect _ _).bind fun _ hname => (Yields.skip _ _).bind fun _ _ => ?_
        exact ih.methods.bind fun _ hmethods =>
          (Yields.skip _ _).bind fun _ _ => .pure ⟨hname, hmethods⟩
      · exact (ih.function _).bind fun _ hdecl => .pure hdecl
      · exact (Yields.accepts _).bind fun _ _ => .ite (varDeclaration_good fuel) ih.statement
    case methods =>
      rw [Parse.methods]
      refine Yields.atClose.bind fun _ _ => .ite (.pure trivial) ?_
      exact (ih.function _).bind fun _ hfirst => ih.methods.bind fun _ hmore => .pure ⟨hfirst, hmore⟩
    case function =>
      intro kind
      rw [Parse.function]
      have hrest : ∀ (name : Token) (params : List Token), Placed Q [.identifier] name →
          (∀ p ∈ params, Placed Q [.identifier] p) →
          Yields Q (Stmt.ComposedFunction (Placed Q) fun _ => True)
            (do skip .rightParen .parametersEnd
                skip .leftBrace (.functionBody kind)
                return ⟨(), name, params, ← block fuel⟩) :=
        fun _ _ hn hp => (Yields.skip _ _).bind fun _ _ => (Yields.skip _ _).bind fun _ _ =>
          ih.block.bind fun _ hbody => .pure ⟨hn, hp, hbody⟩
      refine (Yields.expect _ _).bind fun name hn => (Yields.skip _ _).bind fun _ _ => ?_
      refine (Yields.sees _).bind fun _ _ => .ite ?_ ?_
      · exact (Yields.pure (a := []) nofun).bind fun params hp => hrest name params hn hp
      · exact (parameters_good fuel 0).bind fun params hp => hrest name params hn hp
    case block =>
      rw [Parse.block]
      exact (ih.declarations true).bind fun _ hbody => (Yields.skip _ _).bind fun _ _ => .pure hbody
    case statement => exact statement_good ih

end

end Parse

/-- The tokens of a statement that is returned are tokens that were given, placed where their kinds may
stand. -/
theorem composed_of_mem_parse {Q : Token → Prop} {tokens : List Token}
    (htokens : ∀ t ∈ tokens, t.isEnd = false → Q t) {s : Stmt Unit} (hs : s ∈ (parse tokens).statements) :
    s.Composed (Parse.Placed Q) fun _ => True := by
  have hbody : ∀ t ∈ tokens.takeWhile (!·.isEnd), Q t := fun t ht =>
    htokens t ((List.takeWhile_sublist _).subset ht) (by simpa using List.mem_takeWhile_imp ht)
  have hreply := (Parse.statements_good Q
    (Parse.fuelFor (tokens.takeWhile (!·.isEnd)))).declarations false hbody
  unfold parse at hs
  dsimp only at hs
  generalize Parse.declarations _ _ (tokens.takeWhile (!·.isEnd)) = r at hreply hs
  cases hreply with
  | done hstatements _ => exact hstatements.of_mem hs
  | failed _ => cases hs
  | starved => cases hs

end LoxLang
