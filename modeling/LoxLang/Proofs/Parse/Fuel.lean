import LoxLang.Tree.Parse

/-!
# More fuel, same reply

A parser that does not starve gives the same reply with more fuel.  `Extends p q` says that `q`
replies as `p` does wherever `p` does not starve; every way of composing parsers keeps it, so it
passes from each parser with some fuel to the same parser with one unit more
(`expressions_extend`, `statements_extend`).
-/

namespace LoxLang

namespace Parse

variable {α β : Type}

/-- Wherever `p` does not starve, `q` gives the same reply. -/
def Extends (p q : Parser α) : Prop := ∀ tokens, p tokens = .starved ∨ p tokens = q tokens

namespace Extends

protected theorem refl (p : Parser α) : Extends p p := fun _ => .inr rfl

theorem trans {p q r : Parser α} (h : Extends p q) (h' : Extends q r) : Extends p r := by
  intro tokens
  rcases h tokens with hp | hp
  · exact .inl hp
  · rw [hp]; exact h' tokens

theorem starve (q : Parser α) : Extends starve q := fun _ => .inl rfl

theorem eq_of_ne_starved {p q : Parser α} (h : Extends p q) {tokens : List Token}
    (hne : p tokens ≠ .starved) : q tokens = p tokens := ((h tokens).resolve_left hne).symm

theorem bind {p q : Parser α} {f g : α → Parser β} (h : Extends p q)
    (hf : ∀ a, Extends (f a) (g a)) : Extends (p >>= f) (q >>= g) := by
  intro tokens
  rw [bind_apply, bind_apply]
  rcases h tokens with hp | hp
  · rw [hp]; exact .inl rfl
  · rw [← hp]
    cases p tokens with
    | done a rest reported =>
      rcases hf a rest with ha | ha
      · exact .inl (by simp only [ha, Reply.after])
      · exact .inr (by simp only [ha])
    | failed e rest reported => exact .inr rfl
    | starved => exact .inl rfl

theorem bind_right {p : Parser α} {f g : α → Parser β} (hf : ∀ a, Extends (f a) (g a)) :
    Extends (p >>= f) (p >>= g) := bind (.refl p) hf

theorem map {p q : Parser α} (f : α → β) (h : Extends p q) : Extends (f <$> p) (f <$> q) := by
  rw [← bind_pure_comp, ← bind_pure_comp]
  exact h.bind fun a => .refl _

theorem ite {c : Prop} [Decidable c] {p p' q q' : Parser α} (h : Extends p q)
    (h' : Extends p' q') : Extends (if c then p else p') (if c then q else q') := by
  split
  · exact h
  · exact h'

theorem recover {p q : Parser α} (h : Extends p q) : Extends (recover p) (recover q) := by
  intro tokens
  unfold Parse.recover
  rcases h tokens with hp | hp
  · rw [hp]; exact .inl rfl
  · rw [← hp]; exact .inr rfl

end Extends

/-! ### Expressions -/

/-- One more unit of fuel changes no reply of the parsers of expressions. -/
structure ExpressionsExtend (fuel : Nat) : Prop where
  expression : Extends (Parse.expression fuel) (Parse.expression (fuel + 1))
  operand : ∀ l?, Extends (Parse.operand fuel l?) (Parse.operand (fuel + 1) l?)
  operandRest : ∀ level left,
    Extends (Parse.operandRest fuel level left) (Parse.operandRest (fuel + 1) level left)
  unary : Extends (Parse.unary fuel) (Parse.unary (fuel + 1))
  callRest : ∀ callee, Extends (Parse.callRest fuel callee) (Parse.callRest (fuel + 1) callee)
  arguments : ∀ count, Extends (Parse.arguments fuel count) (Parse.arguments (fuel + 1) count)
  primary : Extends (Parse.primary fuel) (Parse.primary (fuel + 1))

theorem expressions_extend (fuel : Nat) : ExpressionsExtend fuel := by
  induction fuel with
  | zero => constructor <;> intros <;> exact Extends.starve _
  | succ fuel ih =>
    constructor
    case expression =>
      rw [Parse.expression, Parse.expression]
      refine (ih.operand _).bind fun target => .bind_right fun equals? => ?_
      cases equals? with
      | none => exact .refl _
      | some equals => exact ih.expression.bind fun value => .refl _
    case operand =>
      intro l?
      cases l? with
      | none => rw [Parse.operand, Parse.operand]; exact ih.unary
      | some level =>
        rw [Parse.operand, Parse.operand]
        exact (ih.operand _).bind fun left => ih.operandRest _ _
    case operandRest =>
      intro level left
      rw [Parse.operandRest, Parse.operandRest]
      refine .bind_right fun op? => ?_
      cases op? with
      | none => exact .refl _
      | some op => exact (ih.operand _).bind fun right => ih.operandRest _ _
    case unary =>
      rw [Parse.unary, Parse.unary]
      refine .bind_right fun op? => ?_
      cases op? with
      | none => exact ih.primary.bind fun callee => ih.callRest _
      | some op => exact ih.unary.bind fun operand => .refl _
    case callRest =>
      intro callee
      rw [Parse.callRest, Parse.callRest]
      refine .bind_right fun open? => .ite ?_ ?_
      · refine .bind_right fun empty? => .ite ?_ ?_
        · exact .bind_right fun args => .bind_right fun paren => ih.callRest _
        · exact (ih.arguments 0).bind fun args => .bind_right fun paren => ih.callRest _
      · refine .bind_right fun dot? => .ite ?_ (.refl _)
        exact .bind_right fun name => ih.callRest _
    -- too many arguments are reported, and read in the same way as others
    case arguments =>
      intro count
      rw [Parse.arguments, Parse.arguments]
      have harg : ∀ arg, Extends
          (do if ← accepts .comma then return arg :: (← Parse.arguments fuel (count + 1))
              else return [arg])
          (do if ← accepts .comma then return arg :: (← Parse.arguments (fuel + 1) (count + 1))
              else return [arg]) := fun arg =>
        .bind_right fun more => .ite ((ih.arguments _).bind fun args => .refl _) (.refl _)
      refine .ite ?_ (ih.expression.bind harg)
      exact .bind_right fun next? => .bind_right fun _ => ih.expression.bind harg
    case primary =>
      rw [Parse.primary, Parse.primary]
      refine .bind_right fun atom => ?_
      cases atom with
      | some e => exact .refl _
      | none =>
        refine .bind_right fun open? => .ite ?_ (.refl _)
        exact ih.expression.bind fun inner => .refl _

/-! ### Statements -/

theorem varDeclaration_extend (fuel : Nat) :
    Extends (varDeclaration fuel) (varDeclaration (fuel + 1)) := by
  unfold varDeclaration
  refine .bind_right fun name => .bind_right fun equal? => .ite ?_ (.refl _)
  exact ((expressions_extend fuel).expression.map some).bind fun value? => .refl _

theorem expressionStatement_extend (fuel : Nat) :
    Extends (expressionStatement fuel) (expressionStatement (fuel + 1)) :=
  (expressions_extend fuel).expression.bind fun _ => .refl _

theorem forInitializer_extend (fuel : Nat) :
    Extends (forInitializer fuel) (forInitializer (fuel + 1)) :=
  .bind_right fun _ => .ite (.refl _) <| .bind_right fun _ =>
    .ite ((varDeclaration_extend fuel).map some) ((expressionStatement_extend fuel).map some)

theorem expressionBefore_extend (fuel : Nat) (s : Symbol) :
    Extends (expressionBefore fuel s) (expressionBefore (fuel + 1) s) :=
  .bind_right fun _ => .ite (.refl _) ((expressions_extend fuel).expression.map some)

/-- After a name, a comma and more parameters. -/
theorem moreParameters_extend {more more' : Parser (List Token)} (h : Extends more more')
    (name : Token) :
    Extends
      (do match ← accept .comma with
          | some _ => return name :: (← more)
          | none => return [name])
      (do match ← accept .comma with
          | some _ => return name :: (← more')
          | none => return [name]) := by
  refine .bind_right fun comma? => ?_
  cases comma? with
  | none => exact .refl _
  | some comma => exact h.bind fun params => .refl _

theorem parameters_extend (fuel count : Nat) :
    Extends (parameters fuel count) (parameters (fuel + 1) count) := by
  induction fuel generalizing count with
  | zero => exact Extends.starve _
  | succ fuel ih =>
    rw [parameters, parameters]
    refine .ite ?_ (.bind_right (moreParameters_extend (ih _)))
    exact .bind_right fun next? => .bind_right fun _ => .bind_right (moreParameters_extend (ih _))

/-- One more unit of fuel changes no reply of the parsers of statements. -/
structure StatementsExtend (fuel : Nat) : Prop where
  declarations : ∀ inBlock,
    Extends (Parse.declarations fuel inBlock) (Parse.declarations (fuel + 1) inBlock)
  declaration : Extends (Parse.declaration fuel) (Parse.declaration (fuel + 1))
  methods : Extends (Parse.methods fuel) (Parse.methods (fuel + 1))
  function : ∀ kind, Extends (Parse.function fuel kind) (Parse.function (fuel + 1) kind)
  block : Extends (Parse.block fuel) (Parse.block (fuel + 1))
  statement : Extends (Parse.statement fuel) (Parse.statement (fuel + 1))

theorem statement_extend {fuel : Nat} (ih : StatementsExtend fuel) :
    Extends (statement (fuel + 1)) (statement (fuel + 2)) := by
  have hexpr := (expressions_extend fuel).expression
  rw [statement, statement]
  -- each keyword in turn, and last an expression statement
  refine .bind_right fun for? => .ite ?_ (.bind_right fun if? => .ite ?_ ?_)
  · refine .bind_right fun _ => (forInitializer_extend fuel).bind fun initializer? => ?_
    refine (expressionBefore_extend fuel _).bind fun condition? => .bind_right fun _ => ?_
    refine (expressionBefore_extend fuel _).bind fun increment? => .bind_right fun _ => ?_
    exact ih.statement.bind fun body => .refl _
  · refine .bind_right fun _ => hexpr.bind fun condition => .bind_right fun _ => ?_
    refine ih.statement.bind fun thenBranch => .bind_right fun else? => .ite ?_ (.refl _)
    exact ih.statement.bind fun elseBranch => .refl _
  refine .bind_right fun print? => .ite ?_ (.bind_right fun while? => .ite ?_ ?_)
  · exact hexpr.bind fun value => .refl _
  · refine .bind_right fun _ => hexpr.bind fun condition => .bind_right fun _ => ?_
    exact ih.statement.bind fun body => .refl _
  refine .bind_right fun brace? => .ite (ih.block.bind fun body => .refl _) ?_
  refine .bind_right fun keyword? => ?_
  cases keyword? with
  | none => exact expressionStatement_extend fuel
  | some keyword => exact (expressionBefore_extend fuel _).bind fun value? => .refl _

theorem statements_extend (fuel : Nat) : StatementsExtend fuel := by
  induction fuel with
  | zero => constructor <;> intros <;> exact Extends.starve _
  | succ fuel ih =>
    constructor
    -- a mistake in a declaration is recovered, only a want of fuel is not
    case declarations =>
      intro inBlock
      rw [Parse.declarations, Parse.declarations]
      have hnext : Extends
          (do return (← recover (Parse.declaration fuel)).toList ++
                (← Parse.declarations fuel inBlock))
          (do return (← recover (Parse.declaration (fuel + 1))).toList ++
                (← Parse.declarations (fuel + 1) inBlock)) :=
        ih.declaration.recover.bind fun first? => (ih.declarations _).bind fun more => .refl _
      exact .bind_right fun ended => .ite (.refl _) hnext
    case declaration =>
      rw [Parse.declaration, Parse.declaration]
      refine .bind_right fun class? => .ite ?_ (.bind_right fun fun? => .ite ?_ ?_)
      · refine .bind_right fun name => .bind_right fun _ => ?_
        exact ih.methods.bind fun methods => .refl _
      · exact (ih.function _).bind fun decl => .refl _
      · exact .bind_right fun var? => .ite (varDeclaration_extend fuel) ih.statement
    case methods =>
      rw [Parse.methods, Parse.methods]
      refine .bind_right fun close? => .ite (.refl _) ?_
      exact (ih.function _).bind fun first => ih.methods.bind fun more => .refl _
    case function =>
      intro kind
      rw [Parse.function, Parse.function]
      refine .bind_right fun name => .bind_right fun _ => .bind_right fun empty? => .ite ?_ ?_
      · refine .bind_right fun params => .bind_right fun _ => .bind_right fun _ => ?_
        exact ih.block.bind fun body => .refl _
      · refine (parameters_extend fuel 0).bind fun params => ?_
        refine .bind_right fun _ => .bind_right fun _ => ih.block.bind fun body => .refl _
    case block =>
      rw [Parse.block, Parse.block]
      exact (ih.declarations true).bind fun body => .refl _
    case statement => exact statement_extend ih

/-- What one more unit of fuel does not change, no more fuel changes. -/
theorem Extends.of_le {p : Nat → Parser α} (hp : ∀ fuel, Extends (p fuel) (p (fuel + 1)))
    {fuel fuel' : Nat} (h : fuel ≤ fuel') : Extends (p fuel) (p fuel') := by
  induction h with
  | refl => exact .refl _
  | step _ ih => exact ih.trans (hp _)

/-- Declarations that are read with some fuel are read in the same way with any more. -/
theorem declarations_extend_of_le {fuel fuel' : Nat} (h : fuel ≤ fuel') (inBlock : Bool) :
    Extends (declarations fuel inBlock) (declarations fuel' inBlock) :=
  Extends.of_le (fun fuel => (statements_extend fuel).declarations inBlock) h

/-- A declaration that is read with some fuel is read in the same way with any more. -/
theorem declaration_extend_of_le {fuel fuel' : Nat} (h : fuel ≤ fuel') :
    Extends (declaration fuel) (declaration fuel') :=
  Extends.of_le (fun fuel => (statements_extend fuel).declaration) h

end Parse

end LoxLang
