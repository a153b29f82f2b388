import LoxLang.Tree.Parse
import Mathlib.Tactic.SplitIfs

/-!
# Parsing always ends

`Parse.fuelFor` is enough fuel: with 16 units for each token that is left, and a few more for the
rules that can be entered before the next token is taken, no parser starves.

* `Ends n p tokens post` : from these tokens `p` ends, its value and what it leaves satisfy `post`,
  and a mistake that ends it leaves at most `n` tokens;
* `ends_expressions`, `ends_statements` : every parser ends, given the fuel that its place among the
  rules asks for, and those that read something give up a token;
* `declarations_ne_starved` : so `parse` never runs out of fuel.
-/

namespace LoxLang

namespace Parse

variable {α β : Type}

/-! ### Parsers that end -/

/-- From these tokens `p` does not starve.  What it yields satisfies `post`; a mistake that ends it
leaves at most `n` tokens. -/
def Ends (n : Nat) (p : Parser α) (tokens : List Token) (post : α → List Token → Prop) : Prop :=
  match p tokens with
  | .done a rest _ => post a rest
  | .failed _ rest _ => rest.length ≤ n
  | .starved => False

section

variable {n : Nat} {tokens : List Token}

theorem Ends.mono {p : Parser α} {post post' : α → List Token → Prop}
    (h : Ends n p tokens post) (himp : ∀ a rest, post a rest → post' a rest) :
    Ends n p tokens post' := by
  unfold Ends at h ⊢
  cases hp : p tokens with
  | done a rest reported => rw [hp] at h; exact himp a rest h
  | failed e rest reported => rw [hp] at h; exact h
  | starved => rw [hp] at h; exact h

@[simp] theorem ends_bind {p : Parser α} {f : α → Parser β} {post : β → List Token → Prop} :
    Ends n (p >>= f) tokens post ↔
      Ends n p tokens fun a rest => Ends n (f a) rest post := by
  simp only [Ends, bind_apply]
  cases p tokens with
  | done a rest reported =>
    dsimp only
    cases f a rest <;> exact Iff.rfl
  | failed e rest reported => exact Iff.rfl
  | starved => exact Iff.rfl

@[simp] theorem ends_pure {a : α} {post : α → List Token → Prop} :
    Ends n (pure a) tokens post ↔ post a tokens := Iff.rfl

@[simp] theorem ends_map {p : Parser α} {f : α → β} {post : β → List Token → Prop} :
    Ends n (f <$> p) tokens post ↔ Ends n p tokens fun a rest => post (f a) rest := by
  rw [← bind_pure_comp, ends_bind]
  simp only [ends_pure]

@[simp] theorem ends_fail {fault : SyntaxFault} {post : α → List Token → Prop} :
    Ends n (fail fault) tokens post ↔ tokens.length ≤ n := Iff.rfl

@[simp] theorem ends_report {at? : Option Token} {fault : SyntaxFault}
    {post : Unit → List Token → Prop} :
    Ends n (report at? fault) tokens post ↔ post () tokens := Iff.rfl

@[simp] theorem ends_peek? {post : Option Token → List Token → Prop} :
    Ends n peek? tokens post ↔ post tokens.head? tokens := Iff.rfl

@[simp] theorem ends_sees {s : Symbol} {post : Bool → List Token → Prop} :
    Ends n (sees s) tokens post ↔ post (tokens.head?.any (·.is s)) tokens := Iff.rfl

@[simp] theorem ends_atEnd {post : Bool → List Token → Prop} :
    Ends n atEnd tokens post ↔ post tokens.head?.isNone tokens := Iff.rfl

@[simp] theorem ends_atClose {post : Bool → List Token → Prop} :
    Ends n atClose tokens post ↔ post (tokens.head?.all (·.is .rightBrace)) tokens := Iff.rfl

/-- A parser that takes a token if it can ends either with fewer tokens or as before. -/
theorem ends_take? {f : Token → Option α} {post : Option α → List Token → Prop}
    (htaken : ∀ a rest, rest.length < tokens.length → post (some a) rest)
    (hleft : post none tokens) : Ends n (take? f) tokens post := by
  cases tokens with
  | nil => exact hleft
  | cons t rest =>
    simp only [Ends, take?]
    cases f t with
    | none => exact hleft
    | some a => exact htaken a rest (Nat.lt_succ_self _)

theorem ends_acceptAny {symbols : List Symbol} {post : Option Token → List Token → Prop}
    (htaken : ∀ t rest, rest.length < tokens.length → post (some t) rest)
    (hleft : post none tokens) : Ends n (acceptAny symbols) tokens post :=
  ends_take? htaken hleft

theorem ends_accepts {s : Symbol} {post : Bool → List Token → Prop}
    (htaken : ∀ rest, rest.length < tokens.length → post true rest)
    (hleft : post false tokens) : Ends n (accepts s) tokens post := by
  unfold accepts
  rw [ends_bind]
  exact ends_acceptAny (fun _ rest hr => htaken rest hr) hleft

theorem ends_expect {s : Symbol} {what : Expectation} {post : Token → List Token → Prop}
    (hn : tokens.length ≤ n) (htaken : ∀ t rest, rest.length < tokens.length → post t rest) :
    Ends n (expect s what) tokens post := by
  unfold expect
  rw [ends_bind]
  exact ends_acceptAny htaken hn

theorem ends_skip {s : Symbol} {what : Expectation} {post : Unit → List Token → Prop}
    (hn : tokens.length ≤ n) (htaken : ∀ rest, rest.length < tokens.length → post () rest) :
    Ends n (skip s what) tokens post := by
  unfold skip
  rw [ends_bind]
  exact ends_expect hn fun _ rest hr => htaken rest hr

end

/-! ### Expressions -/

/-- How many rules can be entered before an operand of a level takes its first token. -/
def Level.rank : Option Level → Nat
  | none => 3
  | some .factor => 4
  | some .term => 5
  | some .comparison => 6
  | some .equality => 7
  | some .and => 8
  | some .or => 9

theorem Level.rank_operands (level : Level) :
    Level.rank level.operands + 1 = Level.rank (some level) := by cases level <;> rfl

theorem Level.rank_bounds (l? : Option Level) : 3 ≤ Level.rank l? ∧ Level.rank l? ≤ 9 := by
  rcases l? with _ | level
  · decide
  · cases level <;> decide

/-- With this much fuel, every parser of expressions ends.  All but the two that go on after an
operand or a callee give up a token. -/
structure ExpressionsEnd (fuel : Nat) : Prop where
  expression : ∀ {n tokens}, 16 * tokens.length + 10 ≤ fuel → tokens.length ≤ n →
    Ends n (Parse.expression fuel) tokens fun _ rest => rest.length < tokens.length
  operand : ∀ {n tokens} (l? : Option Level), 16 * tokens.length + Level.rank l? ≤ fuel →
    tokens.length ≤ n →
    Ends n (Parse.operand fuel l?) tokens fun _ rest => rest.length < tokens.length
  operandRest : ∀ {n tokens} (level : Level) (left : Expr Unit), 16 * tokens.length + 1 ≤ fuel →
    tokens.length ≤ n →
    Ends n (Parse.operandRest fuel level left) tokens fun _ rest => rest.length ≤ tokens.length
  unary : ∀ {n tokens}, 16 * tokens.length + 2 ≤ fuel → tokens.length ≤ n →
    Ends n (Parse.unary fuel) tokens fun _ rest => rest.length < tokens.length
  callRest : ∀ {n tokens} (callee : Expr Unit), 16 * tokens.length + 1 ≤ fuel →
    tokens.length ≤ n →
    Ends n (Parse.callRest fuel callee) tokens fun _ rest => rest.length ≤ tokens.length
  arguments : ∀ {n tokens} (count : Nat), 16 * tokens.length + 11 ≤ fuel → tokens.length ≤ n →
    Ends n (Parse.arguments fuel count) tokens fun _ rest => rest.length < tokens.length
  primary : ∀ {n tokens}, 16 * tokens.length + 1 ≤ fuel → tokens.length ≤ n →
    Ends n (Parse.primary fuel) tokens fun _ rest => rest.length < tokens.length

theorem ends_assignTo {n : Nat} {tokens : List Token} {target value : Expr Unit} {equals : Token}
    {post : Expr Unit → List Token → Prop} (h : ∀ e, post e tokens) :
    Ends n (assignTo target equals value) tokens post := by
  cases target <;> simp [assignTo, h]

theorem ends_expressions (fuel : Nat) : ExpressionsEnd fuel := by
  induction fuel with
  | zero =>
    constructor
    case operand =>
      intro n tokens l? hf
      have hrank := Level.rank_bounds l?
      omega
    all_goals (intros; omega)
  | succ fuel ih =>
    constructor
    case expression =>
      intro n tokens hf hn
      simp only [Parse.expression, ends_bind]
      refine (ih.operand _ (by simp only [Level.rank]; omega) hn).mono fun target rest hr => ?_
      refine ends_acceptAny (fun equals rest' hr' => ?_) hr
      rw [ends_bind]
      refine (ih.expression (by omega) (by omega)).mono fun value left hl => ?_
      exact ends_assignTo fun _ => by omega
    case operand =>
      intro n tokens l? hf hn
      cases l? with
      | none =>
        simp only [Parse.operand]
        exact ih.unary (by simp only [Level.rank] at hf; omega) hn
      | some level =>
        have hrank := Level.rank_operands level
        simp only [Parse.operand, ends_bind]
        refine (ih.operand _ (by omega) hn).mono fun left rest hr => ?_
        exact (ih.operandRest _ _ (by omega) (by omega)).mono fun _ _ h => by omega
    case operandRest =>
      intro n tokens level left hf hn
      have hrank := Level.rank_bounds level.operands
      simp only [Parse.operandRest, ends_bind]
      refine ends_acceptAny (fun op rest hr => ?_) (Nat.le_refl _)
      rw [ends_bind]
      refine (ih.operand _ (by omega) (by omega)).mono fun right rest' hr' => ?_
      exact (ih.operandRest _ _ (by omega) (by omega)).mono fun _ _ h => by omega
    case unary =>
      intro n tokens hf hn
      simp only [Parse.unary, ends_bind]
      refine ends_acceptAny (fun op rest hr => ?_) ?_
      · rw [ends_bind]
        exact (ih.unary (by omega) (by omega)).mono fun _ _ h => by simp only [ends_pure]; omega
      · rw [ends_bind]
        refine (ih.primary (by omega) hn).mono fun callee rest hr => ?_
        exact (ih.callRest _ (by omega) (by omega)).mono fun _ _ h => by omega
    case callRest =>
      intro n tokens callee hf hn
      simp only [Parse.callRest, ends_bind]
      refine ends_accepts (fun rest hr => ?_) ?_
      · simp only [if_true, ends_bind, ends_sees]
        -- the closing parenthesis and all calls after it, once the arguments are read
        have hclose : ∀ args after, after.length ≤ rest.length →
            Ends n (expect .rightParen .argumentsEnd) after fun paren rest' =>
              Ends n (Parse.callRest fuel (.call callee paren args)) rest' fun _ left =>
                left.length ≤ tokens.length := by
          intro args after hle
          refine ends_expect (by omega) fun paren rest' hr' => ?_
          exact (ih.callRest _ (by omega) (by omega)).mono fun _ _ h => by omega
        cases rest.head?.any (·.is .rightParen) with
        | true =>
          simpa only [if_true, ends_bind, ends_pure] using hclose [] rest (Nat.le_refl _)
        | false =>
          simp only [Bool.false_eq_true, if_false, ends_bind]
          refine (ih.arguments 0 (by omega) (by omega)).mono fun args after ha => ?_
          exact hclose args after (by omega)
      · simp only [Bool.false_eq_true, if_false, ends_bind]
        refine ends_accepts (fun rest hr => ?_) (Nat.le_refl _)
        simp only [if_true, ends_bind]
        refine ends_expect (by omega) fun name rest' hr' => ?_
        exact (ih.callRest _ (by omega) (by omega)).mono fun _ _ h => by omega
    case arguments =>
      intro n tokens count hf hn
      -- an argument, and what follows a comma after it
      have harg : Ends n (Parse.expression fuel) tokens fun arg rest =>
          Ends n (accepts .comma) rest fun more left =>
            Ends n (if more = true then do return arg :: (← Parse.arguments fuel (count + 1))
              else return [arg]) left fun _ rest => rest.length < tokens.length := by
        refine (ih.expression (by omega) hn).mono fun arg rest hr => ?_
        refine ends_accepts (fun left hl => ?_) hr
        simp only [if_true, ends_bind, ends_pure]
        exact (ih.arguments _ (by omega) (by omega)).mono fun _ _ h => by omega
      simp only [Parse.arguments]
      split
      · simpa only [ends_bind, ends_peek?, ends_report] using harg
      · simpa only [ends_bind, ends_pure] using harg
    case primary =>
      intro n tokens hf hn
      simp only [Parse.primary, ends_bind]
      refine ends_take? (fun e rest hr => hr) ?_
      simp only [ends_bind]
      refine ends_accepts (fun rest hr => ?_) hn
      simp only [if_true, ends_bind]
      refine (ih.expression (by omega) (by omega)).mono fun inner rest' hr' => ?_
      refine ends_skip (by omega) fun left hl => ?_
      simp only [ends_pure]
      omega

/-! ### Statements -/

/-- A recovered mistake costs at least the token it was found at, so recovery goes on with less. -/
theorem ends_recover {n : Nat} {p : Parser α} {tokens : List Token}
    {post : Option α → List Token → Prop}
    (hp : Ends tokens.length p tokens fun a rest => post (some a) rest)
    (hmistake : ∀ rest, rest.length ≤ tokens.length - 1 → post none rest) :
    Ends n (recover p) tokens post := by
  unfold Ends at hp ⊢
  unfold recover
  cases h : p tokens with
  | done a rest reported => rw [h] at hp; exact hp
  | failed e rest reported =>
    rw [h] at hp
    have hsync := (synchronize_suffix_tail rest).length_le
    rw [List.length_tail] at hsync
    exact hmistake _ (by omega)
  | starved => rw [h] at hp; exact hp.elim

theorem ends_varDeclaration {fuel n : Nat} {tokens : List Token}
    (hf : 16 * tokens.length ≤ fuel) (hn : tokens.length ≤ n) :
    Ends n (varDeclaration fuel) tokens fun _ rest => rest.length < tokens.length := by
  simp only [varDeclaration, ends_bind]
  refine ends_expect hn fun name rest hr => ?_
  -- what is left once the initializer, if there is one, is read
  have hend : ∀ (value? : Option (Expr Unit)) after, after.length ≤ rest.length →
      Ends n (skip .semicolon .variableEnd) after fun _ left =>
        Ends n (pure (Stmt.var name value?)) left fun _ left => left.length < tokens.length := by
    intro value? after ha
    refine ends_skip (by omega) fun left hl => ?_
    simp only [ends_pure]
    omega
  refine ends_accepts (fun left hl => ?_) ?_
  · simp only [if_true, ends_bind, ends_map]
    exact ((ends_expressions fuel).expression (by omega) (by omega)).mono fun e after ha =>
      hend _ _ (by omega)
  · simpa only [Bool.false_eq_true, if_false, ends_bind, ends_pure] using
      hend none rest (Nat.le_refl _)

theorem ends_expressionStatement {fuel n : Nat} {tokens : List Token}
    (hf : 16 * tokens.length + 10 ≤ fuel) (hn : tokens.length ≤ n) :
    Ends n (expressionStatement fuel) tokens fun _ rest => rest.length < tokens.length := by
  simp only [expressionStatement, ends_bind]
  refine ((ends_expressions fuel).expression hf hn).mono fun e rest hr => ?_
  refine ends_skip (by omega) fun left hl => ?_
  simp only [ends_pure]
  omega

theorem ends_forInitializer {fuel n : Nat} {tokens : List Token}
    (hf : 16 * tokens.length + 10 ≤ fuel) (hn : tokens.length ≤ n) :
    Ends n (forInitializer fuel) tokens fun _ rest => rest.length < tokens.length := by
  simp only [forInitializer, ends_bind]
  refine ends_accepts (fun rest hr => hr) ?_
  simp only [Bool.false_eq_true, if_false, ends_bind]
  refine ends_accepts (fun rest hr => ?_) ?_
  · simp only [if_true, ends_map]
    exact (ends_varDeclaration (by omega) (by omega)).mono fun _ _ h => by omega
  · simp only [Bool.false_eq_true, if_false, ends_map]
    exact ends_expressionStatement hf hn

theorem ends_expressionBefore {fuel n : Nat} {tokens : List Token} (s : Symbol)
    (hf : 16 * tokens.length + 10 ≤ fuel) (hn : tokens.length ≤ n) :
    Ends n (expressionBefore fuel s) tokens fun _ rest => rest.length ≤ tokens.length := by
  simp only [expressionBefore, ends_bind, ends_sees]
  cases tokens.head?.any (·.is s) with
  | true => exact Nat.le_refl _
  | false =>
    simp only [Bool.false_eq_true, if_false, ends_map]
    exact ((ends_expressions fuel).expression hf hn).mono fun _ _ h => by omega

/-- A name, and after a comma more parameters. -/
theorem ends_parameter {n : Nat} {tokens : List Token} (more : Parser (List Token))
    (hmore : ∀ rest : List Token, rest.length < tokens.length →
      Ends n more rest fun _ left => left.length < rest.length) (hn : tokens.length ≤ n) :
    Ends n (expect .identifier .parameterName) tokens fun name rest =>
      Ends n (accept .comma) rest fun comma? left =>
        Ends n (match comma? with
          | some _ => do return name :: (← more)
          | none => return [name]) left fun _ rest => rest.length < tokens.length := by
  refine ends_expect hn fun name rest hr => ?_
  refine ends_acceptAny (fun comma left hl => ?_) hr
  simp only [ends_bind, ends_pure]
  exact (hmore left (by omega)).mono fun _ _ h => by omega

theorem ends_parameters {fuel n : Nat} {tokens : List Token} (count : Nat)
    (hf : 16 * tokens.length + 1 ≤ fuel) (hn : tokens.length ≤ n) :
    Ends n (parameters fuel count) tokens fun _ rest => rest.length < tokens.length := by
  induction fuel generalizing tokens count with
  | zero => omega
  | succ fuel ih =>
    have hparameter := ends_parameter (parameters fuel (count + 1))
      (fun rest hrest => ih _ (by omega) (by omega)) hn
    simp only [parameters]
    split
    · simp only [ends_bind, ends_peek?, ends_report]
      exact hparameter
    · simp only [ends_bind]
      exact hparameter

/-- With this much fuel, every parser of declarations and statements ends, and those that read
something give up a token. -/
structure StatementsEnd (fuel : Nat) : Prop where
  declarations : ∀ {n tokens} (inBlock : Bool), 16 * tokens.length + 13 ≤ fuel →
    tokens.length ≤ n →
    Ends n (Parse.declarations fuel inBlock) tokens fun _ rest => rest.length ≤ tokens.length
  declaration : ∀ {n tokens}, 16 * tokens.length + 12 ≤ fuel → tokens.length ≤ n →
    Ends n (Parse.declaration fuel) tokens fun _ rest => rest.length < tokens.length
  methods : ∀ {n tokens}, 16 * tokens.length + 2 ≤ fuel → tokens.length ≤ n →
    Ends n (Parse.methods fuel) tokens fun _ rest => rest.length ≤ tokens.length
  function : ∀ {n tokens} (kind : FunctionKind), 16 * tokens.length + 1 ≤ fuel →
    tokens.length ≤ n →
    Ends n (Parse.function fuel kind) tokens fun _ rest => rest.length < tokens.length
  block : ∀ {n tokens}, 16 * tokens.length + 14 ≤ fuel → tokens.length ≤ n →
    Ends n (Parse.block fuel) tokens fun _ rest => rest.length < tokens.length
  statement : ∀ {n tokens}, 16 * tokens.length + 11 ≤ fuel → tokens.length ≤ n →
    Ends n (Parse.statement fuel) tokens fun _ rest => rest.length < tokens.length

theorem ends_declarations {fuel n : Nat} {tokens : List Token} (ih : StatementsEnd fuel)
    (inBlock : Bool) (hf : 16 * tokens.length + 12 ≤ fuel) (hn : tokens.length ≤ n) :
    Ends n (declarations (fuel + 1) inBlock) tokens fun _ rest => rest.length ≤ tokens.length := by
  -- what is left once a declaration is read or given up
  have hnext : tokens ≠ [] → Ends n (recover (declaration fuel)) tokens fun first? rest =>
      Ends n (declarations fuel inBlock) rest fun more left => left.length ≤ tokens.length := by
    intro hne
    have hpos := List.length_pos_iff.2 hne
    refine ends_recover ((ih.declaration (by omega) (Nat.le_refl _)).mono fun s rest hr => ?_)
      fun rest hr => ?_
    all_goals exact (ih.declarations _ (by omega) (by omega)).mono fun _ _ h => by omega
  simp only [declarations]
  cases inBlock with
  | true =>
    simp only [if_true, ends_bind, ends_atClose]
    cases hclose : tokens.head?.all (·.is .rightBrace) with
    | true => exact Nat.le_refl _
    | false =>
      simp only [Bool.false_eq_true, if_false, ends_bind, ends_pure]
      exact hnext (by rintro rfl; simp at hclose)
  | false =>
    simp only [Bool.false_eq_true, if_false, ends_bind, ends_atEnd]
    cases hend : tokens.head?.isNone with
    | true => exact Nat.le_refl _
    | false =>
      simp only [Bool.false_eq_true, if_false, ends_bind, ends_pure]
      exact hnext (by rintro rfl; simp at hend)

theorem ends_declaration {fuel n : Nat} {tokens : List Token} (ih : StatementsEnd fuel)
    (hf : 16 * tokens.length + 11 ≤ fuel) (hn : tokens.length ≤ n) :
    Ends n (declaration (fuel + 1)) tokens fun _ rest => rest.length < tokens.length := by
  simp only [declaration, ends_bind]
  refine ends_accepts (fun rest hr => ?_) ?_
  · simp only [if_true, ends_bind, ends_pure]
    refine ends_expect (by omega) fun name rest' hr' => ?_
    refine ends_skip (by omega) fun body hb => ?_
    refine (ih.methods (by omega) (by omega)).mono fun methods left hl => ?_
    exact ends_skip (by omega) fun left' hl' => by omega
  · simp only [Bool.false_eq_true, if_false, ends_bind]
    refine ends_accepts (fun rest hr => ?_) ?_
    · simp only [if_true, ends_bind, ends_pure]
      exact (ih.function _ (by omega) (by omega)).mono fun _ _ h => by omega
    · simp only [Bool.false_eq_true, if_false, ends_bind]
      refine ends_accepts (fun rest hr => ?_) ?_
      · simp only [if_true]
        exact (ends_varDeclaration (by omega) (by omega)).mono fun _ _ h => by omega
      · exact ih.statement (by omega) hn

theorem ends_function {fuel n : Nat} {tokens : List Token} (ih : StatementsEnd fuel)
    (kind : FunctionKind) (hf : 16 * tokens.length ≤ fuel) (hn : tokens.length ≤ n) :
    Ends n (function (fuel + 1) kind) tokens fun _ rest => rest.length < tokens.length := by
  simp only [function, ends_bind]
  refine ends_expect hn fun name rest hr => ?_
  refine ends_skip (by omega) fun rest' hr' => ?_
  -- what is left once the parameters are read
  have hbody : ∀ params after, after.length ≤ rest'.length →
      Ends n (skip .rightParen .parametersEnd) after fun _ left =>
        Ends n (skip .leftBrace (.functionBody kind)) left fun _ left =>
          Ends n (block fuel) left fun body left =>
            Ends n (pure (⟨(), name, params, body⟩ : Function Unit)) left fun _ left =>
              left.length < tokens.length := by
    intro params after ha
    refine ends_skip (by omega) fun left hl => ?_
    refine ends_skip (by omega) fun left' hl' => ?_
    refine (ih.block (by omega) (by omega)).mono fun body left'' hl'' => ?_
    simp only [ends_pure]
    omega
  simp only [ends_sees]
  cases rest'.head?.any (·.is .rightParen) with
  | true =>
    simpa only [if_true, ends_bind, ends_pure] using hbody [] rest' (Nat.le_refl _)
  | false =>
    simp only [Bool.false_eq_true, if_false, ends_bind]
    refine (ends_parameters 0 (by omega) (by omega)).mono fun params after ha => ?_
    exact hbody params after (by omega)

theorem ends_statement {fuel n : Nat} {tokens : List Token} (ih : StatementsEnd fuel)
    (hf : 16 * tokens.length + 10 ≤ fuel) (hn : tokens.length ≤ n) :
    Ends n (statement (fuel + 1)) tokens fun _ rest => rest.length < tokens.length := by
  have hexpr := ends_expressions fuel
  -- each keyword in turn, and last an expression statement
  simp only [statement, ends_bind]
  refine ends_accepts (fun rest hr => ?_) ?_
  · simp only [if_true, ends_bind, ends_pure]
    refine ends_skip (by omega) fun clauses hc => ?_
    refine (ends_forInitializer (by omega) (by omega)).mono fun initializer? left hl => ?_
    refine (ends_expressionBefore _ (by omega) (by omega)).mono fun condition? left' hl' => ?_
    refine ends_skip (by omega) fun left'' hl'' => ?_
    refine (ends_expressionBefore _ (by omega) (by omega)).mono fun increment? close hcl => ?_
    refine ends_skip (by omega) fun body hb => ?_
    exact (ih.statement (by omega) (by omega)).mono fun _ _ h => by omega
  simp only [Bool.false_eq_true, if_false, ends_bind]
  refine ends_accepts (fun rest hr => ?_) ?_
  · simp only [if_true, ends_bind]
    refine ends_skip (by omega) fun rest' hr' => ?_
    refine (hexpr.expression (by omega) (by omega)).mono fun condition left hl => ?_
    refine ends_skip (by omega) fun left' hl' => ?_
    refine (ih.statement (by omega) (by omega)).mono fun thenBranch left'' hl'' => ?_
    refine ends_accepts (fun other ho => ?_) ?_
    · simp only [if_true, ends_bind, ends_pure]
      exact (ih.statement (by omega) (by omega)).mono fun _ _ h => by omega
    · simp only [Bool.false_eq_true, if_false, ends_pure]
      omega
  simp only [Bool.false_eq_true, if_false, ends_bind]
  refine ends_accepts (fun rest hr => ?_) ?_
  · simp only [if_true, ends_bind, ends_pure]
    refine (hexpr.expression (by omega) (by omega)).mono fun value left hl => ?_
    exact ends_skip (by omega) fun left' hl' => by omega
  simp only [Bool.false_eq_true, if_false, ends_bind]
  refine ends_accepts (fun rest hr => ?_) ?_
  · simp only [if_true, ends_bind, ends_pure]
    refine ends_skip (by omega) fun rest' hr' => ?_
    refine (hexpr.expression (by omega) (by omega)).mono fun condition left hl => ?_
    refine ends_skip (by omega) fun body hb => ?_
    exact (ih.statement (by omega) (by omega)).mono fun _ _ h => by omega
  simp only [Bool.false_eq_true, if_false, ends_bind]
  refine ends_accepts (fun rest hr => ?_) ?_
  · simp only [if_true, ends_bind, ends_pure]
    exact (ih.block (by omega) (by omega)).mono fun _ _ h => by omega
  simp only [Bool.false_eq_true, if_false, ends_bind]
  refine ends_acceptAny (fun keyword rest hr => ?_) ?_
  · simp only [ends_bind, ends_pure]
    refine (ends_expressionBefore _ (by omega) (by omega)).mono fun value? left hl => ?_
    exact ends_skip (by omega) fun left' hl' => by omega
  · exact ends_expressionStatement hf hn

theorem ends_statements (fuel : Nat) : StatementsEnd fuel := by
  induction fuel with
  | zero => constructor <;> intros <;> omega
  | succ fuel ih =>
    constructor
    case declarations =>
      intro n tokens inBlock hf hn
      exact ends_declarations ih inBlock (by omega) hn
    case declaration =>
      intro n tokens hf hn
      exact ends_declaration ih (by omega) hn
    case methods =>
      intro n tokens hf hn
      simp only [Parse.methods, ends_bind, ends_atClose]
      cases tokens.head?.all (·.is .rightBrace) with
      | true => exact Nat.le_refl _
      | false =>
        simp only [Bool.false_eq_true, if_false, ends_bind, ends_pure]
        refine (ih.function _ (by omega) hn).mono fun first rest hr => ?_
        exact (ih.methods (by omega) (by omega)).mono fun _ _ h => by omega
    case function =>
      intro n tokens kind hf hn
      exact ends_function ih kind (by omega) hn
    case block =>
      intro n tokens hf hn
      simp only [Parse.block, ends_bind, ends_pure]
      refine (ih.declarations true (by omega) hn).mono fun body rest hr => ?_
      exact ends_skip (by omega) fun left hl => by omega
    case statement =>
      intro n tokens hf hn
      exact ends_statement ih (by omega) hn

theorem Ends.ne_starved {n : Nat} {p : Parser α} {tokens : List Token}
    {post : α → List Token → Prop} (h : Ends n p tokens post) : p tokens ≠ .starved := by
  intro hstarved
  rw [Ends, hstarved] at h
  exact h

/-- The fuel that `parse` gives is enough for the whole input. -/
theorem declarations_ne_starved (inBlock : Bool) (tokens : List Token) :
    declarations (fuelFor tokens) inBlock tokens ≠ .starved :=
  ((ends_statements (fuelFor tokens)).declarations inBlock (by simp only [fuelFor]; omega)
    (Nat.le_refl tokens.length)).ne_starved

theorem declaration_ne_starved (tokens : List Token) :
    declaration (fuelFor tokens) tokens ≠ .starved :=
  ((ends_statements (fuelFor tokens)).declaration (by simp only [fuelFor]; omega)
    (Nat.le_refl tokens.length)).ne_starved

end Parse

end LoxLang
