import LoxLang.Proofs.Parse.Continuation

/-!
# Parsing moves forward

Whatever the tokens are, a parser leaves an end of what it was given: it never goes back, and it
never goes past the first end of input.  `Forward p` says so of a parser, of its mistakes as well as
of its values.  Every way of composing parsers keeps it, so it holds of every rule of the grammar
(`Rule.forward`).

A declaration moreover gives up a token, be it read or given up (`declaration_moves`): a
mistake may be found before anything is taken, but recovery begins by skipping a token.
`parse_progress` puts this in terms of positions in the token sequence.
-/

namespace LoxLang

namespace Parse

variable {α β : Type}

/-- The tokens that are left, unless the fuel ran out. -/
def Reply.left? : Reply α → Option (List Token)
  | .done _ rest _ | .failed _ rest _ => some rest
  | .starved => none

@[simp] theorem Reply.left?_after (reported : List Mistake) (r : Reply α) :
    (r.after reported).left? = r.left? := by cases r <;> rfl

/-- After a value and after a mistake, `p` leaves an end of the tokens that it was given. -/
def Forward (p : Parser α) : Prop :=
  ∀ tokens rest, (p tokens).left? = some rest → rest <:+ tokens

namespace Forward

/-- A parser that takes nothing. -/
theorem of_still {p : Parser α}
    (h : ∀ tokens rest, (p tokens).left? = some rest → rest = tokens) : Forward p :=
  fun tokens rest hp => h tokens rest hp ▸ List.suffix_rfl

protected theorem pure (a : α) : Forward (pure a : Parser α) :=
  of_still fun _ _ h => (Option.some.inj h).symm

theorem starve : Forward (starve : Parser α) := of_still nofun

theorem fail (fault : SyntaxFault) : Forward (fail fault : Parser α) :=
  of_still fun _ _ h => (Option.some.inj h).symm

theorem report (at? : Option Token) (fault : SyntaxFault) : Forward (report at? fault) :=
  of_still fun _ _ h => (Option.some.inj h).symm

theorem peek? : Forward peek? := of_still fun _ _ h => (Option.some.inj h).symm

theorem take? (f : Token → Option α) : Forward (take? f) := by
  intro tokens rest h
  cases tokens with
  | nil => exact Option.some.inj h ▸ List.suffix_rfl
  | cons t ts =>
    rw [Parse.take?] at h
    cases hf : f t with
    | some a =>
      rw [hf] at h
      obtain rfl := Option.some.inj h
      exact List.suffix_cons t ts
    | none =>
      rw [hf] at h
      obtain rfl := Option.some.inj h
      exact List.suffix_rfl

theorem bind {p : Parser α} {f : α → Parser β} (hp : Forward p) (hf : ∀ a, Forward (f a)) :
    Forward (p >>= f) := by
  intro tokens rest h
  rw [bind_apply] at h
  have hp := hp tokens
  cases hr : p tokens with
  | done a mid reported =>
    rw [hr] at h hp
    rw [Reply.left?_after] at h
    exact (hf a mid rest h).trans (hp mid rfl)
  | failed e mid reported =>
    rw [hr] at h hp
    exact hp rest h
  | starved => rw [hr] at h; cases h

theorem map (f : α → β) {p : Parser α} (hp : Forward p) : Forward (f <$> p) := by
  rw [← bind_pure_comp]
  exact hp.bind fun a => .pure _

theorem ite {c : Prop} [Decidable c] {p q : Parser α} (hp : Forward p) (hq : Forward q) :
    Forward (if c then p else q) := by
  split
  · exact hp
  · exact hq

theorem acceptAny (symbols : List Symbol) : Forward (acceptAny symbols) := take? _

theorem accepts (s : Symbol) : Forward (accepts s) := (acceptAny [s]).bind fun _ => .pure _

theorem expect (s : Symbol) (what : Expectation) : Forward (expect s what) := by
  refine (acceptAny [s]).bind fun t? => ?_
  cases t? with
  | some t => exact .pure t
  | none => exact fail _

theorem skip (s : Symbol) (what : Expectation) : Forward (skip s what) :=
  (expect s what).bind fun _ => .pure ()

theorem sees (s : Symbol) : Forward (sees s) := peek?.bind fun _ => .pure _

theorem atEnd : Forward atEnd := peek?.bind fun _ => .pure _

theorem atClose : Forward atClose := peek?.bind fun _ => .pure _

/-- Recovery only skips tokens. -/
theorem recover {p : Parser α} (hp : Forward p) : Forward (recover p) := by
  intro tokens rest h
  have hp := hp tokens
  unfold Parse.recover at h
  cases hr : p tokens with
  | done a mid reported =>
    rw [hr] at h hp
    exact hp rest h
  | failed e mid reported =>
    rw [hr] at h hp
    obtain rfl := Option.some.inj h
    exact (synchronize_suffix_tail mid).trans ((List.tail_suffix mid).trans (hp mid rfl))
  | starved => rw [hr] at h; cases h

end Forward

/-! ### The rules of the grammar -/

theorem forward_assignTo (target : Expr Unit) (equals : Token) (value : Expr Unit) :
    Forward (assignTo target equals value) := by
  cases target with
  | var label name => exact .pure _
  | get object name => exact .pure _
  | _ => exact (Forward.report _ _).bind fun _ => .pure _

/-- With this fuel the parsers of expressions move forward. -/
structure ExpressionsForward (fuel : Nat) : Prop where
  expression : Forward (Parse.expression fuel)
  operand : ∀ l?, Forward (Parse.operand fuel l?)
  operandRest : ∀ level left, Forward (Parse.operandRest fuel level left)
  unary : Forward (Parse.unary fuel)
  callRest : ∀ callee, Forward (Parse.callRest fuel callee)
  arguments : ∀ count, Forward (Parse.arguments fuel count)
  primary : Forward (Parse.primary fuel)

theorem expressions_forward (fuel : Nat) : ExpressionsForward fuel := by
  induction fuel with
  | zero => constructor <;> intros <;> exact .starve
  | succ fuel ih =>
    constructor
    case expression =>
      rw [Parse.expression]
      refine (ih.operand _).bind fun target => (Forward.acceptAny _).bind fun equals? => ?_
      cases equals? with
      | none => exact .pure _
      | some equals => exact ih.expression.bind fun value => forward_assignTo _ _ _
    case operand =>
      intro l?
      cases l? with
      | none => rw [Parse.operand]; exact ih.unary
      | some level =>
        rw [Parse.operand]
        exact (ih.operand _).bind fun left => ih.operandRest _ _
    case operandRest =>
      intro level left
      rw [Parse.operandRest]
      refine (Forward.acceptAny _).bind fun op? => ?_
      cases op? with
      | none => exact .pure _
      | some op => exact (ih.operand _).bind fun right => ih.operandRest _ _
    case unary =>
      rw [Parse.unary]
      refine (Forward.acceptAny _).bind fun op? => ?_
      cases op? with
      | none => exact ih.primary.bind fun callee => ih.callRest _
      | some op => exact ih.unary.bind fun operand => .pure _
    case callRest =>
      intro callee
      rw [Parse.callRest]
      have hclose (args : List (Expr Unit)) : Forward (do
          let paren ← expect .rightParen .argumentsEnd
          Parse.callRest fuel (.call callee paren args)) :=
        (Forward.expect _ _).bind fun paren => ih.callRest _
      refine (Forward.accepts _).bind fun open? => .ite ?_ ?_
      · refine (Forward.sees _).bind fun empty? => .ite ?_ ?_
        · exact (Forward.pure _).bind hclose
        · exact (ih.arguments 0).bind hclose
      · refine (Forward.accepts _).bind fun dot? => .ite ?_ (.pure _)
        exact (Forward.expect _ _).bind fun name => ih.callRest _
    case arguments =>
      intro count
      rw [Parse.arguments]
      have hmore (arg : Expr Unit) : Forward (do
          if ← accepts .comma then return arg :: (← Parse.arguments fuel (count + 1))
          else return [arg]) :=
        (Forward.accepts _).bind fun more => .ite ((ih.arguments _).bind fun _ => .pure _) (.pure _)
      refine .ite ?_ (ih.expression.bind hmore)
      exact Forward.peek?.bind fun next? => (Forward.report _ _).bind fun _ =>
        ih.expression.bind hmore
    case primary =>
      rw [Parse.primary]
      refine (Forward.take? _).bind fun atom => ?_
      cases atom with
      | some e => exact .pure _
      | none =>
        refine (Forward.accepts _).bind fun open? => .ite ?_ (.fail _)
        exact ih.expression.bind fun inner => (Forward.skip _ _).bind fun _ => .pure _

theorem forward_varDeclaration (fuel : Nat) : Forward (varDeclaration fuel) := by
  have hend (name : Token) (value? : Option (Expr Unit)) : Forward (do
      skip .semicolon .variableEnd
      return Stmt.var name value?) := (Forward.skip _ _).bind fun _ => .pure _
  refine (Forward.expect _ _).bind fun name => (Forward.accepts _).bind fun equal? => .ite ?_ ?_
  · exact ((expressions_forward fuel).expression.map some).bind (hend name)
  · exact (Forward.pure none).bind (hend name)

theorem forward_expressionStatement (fuel : Nat) : Forward (expressionStatement fuel) :=
  (expressions_forward fuel).expression.bind fun _ => (Forward.skip _ _).bind fun _ => .pure _

theorem forward_forInitializer (fuel : Nat) : Forward (forInitializer fuel) :=
  (Forward.accepts _).bind fun _ => .ite (.pure _) <| (Forward.accepts _).bind fun _ =>
    .ite ((forward_varDeclaration fuel).map some) ((forward_expressionStatement fuel).map some)

theorem forward_expressionBefore (fuel : Nat) (s : Symbol) : Forward (expressionBefore fuel s) :=
  (Forward.sees _).bind fun _ => .ite (.pure _) ((expressions_forward fuel).expression.map some)

theorem forward_parameters (fuel count : Nat) : Forward (parameters fuel count) := by
  induction fuel generalizing count with
  | zero => exact .starve
  | succ fuel ih =>
    rw [parameters]
    -- with too many parameters, a report comes first
    refine .ite (Forward.peek?.bind fun next? => (Forward.report _ _).bind fun _ =>
      (Forward.expect _ _).bind fun name => (Forward.acceptAny _).bind fun comma? => ?_)
      ((Forward.expect _ _).bind fun name => (Forward.acceptAny _).bind fun comma? => ?_)
    all_goals
      cases comma? with
      | some comma => exact (ih _).bind fun more => .pure _
      | none => exact .pure _

/-- With this fuel the parsers of statements move forward. -/
structure StatementsForward (fuel : Nat) : Prop where
  declarations : ∀ inBlock, Forward (Parse.declarations fuel inBlock)
  declaration : Forward (Parse.declaration fuel)
  methods : Forward (Parse.methods fuel)
  function : ∀ kind, Forward (Parse.function fuel kind)
  block : Forward (Parse.block fuel)
  statement : Forward (Parse.statement fuel)

theorem forward_statement {fuel : Nat} (ih : StatementsForward fuel) :
    Forward (statement (fuel + 1)) := by
  have hexpr := (expressions_forward fuel).expression
  rw [statement]
  -- each keyword in turn, and last an expression statement
  refine (Forward.accepts _).bind fun for? => .ite ?_ ((Forward.accepts _).bind fun if? =>
    .ite ?_ ?_)
  · refine (Forward.skip _ _).bind fun _ => ?_
    refine (forward_forInitializer fuel).bind fun initializer? => ?_
    refine (forward_expressionBefore fuel _).bind fun condition? => ?_
    refine (Forward.skip _ _).bind fun _ => ?_
    refine (forward_expressionBefore fuel _).bind fun increment? => ?_
    exact (Forward.skip _ _).bind fun _ => ih.statement.bind fun body => .pure _
  · refine (Forward.skip _ _).bind fun _ => hexpr.bind fun condition => ?_
    refine (Forward.skip _ _).bind fun _ => ih.statement.bind fun thenBranch => ?_
    refine (Forward.accepts _).bind fun else? => .ite ?_ (.pure _)
    exact ih.statement.bind fun elseBranch => .pure _
  refine (Forward.accepts _).bind fun print? => .ite ?_ ((Forward.accepts _).bind fun while? =>
    .ite ?_ ?_)
  · exact hexpr.bind fun value => (Forward.skip _ _).bind fun _ => .pure _
  · refine (Forward.skip _ _).bind fun _ => hexpr.bind fun condition => ?_
    exact (Forward.skip _ _).bind fun _ => ih.statement.bind fun body => .pure _
  refine (Forward.accepts _).bind fun brace? => .ite (ih.block.bind fun body => .pure _) ?_
  refine (Forward.acceptAny _).bind fun keyword? => ?_
  cases keyword? with
  | none => exact forward_expressionStatement fuel
  | some keyword =>
    exact (forward_expressionBefore fuel _).bind fun value? => (Forward.skip _ _).bind fun _ =>
      .pure _

theorem statements_forward (fuel : Nat) : StatementsForward fuel := by
  induction fuel with
  | zero => constructor <;> intros <;> exact .starve
  | succ fuel ih =>
    constructor
    case declarations =>
      intro inBlock
      rw [Parse.declarations]
      have hclose : Forward (if inBlock then atClose else atEnd) := .ite .atClose .atEnd
      refine hclose.bind fun ended => .ite (.pure _) ?_
      exact ih.declaration.recover.bind fun first? => (ih.declarations _).bind fun more => .pure _
    case declaration =>
      rw [Parse.declaration]
      refine (Forward.accepts _).bind fun class? => .ite ?_ ((Forward.accepts _).bind fun fun? =>
        .ite ?_ ?_)
      · refine (Forward.expect _ _).bind fun name => (Forward.skip _ _).bind fun _ => ?_
        exact ih.methods.bind fun methods => (Forward.skip _ _).bind fun _ => .pure _
      · exact (ih.function _).bind fun decl => .pure _
      · exact (Forward.accepts _).bind fun var? => .ite (forward_varDeclaration fuel) ih.statement
    case methods =>
      rw [Parse.methods]
      refine Forward.atClose.bind fun close? => .ite (.pure _) ?_
      exact (ih.function _).bind fun first => ih.methods.bind fun more => .pure _
    case function =>
      intro kind
      rw [Parse.function]
      have hbody (name : Token) (params : List Token) : Forward (do
          skip .rightParen .parametersEnd
          skip .leftBrace (.functionBody kind)
          return (⟨(), name, params, ← Parse.block fuel⟩ : Function Unit)) :=
        (Forward.skip _ _).bind fun _ => (Forward.skip _ _).bind fun _ =>
          ih.block.bind fun body => .pure _
      refine (Forward.expect _ _).bind fun name => (Forward.skip _ _).bind fun _ => ?_
      refine (Forward.sees _).bind fun empty? => .ite ?_ ?_
      · exact (Forward.pure _).bind (hbody name)
      · exact (forward_parameters fuel 0).bind (hbody name)
    case block =>
      rw [Parse.block]
      exact (ih.declarations true).bind fun body => (Forward.skip _ _).bind fun _ => .pure _
    case statement => exact forward_statement ih

/-- The rules of the grammar, given some fuel, and the steps that take a token. -/
inductive Rule : {α : Type} → Parser α → Prop
  | acceptAny (symbols : List Symbol) : Rule (acceptAny symbols)
  | accepts (s : Symbol) : Rule (accepts s)
  | expect (s : Symbol) (what : Expectation) : Rule (expect s what)
  | skip (s : Symbol) (what : Expectation) : Rule (skip s what)
  | expression (fuel : Nat) : Rule (expression fuel)
  | operand (fuel : Nat) (l? : Option Level) : Rule (operand fuel l?)
  | operandRest (fuel : Nat) (level : Level) (left : Expr Unit) : Rule (operandRest fuel level left)
  | unary (fuel : Nat) : Rule (unary fuel)
  | callRest (fuel : Nat) (callee : Expr Unit) : Rule (callRest fuel callee)
  | arguments (fuel count : Nat) : Rule (arguments fuel count)
  | primary (fuel : Nat) : Rule (primary fuel)
  | varDeclaration (fuel : Nat) : Rule (varDeclaration fuel)
  | expressionStatement (fuel : Nat) : Rule (expressionStatement fuel)
  | forInitializer (fuel : Nat) : Rule (forInitializer fuel)
  | expressionBefore (fuel : Nat) (s : Symbol) : Rule (expressionBefore fuel s)
  | parameters (fuel count : Nat) : Rule (parameters fuel count)
  | declarations (fuel : Nat) (inBlock : Bool) : Rule (declarations fuel inBlock)
  | declaration (fuel : Nat) : Rule (declaration fuel)
  | recovered (fuel : Nat) : Rule (recover (declaration fuel))
  | methods (fuel : Nat) : Rule (methods fuel)
  | function (fuel : Nat) (kind : FunctionKind) : Rule (function fuel kind)
  | block (fuel : Nat) : Rule (block fuel)
  | statement (fuel : Nat) : Rule (statement fuel)

theorem Rule.forward {p : Parser α} (h : Rule p) : Forward p := by
  cases h with
  | acceptAny symbols => exact .acceptAny symbols
  | accepts s => exact .accepts s
  | expect s what => exact .expect s what
  | skip s what => exact .skip s what
  | expression fuel => exact (expressions_forward fuel).expression
  | operand fuel l? => exact (expressions_forward fuel).operand l?
  | operandRest fuel level left => exact (expressions_forward fuel).operandRest level left
  | unary fuel => exact (expressions_forward fuel).unary
  | callRest fuel callee => exact (expressions_forward fuel).callRest callee
  | arguments fuel count => exact (expressions_forward fuel).arguments count
  | primary fuel => exact (expressions_forward fuel).primary
  | varDeclaration fuel => exact forward_varDeclaration fuel
  | expressionStatement fuel => exact forward_expressionStatement fuel
  | forInitializer fuel => exact forward_forInitializer fuel
  | expressionBefore fuel s => exact forward_expressionBefore fuel s
  | parameters fuel count => exact forward_parameters fuel count
  | declarations fuel inBlock => exact (statements_forward fuel).declarations inBlock
  | declaration fuel => exact (statements_forward fuel).declaration
  | recovered fuel => exact (statements_forward fuel).declaration.recover
  | methods fuel => exact (statements_forward fuel).methods
  | function fuel kind => exact (statements_forward fuel).function kind
  | block fuel => exact (statements_forward fuel).block
  | statement fuel => exact (statements_forward fuel).statement

/-- A declaration that begins before the end gives up a token, be it read or given up. -/
theorem declaration_moves {tokens : List Token} (hne : tokens ≠ []) :
    ∃ first? rest reported, rest <:+ tokens ∧ rest.length < tokens.length ∧
      ∀ fuel, (16 * tokens.length + 12 ≤ fuel → recover (declaration fuel) tokens ≠ .starved) ∧
        (recover (declaration fuel) tokens ≠ .starved →
          recover (declaration fuel) tokens = .done first? rest reported) := by
  have hpos := List.length_pos_iff.2 hne
  have hends (fuel : Nat) (hfuel : 16 * tokens.length + 12 ≤ fuel) :
      Ends tokens.length (recover (declaration fuel)) tokens fun _ rest =>
        rest.length < tokens.length :=
    ends_recover ((ends_statements fuel).declaration hfuel (Nat.le_refl _)) fun rest _ => by omega
  -- the reply is the one with the least fuel that is known to be enough
  have hleast := hends (16 * tokens.length + 12) (Nat.le_refl _)
  have hforward := (statements_forward (16 * tokens.length + 12)).declaration.recover tokens
  unfold Ends at hleast
  cases h : recover (declaration (16 * tokens.length + 12)) tokens with
  | done first? rest reported =>
    rw [h] at hleast hforward
    refine ⟨first?, rest, reported, hforward rest rfl, hleast, fun fuel =>
      ⟨fun hfuel => (hends fuel hfuel).ne_starved, fun hfuel => ?_⟩⟩
    rcases Nat.le_total fuel (16 * tokens.length + 12) with hle | hle
    · rw [← h]
      exact ((declaration_extend_of_le hle).recover.eq_of_ne_starved hfuel).symm
    · rw [← h]
      exact (declaration_extend_of_le hle).recover.eq_of_ne_starved (by rw [h]; nofun)
  | failed e rest reported => exact absurd h (neverFails_recover _ _ _ _ _)
  | starved => rw [h] at hleast; exact hleast.elim

/-- Outside a block the declarations go on until nothing is left. -/
theorem declarations_to_end {fuel : Nat} {tokens rest : List Token} {ss : List (Stmt Unit)}
    {reported : List Mistake} (h : declarations fuel false tokens = .done ss rest reported) :
    rest = [] := by
  induction fuel generalizing tokens ss reported with
  | zero => cases h
  | succ fuel ih =>
    by_cases hne : tokens = []
    · subst hne
      cases h
      rfl
    · rw [declarations_round hne, bind_apply] at h
      cases hfirst : recover (declaration fuel) tokens with
      | done first? mid earlier =>
        simp only [hfirst, bind_apply] at h
        cases hmore : declarations fuel false mid with
        | done more left later =>
          simp only [hmore, pure_apply, Reply.after, Reply.done.injEq] at h
          obtain ⟨-, rfl, -⟩ := h
          exact ih hmore
        | failed e left later => simp [hmore, Reply.after] at h
        | starved => simp [hmore, Reply.after] at h
      | failed e mid earlier => simp [hfirst] at h
      | starved => simp [hfirst] at h

/-! ### Positions -/

/-- The position of the first end of input, or behind the last token if there is none. -/
def stop (tokens : List Token) : Nat := tokens.findIdx (·.isEnd)

/-- What the parser still sees when it is at position `i`. -/
def leftAt (tokens : List Token) (i : Nat) : List Token := (body tokens).drop i

theorem body_eq_take (tokens : List Token) : body tokens = tokens.take (stop tokens) := by
  rw [body, List.takeWhile_eq_take_findIdx_not, stop]
  simp

theorem length_body (tokens : List Token) : (body tokens).length = stop tokens := by
  rw [body_eq_take, List.length_take]
  exact Nat.min_eq_left List.findIdx_le_length

theorem length_leftAt (tokens : List Token) (i : Nat) :
    (leftAt tokens i).length = stop tokens - i := by
  rw [leftAt, List.length_drop, length_body]

/-- What is left is always the view from a later position. -/
theorem exists_leftAt {tokens rest : List Token} {i : Nat} (hi : i ≤ stop tokens)
    (h : rest <:+ leftAt tokens i) :
    ∃ j, i ≤ j ∧ j ≤ stop tokens ∧ rest = leftAt tokens j := by
  have hle : rest.length ≤ stop tokens - i := length_leftAt tokens i ▸ h.length_le
  refine ⟨stop tokens - rest.length, by omega, by omega, ?_⟩
  have hrest : rest <:+ body tokens := h.trans (List.drop_suffix i _)
  rw [leftAt, ← length_body]
  exact List.suffix_iff_eq_drop.1 hrest

/-- Before every position but the first stands a token that is not the end of the input. -/
theorem exists_previous {tokens : List Token} {j : Nat} (hpos : 0 < j) (hj : j ≤ stop tokens) :
    ∃ t, tokens[j - 1]? = some t ∧ t.isEnd = false := by
  have hlt : j - 1 < tokens.findIdx (·.isEnd) := by
    rw [stop] at hj
    omega
  have hlength : j - 1 < tokens.length := Nat.lt_of_lt_of_le hlt List.findIdx_le_length
  exact ⟨tokens[j - 1], List.getElem?_eq_getElem hlength, List.not_of_lt_findIdx hlt⟩

end Parse

open Parse

/-- Parsing always moves forward, whatever the tokens are.  It ends, and only at the end of the
input.  A declaration ends behind the position where it begins, be it read or given up, and whatever
fuel it has as long as that is enough.  No rule ends before the position where it begins or behind
the end of the input, so that the token before any position but the first is one of those before
the end. -/
theorem parse_progress (tokens : List Token) :
    (∃ statements reported,
      declarations (fuelFor (body tokens)) false (leftAt tokens 0) =
        .done statements (leftAt tokens (stop tokens)) reported ∧
      parse tokens = ⟨statements, reported.map (·.locate (endLine tokens))⟩) ∧
    (∀ i < stop tokens, ∃ first? j reported, i < j ∧ j ≤ stop tokens ∧ ∀ fuel,
      (16 * (stop tokens - i) + 12 ≤ fuel →
        recover (declaration fuel) (leftAt tokens i) ≠ .starved) ∧
      (recover (declaration fuel) (leftAt tokens i) ≠ .starved →
        recover (declaration fuel) (leftAt tokens i) = .done first? (leftAt tokens j) reported)) ∧
    (∀ (α : Type) (p : Parser α), Rule p → ∀ i ≤ stop tokens, ∀ rest,
      (p (leftAt tokens i)).left? = some rest →
        ∃ j, i ≤ j ∧ j ≤ stop tokens ∧ rest = leftAt tokens j) ∧
    stop tokens ≤ tokens.length ∧
    ∀ j, 0 < j → j ≤ stop tokens → ∃ t, tokens[j - 1]? = some t ∧ t.isEnd = false := by
  refine ⟨?_, fun i hi => ?_, fun α p hp i hi rest h => exists_leftAt hi (hp.forward _ _ h),
    List.findIdx_le_length, fun j => exists_previous⟩
  · obtain ⟨statements, rest, reported, h, hparse⟩ := exists_declarations tokens
    obtain rfl : rest = [] := declarations_to_end (h _ (Nat.le_refl _))
    have hstop : leftAt tokens (stop tokens) = [] :=
      List.drop_eq_nil_of_le (Nat.le_of_eq (length_body tokens))
    exact ⟨statements, reported, hstop ▸ h _ (Nat.le_refl _), hparse⟩
  · have hlength := length_leftAt tokens i
    have hne : leftAt tokens i ≠ [] := List.ne_nil_of_length_pos (by omega)
    obtain ⟨first?, rest, reported, hsuffix, hlt, hreply⟩ := declaration_moves hne
    obtain ⟨j, _, hj, rfl⟩ := exists_leftAt (Nat.le_of_lt hi) hsuffix
    have hlength' := length_leftAt tokens j
    rw [hlength] at hreply
    exact ⟨first?, j, reported, by omega, hj, hreply⟩

end LoxLang
