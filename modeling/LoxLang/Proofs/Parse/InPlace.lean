import LoxLang.Proofs.Parse.Continuation
import LoxLang.Proofs.Similar.Parse
import Mathlib.Data.List.TakeWhile

/-!
# The end of the input in its place

`parse` reads the tokens before the first end of the input.  A parser that is given all tokens meets the
end of the input among them: it stops there as it would at the end of the list, never takes it, and names
it in its mistakes (`Parse.InPlace`).  The two parsers agree rule by rule (`InPlace.statements_same`),
and so they give the same on every sequence (`parseInPlace_eq`).

So it does no harm if the end of the input is missing, or stands before further tokens: the statements
are the same, and so are the errors, but for the line of those at the end (`end_of_input_is_harmless`).
-/

namespace LoxLang

namespace Parse

namespace InPlace

variable {α β : Type}

/-! ### The end of the input among the tokens -/

/-- The next token is the end of the input, or there is none. -/
def atEnd : Parser Bool := return (← peek?).all (·.isEnd)

/-- The next token is the end of the input or closes a block, or there is none. -/
def atClose : Parser Bool := return (← peek?).all fun t => t.isEnd || t.is .rightBrace

/-- Skips tokens up to a statement boundary, as `Parse.settle` does, and never past the end of the
input. -/
def settle (last : Token) : List Token → List Token
  | [] => []
  | t :: rest =>
    if t.isEnd || (last.is .semicolon || statementStarts.any t.is) then t :: rest else settle t rest

/-- Skips the token at which a mistake was found, unless it is the end of the input, and then up to a
statement boundary. -/
def synchronize : List Token → List Token
  | [] => []
  | t :: rest => if t.isEnd then t :: rest else settle t rest

/-- Reports the mistake that ends `p`, if one does, and skips to a statement boundary. -/
def recover (p : Parser α) : Parser (Option α) := fun tokens =>
  match p tokens with
  | .done a rest reported => .done (some a) rest reported
  | .failed e rest reported => .done none (synchronize rest) (reported ++ [e])
  | .starved => .starved

/-! ### The rules that ask for the end

No other rule asks whether the input has ended: they only take tokens that they ask for. -/

mutual

/-- Declarations up to the end of the input, or in a block up to a closing brace. -/
def declarations : (fuel : Nat) → (inBlock : Bool) → Parser (List (Stmt Unit))
  | 0, _ => starve
  | fuel + 1, inBlock => do
    if ← (if inBlock then atClose else atEnd) then
      return []
    else
      let first? ← recover (declaration fuel)
      return first?.toList ++ (← declarations fuel inBlock)

/-- A class, a function, a variable, or a statement. -/
def declaration : (fuel : Nat) → Parser (Stmt Unit)
  | 0 => starve
  | fuel + 1 => do
    if ← accepts .classKw then
      let name ← expect .identifier .className
      skip .leftBrace .classBody
      let methods ← methods fuel
      skip .rightBrace .classEnd
      return .classDecl name methods
    else if ← accepts .funKw then
      return .function (← function fuel .function)
    else if ← accepts .varKw then
      varDeclaration fuel
    else
      statement fuel

/-- Methods up to a closing brace or the end of the input. -/
def methods : (fuel : Nat) → Parser (List (Function Unit))
  | 0 => starve
  | fuel + 1 => do
    if ← atClose then
      return []
    else
      let first ← function fuel .method
      return first :: (← methods fuel)

/-- A function from its name on. -/
def function : (fuel : Nat) → FunctionKind → Parser (Function Unit)
  | 0, _ => starve
  | fuel + 1, kind => do
    let name ← expect .identifier (.functionName kind)
    skip .leftParen (.parameters kind)
    let params ← if ← sees .rightParen then pure [] else parameters fuel 0
    skip .rightParen .parametersEnd
    skip .leftBrace (.functionBody kind)
    return ⟨(), name, params, ← block fuel⟩

/-- A block from after its opening brace on. -/
def block : (fuel : Nat) → Parser (List (Stmt Unit))
  | 0 => starve
  | fuel + 1 => do
    let body ← declarations fuel true
    skip .rightBrace .blockEnd
    return body

/-- A statement that declares nothing. -/
def statement : (fuel : Nat) → Parser (Stmt Unit)
  | 0 => starve
  | fuel + 1 => do
    if ← accepts .forKw then
      skip .leftParen .forClauses
      let initializer? ← forInitializer fuel
      let condition? ← expressionBefore fuel .semicolon
      skip .semicolon .conditionEnd
      let increment? ← expressionBefore fuel .rightParen
      skip .rightParen .clausesEnd
      return .forLoop initializer? condition? increment? (← statement fuel)
    else if ← accepts .ifKw then
      skip .leftParen .ifCondition
      let condition ← expression fuel
      skip .rightParen .ifConditionEnd
      let thenBranch ← statement fuel
      if ← accepts .elseKw then
        return .ifElse condition thenBranch (← statement fuel)
      else
        return .ifThen condition thenBranch
    else if ← accepts .printKw then
      let value ← expression fuel
      skip .semicolon .printEnd
      return .print value
    else if ← accepts .whileKw then
      skip .leftParen .whileCondition
      let condition ← expression fuel
      skip .rightParen .whileConditionEnd
      return .whileLoop condition (← statement fuel)
    else if ← accepts .leftBrace then
      return .block (← block fuel)
    else match ← accept .returnKw with
      | some keyword => do
        let value? ← expressionBefore fuel .semicolon
        skip .semicolon .returnEnd
        return .ret keyword value?
      | none => expressionStatement fuel

end

end InPlace

end Parse

/-- Parses a token sequence up to the first end of input in it, or up to its own end, as if a token on
line 0 stood there. -/
def parseInPlace (tokens : List Token) : Parsed :=
  match Parse.InPlace.declarations (Parse.fuelFor tokens) false tokens with
  | .done statements _ reported => ⟨statements, reported.map (·.locate 0)⟩
  | .failed _ _ reported => ⟨[], reported.map (·.locate 0)⟩
  | .starved => ⟨[], []⟩

namespace Parse

/-! ### Replies before the end and in its presence -/

/-- No token is the end of the input. -/
def Inner (tokens : List Token) : Prop := ∀ t ∈ tokens, t.isEnd = false

/-- The tokens start with the end of the input, if there are any. -/
def FromEnd (tokens : List Token) : Prop := ∀ t ∈ tokens.head?, t.isEnd = true

/-- The mistake, placed at the given token if it is at the end of the input. -/
def Mistake.endingAt (end? : Option Token) (m : Mistake) : Mistake := ⟨m.at?.or end?, m.fault⟩

section

variable {α β : Type} (tail : List Token)

/-- The first reply is about the tokens before the end of the input, and the second one about these and
the tokens from there on. -/
inductive Reply.Before : Reply α → Reply α → Prop where
  | done {a rest} {reported : List Mistake} : Inner rest →
    Reply.Before (.done a rest reported)
      (.done a (rest ++ tail) (reported.map (·.endingAt tail.head?)))
  | failed {e : Mistake} {rest} {reported : List Mistake} : Inner rest →
    Reply.Before (.failed e rest reported)
      (.failed (e.endingAt tail.head?) (rest ++ tail) (reported.map (·.endingAt tail.head?)))
  | starved : Reply.Before .starved .starved

variable {tail}

theorem Reply.Before.after {r r' : Reply α} (h : r.Before tail r') (earlier : List Mistake) :
    (r.after earlier).Before tail (r'.after (earlier.map (·.endingAt tail.head?))) := by
  cases h with
  | done hrest =>
    rw [Reply.after, Reply.after, ← List.map_append]
    exact .done hrest
  | failed hrest =>
    rw [Reply.after, Reply.after, ← List.map_append]
    exact .failed hrest
  | starved => exact .starved

/-- Given all tokens, `q` does what `p` does with those before the end of the input. -/
def Same (p q : Parser α) : Prop :=
  ∀ ⦃body tail⦄, Inner body → FromEnd tail → (p body).Before tail (q (body ++ tail))

namespace Same

variable {p q : Parser α} {f g : α → Parser β}

/-! ### Ways of composing parsers -/

protected theorem pure (a : α) : Same (pure a : Parser α) (pure a) := fun _ _ hbody _ => .done hbody

theorem bind (h : Same p q) (hf : ∀ a, Same (f a) (g a)) : Same (p >>= f) (q >>= g) := by
  intro body tail hbody htail
  have hreply := h hbody htail
  rw [bind_apply, bind_apply]
  generalize p body = r, q (body ++ tail) = r' at hreply
  cases hreply with
  | done hrest => exact (hf _ hrest htail).after _
  | failed hrest => exact .failed hrest
  | starved => exact .starved

theorem map (h : Same p q) (f : α → β) : Same (f <$> p) (f <$> q) := by
  rw [← bind_pure_comp, ← bind_pure_comp]
  exact h.bind fun _ => .pure _

theorem ite {c : Prop} [Decidable c] {p' q' : Parser α} (h : Same p q) (h' : Same p' q') :
    Same (if c then p else p') (if c then q else q') := by
  split
  · exact h
  · exact h'

theorem starve : Same (starve : Parser α) starve := fun _ _ _ _ => .starved

theorem fail (fault : SyntaxFault) : Same (fail fault : Parser α) (fail fault) := by
  intro body tail hbody _
  rw [Parse.fail, Parse.fail, List.head?_append]
  exact .failed hbody

/-- A mistake at a token is reported there. -/
theorem report (t : Token) (fault : SyntaxFault) :
    Same (report (some t) fault) (report (some t) fault) := fun _ _ hbody _ => .done hbody

/-- A mistake at the next token is reported there, or at the end of the input. -/
theorem reportNext (h : Same p q) (fault : SyntaxFault) :
    Same (do Parse.report (← peek?) fault; p) (do Parse.report (← peek?) fault; q) := by
  have hreport : Same (do Parse.report (← peek?) fault) (do Parse.report (← peek?) fault) := by
    intro body tail hbody _
    simp only [bind_apply, peek?, Parse.report, Reply.after_nil, List.head?_append]
    exact .done hbody
  simpa only [bind_assoc] using hreport.bind fun _ => h

/-! ### Single tokens -/

theorem take? {f : Token → Option α} (hf : ∀ t, t.isEnd = true → f t = none) :
    Same (take? f) (take? f) := by
  intro body tail hbody htail
  cases body with
  | cons t rest =>
    rw [List.cons_append, Parse.take?, Parse.take?]
    cases f t with
    | some a => exact .done fun t ht => hbody t (List.mem_cons_of_mem _ ht)
    | none => exact .done hbody
  | nil =>
    cases tail with
    | nil => exact .done hbody
    | cons t rest =>
      rw [List.nil_append, Parse.take?, Parse.take?, hf t (htail t rfl)]
      exact .done hbody

variable {s : Symbol}

theorem acceptAny {symbols : List Symbol} (hs : .endOfInput ∉ symbols) :
    Same (acceptAny symbols) (acceptAny symbols) := by
  refine take? fun t ht => if_neg ?_
  obtain ⟨kind, lexeme, line⟩ := t
  obtain rfl := TokenKind.is_iff.1 ht
  simpa [Token.is, TokenKind.is] using hs

theorem accept (hs : .endOfInput ≠ s) : Same (accept s) (accept s) :=
  acceptAny (List.mem_singleton.not.2 hs)

theorem accepts (hs : .endOfInput ≠ s) : Same (accepts s) (accepts s) :=
  (accept hs).bind fun _ => .pure _

theorem expect (hs : .endOfInput ≠ s) (what : Expectation) : Same (expect s what) (expect s what) := by
  refine (accept hs).bind fun t? => ?_
  cases t? with
  | some t => exact .pure t
  | none => exact .fail _

theorem skip (hs : .endOfInput ≠ s) (what : Expectation) : Same (skip s what) (skip s what) :=
  (expect hs what).bind fun _ => .pure _

/-- What is asked of the next token has the same answer for the end of the input as for no token. -/
theorem asks {f g : Option Token → Bool} (hsome : ∀ t, t.isEnd = false → g (some t) = f (some t))
    (hnone : g none = f none) (hend : ∀ t, t.isEnd = true → g (some t) = f none) :
    Same (do return f (← peek?)) (do return g (← peek?)) := by
  intro body tail hbody htail
  have hanswer : g (body ++ tail).head? = f body.head? := by
    cases body with
    | cons t rest => exact hsome t (hbody t List.mem_cons_self)
    | nil =>
      cases tail with
      | nil => exact hnone
      | cons t rest => exact hend t (htail t rfl)
  change Reply.Before tail (.done (f body.head?) body []) (.done (g (body ++ tail).head?) _ [])
  rw [hanswer]
  exact .done hbody

theorem sees (hs : .endOfInput ≠ s) : Same (sees s) (sees s) := by
  refine asks (fun _ _ => rfl) rfl fun t ht => ?_
  obtain ⟨kind, lexeme, line⟩ := t
  obtain rfl := TokenKind.is_iff.1 ht
  simpa [Token.is, TokenKind.is] using hs

theorem atEnd : Same atEnd InPlace.atEnd :=
  asks (fun _ ht => ht) rfl fun _ ht => ht

theorem atClose : Same atClose InPlace.atClose := by
  refine asks (fun t ht => ?_) rfl fun t ht => ?_
  · simp [ht]
  · simp [ht]

/-! ### Recovery -/

theorem settle {body tail : List Token} (hbody : Inner body) (htail : FromEnd tail) (last : Token) :
    InPlace.settle last (body ++ tail) = Parse.settle last body ++ tail := by
  induction body generalizing last with
  | nil =>
    cases tail with
    | nil => rfl
    | cons t rest =>
      rw [List.nil_append, InPlace.settle, htail t rfl]
      rfl
  | cons t rest ih =>
    obtain ⟨ht, hrest⟩ := List.forall_mem_cons.1 hbody
    rw [List.cons_append, InPlace.settle, Parse.settle, ht, Bool.false_or]
    split
    · rfl
    · exact ih hrest t

theorem synchronize {body tail : List Token} (hbody : Inner body) (htail : FromEnd tail) :
    InPlace.synchronize (body ++ tail) = Parse.synchronize body ++ tail := by
  cases body with
  | nil =>
    cases tail with
    | nil => rfl
    | cons t rest =>
      rw [List.nil_append, InPlace.synchronize, htail t rfl]
      rfl
  | cons t rest =>
    obtain ⟨ht, hrest⟩ := List.forall_mem_cons.1 hbody
    rw [List.cons_append, InPlace.synchronize, ht]
    exact settle hrest htail t

theorem recover (h : Same p q) : Same (recover p) (InPlace.recover q) := by
  intro body tail hbody htail
  have hreply := h hbody htail
  unfold Parse.recover InPlace.recover
  generalize p body = r, q (body ++ tail) = r' at hreply
  cases hreply with
  | done hrest => exact .done hrest
  | starved => exact .starved
  | @failed e rest reported hrest =>
    dsimp only
    rw [synchronize hrest htail]
    have hleft : Inner (Parse.synchronize rest) := fun t ht =>
      hrest t (List.mem_of_mem_tail ((synchronize_suffix_tail rest).subset ht))
    rw [← List.map_singleton, ← List.map_append]
    exact .done hleft

end Same

end

namespace InPlace

/-! ### Expressions -/

theorem atom?_end (t : Token) (ht : t.isEnd = true) : atom? t = none := by
  obtain ⟨kind, lexeme, line⟩ := t
  obtain rfl := TokenKind.is_iff.1 ht
  rfl

theorem operators_end (level : Level) : .endOfInput ∉ level.operators := by
  cases level <;> decide

theorem assignTo_same (target value : Expr Unit) (equals : Token) :
    Same (assignTo target equals value) (assignTo target equals value) := by
  have hreport : Same (do report (some equals) .invalidTarget; return target)
      (do report (some equals) .invalidTarget; return target) :=
    (Same.report equals _).bind fun _ => .pure _
  cases target with
  | var _ _ => exact .pure _
  | get _ _ => exact .pure _
  | _ => exact hreport

/-- The parsers of expressions do with all tokens what they do with those before the end. -/
structure ExpressionsSame (fuel : Nat) : Prop where
  expression : Same (expression fuel) (expression fuel)
  operand : ∀ l?, Same (operand fuel l?) (operand fuel l?)
  operandRest : ∀ level left, Same (operandRest fuel level left) (operandRest fuel level left)
  unary : Same (unary fuel) (unary fuel)
  callRest : ∀ callee, Same (callRest fuel callee) (callRest fuel callee)
  arguments : ∀ count, Same (arguments fuel count) (arguments fuel count)
  primary : Same (primary fuel) (primary fuel)

theorem expressions_same (fuel : Nat) : ExpressionsSame fuel := by
  induction fuel with
  | zero => constructor <;> intros <;> exact Same.starve
  | succ fuel ih =>
    constructor
    case expression =>
      rw [Parse.expression]
      refine (ih.operand _).bind fun target => (Same.accept (by decide)).bind fun equals? => ?_
      cases equals? with
      | none => exact .pure target
      | some equals => exact ih.expression.bind fun value => assignTo_same target value equals
    case operand =>
      intro l?
      cases l? with
      | none => rw [Parse.operand]; exact ih.unary
      | some level =>
        rw [Parse.operand]
        exact (ih.operand _).bind fun left => ih.operandRest level left
    case operandRest =>
      intro level left
      rw [Parse.operandRest]
      refine (Same.acceptAny (operators_end level)).bind fun op? => ?_
      cases op? with
      | none => exact .pure left
      | some op => exact (ih.operand _).bind fun right => ih.operandRest level _
    case unary =>
      rw [Parse.unary]
      refine (Same.acceptAny (by decide)).bind fun op? => ?_
      cases op? with
      | none => exact ih.primary.bind fun callee => ih.callRest callee
      | some op => exact ih.unary.bind fun _ => .pure _
    case callRest =>
      intro callee
      rw [Parse.callRest]
      have hcall : ∀ args, Same
          (do callRest fuel (.call callee (← expect .rightParen .argumentsEnd) args))
          (do callRest fuel (.call callee (← expect .rightParen .argumentsEnd) args)) :=
        fun args => (Same.expect (by decide) _).bind fun paren => ih.callRest _
      refine (Same.accepts (by decide)).bind fun _ => .ite ?_ ?_
      · refine (Same.sees (by decide)).bind fun _ => .ite ?_ ?_
        · exact (Same.pure []).bind hcall
        · exact (ih.arguments 0).bind hcall
      · refine (Same.accepts (by decide)).bind fun _ => .ite ?_ (.pure callee)
        exact (Same.expect (by decide) _).bind fun name => ih.callRest _
    case arguments =>
      intro count
      rw [Parse.arguments]
      have hargs := ih.expression.bind fun arg => (Same.accepts (s := .comma) (by decide)).bind fun b =>
        .ite (c := b = true) ((ih.arguments (count + 1)).bind fun args => .pure (arg :: args))
          (.pure [arg])
      exact .ite (hargs.reportNext _) hargs
    case primary =>
      rw [Parse.primary]
      refine (Same.take? atom?_end).bind fun e? => ?_
      cases e? with
      | some e => exact .pure e
      | none =>
        refine (Same.accepts (by decide)).bind fun _ => .ite ?_ (.fail _)
        exact ih.expression.bind fun inner => (Same.skip (by decide) _).bind fun _ => .pure _

/-! ### Statements -/

theorem varDeclaration_same (fuel : Nat) : Same (varDeclaration fuel) (varDeclaration fuel) := by
  have hend : ∀ (name : Token) (value? : Option (Expr Unit)), Same
      (do skip .semicolon .variableEnd; return Stmt.var name value?)
      (do skip .semicolon .variableEnd; return Stmt.var name value?) :=
    fun _ _ => (Same.skip (by decide) _).bind fun _ => .pure _
  refine (Same.expect (by decide) _).bind fun name =>
    (Same.accepts (by decide)).bind fun _ => .ite ?_ ?_
  · exact ((expressions_same fuel).expression.map _).bind fun value? => hend name value?
  · exact (Same.pure none).bind fun value? => hend name value?

theorem expressionStatement_same (fuel : Nat) :
    Same (expressionStatement fuel) (expressionStatement fuel) :=
  (expressions_same fuel).expression.bind fun _ => (Same.skip (by decide) _).bind fun _ => .pure _

theorem forInitializer_same (fuel : Nat) : Same (forInitializer fuel) (forInitializer fuel) := by
  refine (Same.accepts (by decide)).bind fun _ => .ite (.pure none) ?_
  refine (Same.accepts (by decide)).bind fun _ => .ite ?_ ?_
  · exact (varDeclaration_same fuel).map _
  · exact (expressionStatement_same fuel).map _

theorem expressionBefore_same (fuel : Nat) {s : Symbol} (hs : .endOfInput ≠ s) :
    Same (expressionBefore fuel s) (expressionBefore fuel s) :=
  (Same.sees hs).bind fun _ => .ite (.pure none) ((expressions_same fuel).expression.map _)

theorem parameters_same (fuel count : Nat) : Same (parameters fuel count) (parameters fuel count) := by
  induction fuel generalizing count with
  | zero => exact Same.starve
  | succ fuel ih =>
    rw [parameters]
    -- with too many parameters, a report comes first
    refine .ite (Same.reportNext (.bind (Same.expect (by decide) _) fun name =>
      (Same.accept (by decide)).bind fun comma? => ?_) _)
      ((Same.expect (by decide) _).bind fun name => (Same.accept (by decide)).bind fun comma? => ?_)
    all_goals
      cases comma? with
      | none => exact .pure _
      | some _ => exact (ih _).bind fun _ => .pure _

/-- The parsers of statements do with all tokens what those that do not meet the end of the input do with
the tokens before it. -/
structure StatementsSame (fuel : Nat) : Prop where
  declarations : ∀ inBlock, Same (Parse.declarations fuel inBlock) (declarations fuel inBlock)
  declaration : Same (Parse.declaration fuel) (declaration fuel)
  methods : Same (Parse.methods fuel) (methods fuel)
  function : ∀ kind, Same (Parse.function fuel kind) (function fuel kind)
  block : Same (Parse.block fuel) (block fuel)
  statement : Same (Parse.statement fuel) (statement fuel)

theorem statement_same {fuel : Nat} (ih : StatementsSame fuel) :
    Same (Parse.statement (fuel + 1)) (statement (fuel + 1)) := by
  have hexpr := (expressions_same fuel).expression
  rw [Parse.statement, statement]
  -- each keyword in turn, and last an expression statement
  refine (Same.accepts (by decide)).bind fun _ => .ite ?_
    ((Same.accepts (by decide)).bind fun _ => .ite ?_ ?_)
  · refine (Same.skip (by decide) _).bind fun _ => (forInitializer_same fuel).bind fun _ => ?_
    refine (expressionBefore_same fuel (by decide)).bind fun _ => (Same.skip (by decide) _).bind fun _ => ?_
    refine (expressionBefore_same fuel (by decide)).bind fun _ => (Same.skip (by decide) _).bind fun _ => ?_
    exact ih.statement.bind fun _ => .pure _
  · refine (Same.skip (by decide) _).bind fun _ => hexpr.bind fun _ => ?_
    refine (Same.skip (by decide) _).bind fun _ => ih.statement.bind fun _ => ?_
    refine (Same.accepts (by decide)).bind fun _ => .ite ?_ (.pure _)
    exact ih.statement.bind fun _ => .pure _
  refine (Same.accepts (by decide)).bind fun _ => .ite ?_
    ((Same.accepts (by decide)).bind fun _ => .ite ?_ ?_)
  · exact hexpr.bind fun _ => (Same.skip (by decide) _).bind fun _ => .pure _
  · refine (Same.skip (by decide) _).bind fun _ => hexpr.bind fun _ => ?_
    exact (Same.skip (by decide) _).bind fun _ => ih.statement.bind fun _ => .pure _
  refine (Same.accepts (by decide)).bind fun _ => .ite (ih.block.bind fun _ => .pure _) ?_
  refine (Same.accept (by decide)).bind fun keyword? => ?_
  cases keyword? with
  | none => exact expressionStatement_same fuel
  | some keyword =>
    exact (expressionBefore_same fuel (by decide)).bind fun _ =>
      (Same.skip (by decide) _).bind fun _ => .pure _

theorem statements_same (fuel : Nat) : StatementsSame fuel := by
  induction fuel with
  | zero => constructor <;> intros <;> exact Same.starve
  | succ fuel ih =>
    constructor
    case declarations =>
      intro inBlock
      rw [Parse.declarations, declarations]
      have hended : Same (if inBlock then Parse.atClose else Parse.atEnd)
          (if inBlock then atClose else atEnd) := .ite .atClose .atEnd
      exact hended.bind fun _ => .ite (.pure [])
        (ih.declaration.recover.bind fun _ => (ih.declarations _).bind fun _ => .pure _)
    case declaration =>
      rw [Parse.declaration, declaration]
      refine (Same.accepts (by decide)).bind fun _ => .ite ?_
        ((Same.accepts (by decide)).bind fun _ => .ite ?_ ?_)
      · refine (Same.expect (by decide) _).bind fun _ => (Same.skip (by decide) _).bind fun _ => ?_
        exact ih.methods.bind fun _ => (Same.skip (by decide) _).bind fun _ => .pure _
      · exact (ih.function _).bind fun _ => .pure _
      · exact (Same.accepts (by decide)).bind fun _ => .ite (varDeclaration_same fuel) ih.statement
    case methods =>
      rw [Parse.methods, methods]
      exact Same.atClose.bind fun _ => .ite (.pure [])
        ((ih.function _).bind fun _ => ih.methods.bind fun _ => .pure _)
    case function =>
      intro kind
      rw [Parse.function, function]
      have hrest : ∀ (name : Token) (params : List Token), Same
          (do skip .rightParen .parametersEnd
              skip .leftBrace (.functionBody kind)
              return FunDecl.mk () name params (← Parse.block fuel))
          (do skip .rightParen .parametersEnd
              skip .leftBrace (.functionBody kind)
              return FunDecl.mk () name params (← block fuel)) :=
        fun _ _ => (Same.skip (by decide) _).bind fun _ => (Same.skip (by decide) _).bind fun _ =>
          ih.block.bind fun _ => .pure _
      refine (Same.expect (by decide) _).bind fun name => (Same.skip (by decide) _).bind fun _ => ?_
      refine (Same.sees (by decide)).bind fun _ => .ite ?_ ?_
      · exact (Same.pure []).bind fun params => hrest name params
      · exact (parameters_same fuel 0).bind fun params => hrest name params
    case block =>
      rw [Parse.block, block]
      exact (ih.declarations true).bind fun _ => (Same.skip (by decide) _).bind fun _ => .pure _
    case statement => exact statement_same ih

end InPlace

end Parse

/-! ### Whole sequences -/

/-- The error with its place on the given line if it is at the end of the input. -/
def SyntaxError.endingOn (line : Nat) (e : SyntaxError) : SyntaxError :=
  if e.site.lexeme?.isNone then { e with site := ⟨line, none⟩ } else e

section

open Parse

/-- Where the end of the input stands does not matter for a mistake that is placed at it. -/
theorem Parse.Mistake.locate_endingAt {end? : Option Token} (hend : ∀ t ∈ end?, t.isEnd = true)
    (m : Mistake) : (m.endingAt end?).locate 0 = m.locate ((end?.map Token.line).getD 0) := by
  obtain ⟨at?, fault⟩ := m
  cases at? with
  | some t => rfl
  | none =>
    cases end? with
    | none => rfl
    | some e =>
      have he : e.isEnd = true := hend e rfl
      simp [Mistake.endingAt, Mistake.locate, Token.site, he]

/-- A mistake at the end of the input is one without a token. -/
theorem Parse.Mistake.locate_endingOn {m : Mistake} (hm : ∀ t ∈ m.at?, t.isEnd = false)
    (line line' : Nat) : (m.locate line').endingOn line = m.locate line := by
  obtain ⟨at?, fault⟩ := m
  cases at? with
  | none => rfl
  | some t =>
    have ht : t.isEnd = false := hm t rfl
    simp [SyntaxError.endingOn, Mistake.locate, Token.site, ht]

/-- The mistakes reported before the end of the input are at tokens there, or at the end. -/
theorem declarations_reported {fuel : Nat} {inBlock : Bool} {body : List Token} (hbody : Inner body)
    {statements : List (Stmt Unit)} {rest : List Token} {reported : List Mistake}
    (h : Parse.declarations fuel inBlock body = .done statements rest reported) :
    ∀ m ∈ reported, ∀ t ∈ m.at?, t.isEnd = false := by
  have hsimilar : List.Forall₂ (Token.Similar fun t _ => t.isEnd = false) body body :=
    List.forall₂_same.2 fun t ht => ⟨hbody t ht, rfl, rfl⟩
  have hreply := (statements_alike _ fuel).declarations inBlock hsimilar
  rw [h] at hreply
  intro m hm t ht
  cases hreply with
  | done _ _ hreported =>
    have hat := (List.forall₂_same.1 hreported m hm).at?
    rw [Option.mem_def.1 ht] at hat
    cases hat with
    | some htoken => exact htoken.place

/-- The parser that meets the end of the input gives the same as the one that never sees it. -/
theorem parseInPlace_eq (tokens : List Token) : parseInPlace tokens = parse tokens := by
  have hbody : Inner (body tokens) := fun t ht => by simpa using List.mem_takeWhile_imp ht
  have htail : FromEnd (tokens.dropWhile (!·.isEnd)) := fun t ht => by
    simpa [Option.mem_def.1 ht] using List.head?_dropWhile_not (!·.isEnd) tokens
  have hsplit : body tokens ++ tokens.dropWhile (!·.isEnd) = tokens := List.takeWhile_append_dropWhile
  have hfuel : fuelFor (body tokens) ≤ fuelFor tokens :=
    Nat.mul_le_mul_left 16 (Nat.succ_le_succ (List.takeWhile_prefix _).length_le)
  have hfirst : tokens.find? (·.isEnd) = (tokens.dropWhile (!·.isEnd)).head? :=
    List.find?_eq_head?_dropWhile_not _ _
  obtain ⟨ss, rest, reported, hread, hparse⟩ := exists_declarations tokens
  have hreply := (InPlace.statements_same (fuelFor tokens)).declarations false hbody htail
  rw [hread _ hfuel, hsplit] at hreply
  unfold parseInPlace
  generalize InPlace.declarations _ _ tokens = r at hreply
  cases hreply with
  | done _ =>
    rw [hparse, endLine, hfirst]
    simp only [List.map_map, Function.comp_def, Mistake.locate_endingAt htail]

end

open Parse in
/-- It does no harm if the end of the input is missing, or if tokens follow it: the statements are the
same, and the errors are the same in the same order, but those at the end are on line 0 if it is missing,
and otherwise on its line.  And it makes no difference whether the parser meets the end of the input among
the tokens, or only sees those before it. -/
theorem end_of_input_is_harmless {tokens : List Token} (htokens : ∀ t ∈ tokens, t.isEnd = false)
    {end' : Token} (hend : end'.isEnd = true) :
    (∀ more, parse (tokens ++ [end'] ++ more) = parse (tokens ++ [end'])) ∧
    (parse (tokens ++ [end'])).statements = (parse tokens).statements ∧
    (parse (tokens ++ [end'])).errors = (parse tokens).errors.map (·.endingOn end'.line) ∧
    (∀ e ∈ (parse tokens).errors, e.site.lexeme? = none → e.site.line = 0) ∧
    ∀ all, parseInPlace all = parse all := by
  obtain ⟨ss, rest, reported, hread, hparse⟩ := exists_declarations tokens
  rw [body_of_noEnd htokens] at hread
  rw [endLine_of_noEnd htokens] at hparse
  have hreported := declarations_reported htokens (hread _ (Nat.le_refl _))
  have hended (more : List Token) :
      parse (tokens ++ end' :: more) = ⟨ss, reported.map (·.locate end'.line)⟩ := by
    have hbody : body (tokens ++ end' :: more) = tokens := by
      rw [body_append htokens, body, List.takeWhile_cons, hend]
      exact List.append_nil _
    have hline : endLine (tokens ++ end' :: more) = end'.line := by
      rw [endLine_append htokens, endLine, List.find?_cons, hend]
      rfl
    obtain ⟨ss', rest', reported', hread', hparse'⟩ := exists_declarations (tokens ++ end' :: more)
    rw [hbody] at hread'
    obtain ⟨rfl, -, rfl⟩ := Reply.done.inj ((hread _ (Nat.le_refl _)).symm.trans (hread' _ (Nat.le_refl _)))
    rw [hparse', hline]
  refine ⟨fun more => ?_, ?_, ?_, ?_, parseInPlace_eq⟩
  · rw [List.append_assoc, List.singleton_append, hended, hended]
  · rw [hended, hparse]
  · rw [hended, hparse, List.map_map]
    exact List.map_congr_left fun m hm => (Mistake.locate_endingOn (hreported m hm) _ _).symm
  · rw [hparse]
    intro e he hnone
    obtain ⟨m, hm, rfl⟩ := List.mem_map.1 he
    cases hat : m.at? with
    | none => simp [Mistake.locate, hat]
    | some t => simp [Mistake.locate, hat, Token.site, hreported m hm t hat] at hnone

/-- A block that is not closed, and after the end of the input a brace that would close it. -/
theorem block_open_at_end :
    let open' : Token := ⟨.symbol .leftBrace, "\x7b", 3⟩
    let end' : Token := ⟨.symbol .endOfInput, "", 4⟩
    let close : Token := ⟨.symbol .rightBrace, "\x7d", 5⟩
    (∀ t ∈ [open'], t.isEnd = false) ∧ end'.isEnd = true ∧
      (parse [open']).errors = [⟨⟨0, none⟩, .expected .blockEnd⟩] ∧
      (parse [open', end']).errors = [⟨⟨4, none⟩, .expected .blockEnd⟩] ∧
      parse [open', end', close] = parse [open', end'] := by
  intro open' end' close
  have hopen : ∀ t ∈ [open'], t.isEnd = false := by decide
  have herrors : (parse [open']).errors = [⟨⟨0, none⟩, .expected .blockEnd⟩] := by decide
  obtain ⟨hmore, -, hended, -⟩ := @end_of_input_is_harmless _ hopen end' rfl
  refine ⟨hopen, rfl, herrors, ?_, hmore [close]⟩
  rw [herrors] at hended
  exact hended

end LoxLang
