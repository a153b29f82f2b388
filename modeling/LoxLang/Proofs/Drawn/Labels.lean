import LoxLang.Proofs.Drawn.Parser
import LoxLang.Proofs.Similar.Tree
import LoxLang.Proofs.Tree.Numbering
import LoxLang.Token.Scan
import Mathlib.Data.List.Perm.Subperm

/-!
# The labels of trees with drawn numbers

A parser that draws numbers replies as the one without them does, with the same trees but for their labels
(`Parse.Draws`).  Each label comes from what the parser was given, or is a number that it has drawn, and
no number is used twice.  Ways of composing parsers keep this, so it passes from the single steps to all
rules (`expressions_draw`, `statements_draw`), and what `parseDrawing` makes of a token sequence has
labels that differ (`parseDrawing_spec`).
-/

namespace LoxLang

namespace Parse

section

variable {α β α' β' : Type}

/-- The same reply, with related values of which the second one satisfies `P`. -/
inductive Reply.Matches (R : α → α' → Prop) (P : α' → Prop) : Reply α → Reply α' → Prop where
  | done {a a' rest reported} : R a a' → P a' →
    Reply.Matches R P (.done a rest reported) (.done a' rest reported)
  | failed {e rest reported} : Reply.Matches R P (.failed e rest reported) (.failed e rest reported)
  | starved : Reply.Matches R P .starved .starved

/-- The second parser draws numbers and replies otherwise as the first one does, with related values.
The labels of its value are among the `old` ones and the numbers drawn, and none of these is used more
often than it is there. -/
def Draws (old : List NodeId) (R : α → α' → Prop) (labels : α' → List NodeId) (p : Parser α)
    (q : Drawing α') : Prop :=
  ∀ n tokens, ∃ drawn, Consecutive drawn n (q n tokens).2 ∧
    (p tokens).Matches R (fun a => (labels a).Subperm (old ++ drawn)) (q n tokens).1

theorem Reply.Matches.after {R : α → α' → Prop} {P P' : α' → Prop} {r : Reply α} {r' : Reply α'}
    (h : r.Matches R P r') (hP : ∀ a, P a → P' a) (earlier : List Mistake) :
    (r.after earlier).Matches R P' (r'.after earlier) := by
  cases h with
  | done hR ha => exact .done hR (hP _ ha)
  | failed => exact .failed
  | starved => exact .starved

namespace Draws

variable {old : List NodeId} {R : α → α' → Prop} {S : β → β' → Prop} {labels : α' → List NodeId}
  {labels' : β' → List NodeId} {p : Parser α} {q : Drawing α'}

/-! ### Ways of composing parsers -/

theorem pure {a : α} {a' : α'} (h : R a a') (hlabels : (labels a').Subperm old) :
    Draws old R labels (pure a) (pure a') :=
  fun n _ => ⟨[], .nil n, .done h (by simpa using hlabels)⟩

/-- A value with just the labels at hand. -/
theorem use {a : α} {a' : α'} (h : R a a') (hlabels : labels a' = old := by rfl) :
    Draws old R labels (Pure.pure a) (Pure.pure a') := .pure h (hlabels ▸ List.Subperm.refl _)

/-- The second parser may use all labels of what the first one yields. -/
theorem bind {f : α → Parser β} {g : α' → Drawing β'} (h : Draws old R labels p q)
    (hf : ∀ a a', R a a' → Draws (labels a') S labels' (f a) (g a')) :
    Draws old S labels' (p >>= f) (q >>= g) := by
  intro n tokens
  obtain ⟨drawn, hdrawn, hreply⟩ := h n tokens
  simp only [Bind.bind]
  generalize p tokens = r, q n tokens = reply at hdrawn hreply
  obtain ⟨r', n'⟩ := reply
  cases hreply with
  | @done a a' rest reported hR ha =>
    obtain ⟨more, hmore, hreply⟩ := hf a a' hR n' rest
    refine ⟨drawn ++ more, hdrawn.append hmore, hreply.after (fun b hb => ?_) _⟩
    rw [← List.append_assoc]
    exact hb.trans ((List.subperm_append_right more).2 ha)
  | failed => exact ⟨drawn, hdrawn, .failed⟩
  | starved => exact ⟨drawn, hdrawn, .starved⟩

/-- Labels that the parser does not see stay as they are. -/
theorem frame (h : Draws [] R labels p q) (old : List NodeId) :
    Draws old R (fun a => old ++ labels a) p q := by
  intro n tokens
  obtain ⟨drawn, hdrawn, hreply⟩ := h n tokens
  refine ⟨drawn, hdrawn, ?_⟩
  generalize p tokens = r, (q n tokens).1 = r' at hreply
  cases hreply with
  | done hR ha => exact .done hR ((List.subperm_append_left old).2 ha)
  | failed => exact .failed
  | starved => exact .starved

/-- A parser that sees none of the labels read so far, and what comes after it. -/
theorem sub {f : α → Parser β} {g : α' → Drawing β'} (h : Draws [] R labels p q)
    (hf : ∀ a a', R a a' → Draws (old ++ labels a') S labels' (f a) (g a')) :
    Draws old S labels' (p >>= f) (q >>= g) := (h.frame old).bind hf

/-- A parser that draws nothing. -/
theorem lift (p : Parser α) (old : List NodeId) : Draws old Eq (fun _ => old) p p := by
  intro n tokens
  refine ⟨[], .nil n, ?_⟩
  change Reply.Matches _ _ (p tokens) (p tokens)
  cases p tokens with
  | done a rest reported => exact .done rfl (by rw [List.append_nil])
  | failed e rest reported => exact .failed
  | starved => exact .starved

/-- A token of which two parsers make related things. -/
theorem take? {f : Token → Option α} {g : Token → Option α'} (hf : ∀ t, Option.Rel R (f t) (g t))
    (old : List NodeId) : Draws old (Option.Rel R) (fun _ => old) (take? f) (take? g) := by
  intro n tokens
  refine ⟨[], .nil n, ?_⟩
  change Reply.Matches _ _ (Parse.take? f tokens) (Parse.take? g tokens)
  have hold : old.Subperm (old ++ []) := by rw [List.append_nil]
  cases tokens with
  | nil => exact .done .none hold
  | cons t rest =>
    have hvalue := hf t
    rw [Parse.take?, Parse.take?]
    generalize f t = a?, g t = a?' at hvalue
    cases hvalue with
    | none => exact .done .none hold
    | some ha => exact .done (.some ha) hold

/-- A parser that draws nothing, and what comes after it. -/
theorem next (p : Parser α) {f : α → Parser β} {g : α → Drawing β'}
    (hf : ∀ a, Draws old S labels' (f a) (g a)) : Draws old S labels' (p >>= f) (p >>= g) :=
  (lift p old).bind fun a _ ha => ha ▸ hf a

/-- A number that is drawn, and what comes after it. -/
theorem draw {p : Parser β} {g : NodeId → Drawing β'}
    (hg : ∀ id, Draws (old ++ [id]) S labels' p (g id)) :
    Draws old S labels' p (Drawing.draw >>= g) := by
  intro n tokens
  obtain ⟨drawn, hdrawn, hreply⟩ := hg n (n + 1) tokens
  refine ⟨n :: drawn, hdrawn.cons, ?_⟩
  change Reply.Matches _ _ (p tokens) ((g n (n + 1) tokens).1.after [])
  rw [Reply.after_nil, ← Reply.after_nil (p tokens), ← Reply.after_nil (g n (n + 1) tokens).1]
  exact hreply.after (fun b hb => by simpa using hb) []

theorem map {f : α → β} {g : α' → β'} (h : Draws old R labels p q)
    (hf : ∀ a a', R a a' → S (f a) (g a')) (hlabels : ∀ a, labels' (g a) = labels a := by intro; rfl) :
    Draws old S labels' (f <$> p) (g <$> q) := by
  rw [← bind_pure_comp]
  exact h.bind fun a a' ha => .use (hf a a' ha) (hlabels a')

theorem ite {c : Prop} [Decidable c] {p' : Parser α} {q' : Drawing α'} (h : Draws old R labels p q)
    (h' : Draws old R labels p' q') :
    Draws old R labels (if c then p else p') (if c then q else q') := by
  split
  · exact h
  · exact h'

theorem starve : Draws old R labels (starve : Parser α) (Parse.starve : Parser α') :=
  fun n _ => ⟨[], .nil n, .starved⟩

theorem fail (fault : SyntaxFault) :
    Draws old R labels (fail fault : Parser α) (Parse.fail fault : Parser α') :=
  fun n _ => ⟨[], .nil n, .failed⟩

/-- What is skipped takes its numbers with it. -/
theorem recover (h : Draws [] R labels p q) :
    Draws [] (Option.Rel R) (fun a? => a?.elim [] labels) (recover p) (Drawing.recover q) := by
  intro n tokens
  obtain ⟨drawn, hdrawn, hreply⟩ := h n tokens
  unfold Parse.recover Drawing.recover
  generalize p tokens = r, q n tokens = reply at hdrawn hreply
  obtain ⟨r', n'⟩ := reply
  refine ⟨drawn, ?_, ?_⟩
  · cases hreply <;> exact hdrawn
  · cases hreply with
    | done hR ha => exact .done (.some hR) ha
    | failed => exact .done .none List.nil_subperm
    | starved => exact .starved

end Draws

end

/-! ### Expressions -/

/-- The expressions are the same but for their labels. -/
abbrev SameExpr : Expr Unit → Expr NodeId → Prop := Expr.Similar (fun _ _ => True) Eq

/-- The expressions are the same one by one, but for their labels. -/
abbrev SameExprs : List (Expr Unit) → List (Expr NodeId) → Prop :=
  Expr.SimilarEach (fun _ _ => True) Eq

/-- The expressions are both missing, or the same but for their labels. -/
abbrev SameExpr? : Option (Expr Unit) → Option (Expr NodeId) → Prop :=
  Expr.Similar? (fun _ _ => True) Eq

/-- The statements are the same but for their labels. -/
abbrev SameStmt : Stmt Unit → Stmt NodeId → Prop := Stmt.Similar (fun _ _ => True) Eq

/-- The statements are the same one by one, but for their labels. -/
abbrev SameStmts : List (Stmt Unit) → List (Stmt NodeId) → Prop :=
  Stmt.SimilarEach (fun _ _ => True) Eq

theorem same_node {left right : Expr Unit} {left' right' : Expr NodeId} (hleft : SameExpr left left')
    (hright : SameExpr right right') (level : Level) (op : Token) :
    SameExpr (level.node left op right) (Drawing.node level left' op right') := by
  cases level
  case or | and => exact .logical hleft (.refl rfl) hright
  all_goals exact .binary hleft (.refl rfl) hright

theorem labels_node (level : Level) (left right : Expr NodeId) (op : Token) :
    (Drawing.node level left op right).labels = left.labels ++ right.labels := by
  cases level <;> rfl

/-- The number of a variable that is assigned to is not used again. -/
theorem assignTo_draws {target value : Expr Unit} {target' value' : Expr NodeId}
    (htarget : SameExpr target target') (equals : Token) (hvalue : SameExpr value value') :
    Draws (target'.labels ++ value'.labels) SameExpr Expr.labels (assignTo target equals value)
      (Drawing.assignTo target' equals value') := by
  have hkeep : Draws (target'.labels ++ value'.labels) SameExpr Expr.labels
      (do report (some equals) .invalidTarget; return target)
      (do report (some equals) .invalidTarget; return target') :=
    .next _ fun _ => .pure htarget (List.sublist_append_left _ _).subperm
  cases htarget with
  | @var _ id t _ _ ht =>
    obtain rfl : t = _ := ht.place
    refine .draw fun id' => .pure (.assign trivial (.refl rfl) hvalue) ?_
    have hperm : (id' :: value'.labels).Perm (value'.labels ++ [id']) :=
      (List.perm_append_singleton id' _).symm
    exact hperm.subperm.trans (List.sublist_cons_self id _).subperm
  | get ho hname =>
    obtain rfl := hname.place
    exact .use (.set ho (.refl rfl) hvalue)
  | _ => exact hkeep

/-- A name and `this` get a number, and no other token does. -/
theorem atom?_draws (t : Token) :
    Option.Rel (fun e q => Draws [] SameExpr Expr.labels (pure e) q) (atom? t) (Drawing.atom? t) := by
  have hliteral (l : Literal) :
      Draws [] SameExpr Expr.labels (pure (.literal l)) (pure (.literal l)) :=
    .use .literal
  have hdrawn {e : Expr Unit} {g : NodeId → Expr NodeId} (hg : ∀ id, SameExpr e (g id))
      (hlabels : ∀ id, (g id).labels = [id]) :
      Draws [] SameExpr Expr.labels (pure e) (do return g (← Drawing.draw)) :=
    .draw fun id => .use (hg id) (hlabels id)
  obtain ⟨kind, lexeme, line⟩ := t
  cases kind with
  | number x => exact .some (hliteral _)
  | string s => exact .some (hliteral _)
  | symbol s =>
    cases s
    case falseKw | trueKw | nilKw => exact .some (hliteral _)
    case thisKw => exact .some (hdrawn (fun _ => .thisRef trivial (.refl rfl)) fun _ => rfl)
    case identifier => exact .some (hdrawn (fun _ => .var trivial (.refl rfl)) fun _ => rfl)
    all_goals exact .none

/-- The parsers of expressions that draw numbers do what those without them do.  Of an operand or a
callee that they are given they may use the labels. -/
structure ExpressionsDraw (fuel : Nat) : Prop where
  expression : Draws [] SameExpr Expr.labels (expression fuel) (Drawing.expression fuel)
  operand : ∀ l?, Draws [] SameExpr Expr.labels (operand fuel l?) (Drawing.operand fuel l?)
  operandRest : ∀ level {left left'}, SameExpr left left' →
    Draws left'.labels SameExpr Expr.labels (operandRest fuel level left)
      (Drawing.operandRest fuel level left')
  unary : Draws [] SameExpr Expr.labels (unary fuel) (Drawing.unary fuel)
  callRest : ∀ {callee callee'}, SameExpr callee callee' →
    Draws callee'.labels SameExpr Expr.labels (callRest fuel callee) (Drawing.callRest fuel callee')
  arguments : ∀ count,
    Draws [] SameExprs Expr.labelsEach (arguments fuel count) (Drawing.arguments fuel count)
  primary : Draws [] SameExpr Expr.labels (primary fuel) (Drawing.primary fuel)

theorem expressions_draw (fuel : Nat) : ExpressionsDraw fuel := by
  induction fuel with
  | zero => constructor <;> intros <;> exact .starve
  | succ fuel ih =>
    constructor
    case expression =>
      rw [Parse.expression, Drawing.expression]
      refine (ih.operand _).bind fun target target' htarget => .next _ fun equals? => ?_
      cases equals? with
      | none => exact .use htarget
      | some equals =>
        exact ih.expression.sub fun value value' hvalue => assignTo_draws htarget equals hvalue
    case operand =>
      intro l?
      cases l? with
      | none => rw [Parse.operand, Drawing.operand]; exact ih.unary
      | some level =>
        rw [Parse.operand, Drawing.operand]
        exact (ih.operand _).bind fun left left' hleft => ih.operandRest level hleft
    case operandRest =>
      intro level left left' hleft
      rw [Parse.operandRest, Drawing.operandRest]
      refine .next _ fun op? => ?_
      cases op? with
      | none => exact .use hleft
      | some op =>
        refine (ih.operand _).sub fun right right' hright => ?_
        rw [← labels_node level left' right' op]
        exact ih.operandRest level (same_node hleft hright level op)
    case unary =>
      rw [Parse.unary, Drawing.unary]
      refine .next _ fun op? => ?_
      cases op? with
      | none => exact ih.primary.bind fun callee callee' hcallee => ih.callRest hcallee
      | some op =>
        exact ih.unary.bind fun e e' he => .use (.unary (.refl rfl) he)
    case callRest =>
      intro callee callee' hcallee
      rw [Parse.callRest, Drawing.callRest]
      have hcall {args : List (Expr Unit)} {args' : List (Expr NodeId)} (hargs : SameExprs args args') :
          Draws (callee'.labels ++ Expr.labelsEach args') SameExpr Expr.labels
            (do callRest fuel (.call callee (← expect .rightParen .argumentsEnd) args))
            (do Drawing.callRest fuel (.call callee' (← expect .rightParen .argumentsEnd) args')) :=
        .next _ fun paren => ih.callRest (.call hcallee (.refl rfl) hargs)
      refine .next _ fun called => .ite (.next _ fun closed => .ite ?_ ?_)
        (.next _ fun dotted => .ite (.next _ fun name => ?_) ?_)
      · have hnone : Draws [] SameExprs Expr.labelsEach (pure []) (pure []) :=
          .use .nil
        exact hnone.sub fun args args' hargs => hcall hargs
      · exact (ih.arguments 0).sub fun args args' hargs => hcall hargs
      · exact ih.callRest (.get hcallee (.refl rfl))
      · exact .use hcallee
    case arguments =>
      intro count
      rw [Parse.arguments, Drawing.arguments]
      have hargs : Draws [] SameExprs Expr.labelsEach
          (do
            let arg ← Parse.expression fuel
            if ← accepts .comma then return arg :: (← Parse.arguments fuel (count + 1))
            else return [arg])
          (do
            let arg ← Drawing.expression fuel
            if ← accepts .comma then return arg :: (← Drawing.arguments fuel (count + 1))
            else return [arg]) := by
        refine ih.expression.bind fun arg arg' harg => .next _ fun comma => .ite ?_ ?_
        · exact (ih.arguments _).sub fun args args' hargs => .use (.cons harg hargs)
        · exact .use (.cons harg .nil) (List.append_nil _)
      exact .ite (.next _ fun t? => .next _ fun _ => hargs) hargs
    case primary =>
      rw [Parse.primary, Drawing.primary]
      refine (Draws.take? atom?_draws []).bind fun e? q? hatom => ?_
      cases hatom with
      | some h => exact h
      | none =>
        refine .next _ fun opened => .ite ?_ (.fail _)
        exact ih.expression.bind fun inner inner' hinner => .next _ fun _ => .use (.group hinner)

/-! ### Statements -/

theorem varDeclaration_draws (fuel : Nat) :
    Draws [] SameStmt Stmt.labels (varDeclaration fuel) (Drawing.varDeclaration fuel) := by
  have hend (name : Token) {value? : Option (Expr Unit)} {value?' : Option (Expr NodeId)}
      (hvalue : SameExpr? value? value?') :
      Draws (Expr.labels? value?') SameStmt Stmt.labels
        (do skip .semicolon .variableEnd; return .var name value?)
        (do skip .semicolon .variableEnd; return .var name value?') :=
    .next _ fun _ => .use (.var (.refl rfl) hvalue)
  refine .next _ fun name => .next _ fun initialized => .ite ?_ ?_
  · have hvalue : Draws [] SameExpr? Expr.labels?
        (some <$> expression fuel) (some <$> Drawing.expression fuel) :=
      (expressions_draw fuel).expression.map (fun _ _ he => .some he)
    exact hvalue.bind fun value? value?' hvalue => hend name hvalue
  · have hnone : Draws [] SameExpr? Expr.labels? (pure none) (pure none) :=
      .use .none
    exact hnone.bind fun value? value?' hvalue => hend name hvalue

theorem expressionStatement_draws (fuel : Nat) :
    Draws [] SameStmt Stmt.labels (expressionStatement fuel) (Drawing.expressionStatement fuel) :=
  (expressions_draw fuel).expression.bind fun _ _ he => .next _ fun _ => .use (.expr he)

/-- The labels of a statement that may be missing. -/
def labelsOf? (s? : Option (Stmt NodeId)) : List NodeId := s?.elim [] Stmt.labels

theorem forInitializer_draws (fuel : Nat) :
    Draws [] (Option.Rel SameStmt) labelsOf? (forInitializer fuel) (Drawing.forInitializer fuel) := by
  refine .next _ fun missing => .ite (.use .none) ?_
  refine .next _ fun declared => .ite ?_ ?_
  · exact (varDeclaration_draws fuel).map (fun _ _ hs => .some hs)
  · exact (expressionStatement_draws fuel).map (fun _ _ hs => .some hs)

theorem expressionBefore_draws (fuel : Nat) (s : Symbol) :
    Draws [] SameExpr? Expr.labels? (expressionBefore fuel s)
      (Drawing.expressionBefore fuel s) := by
  refine .next _ fun missing => .ite (.use .none) ?_
  exact (expressions_draw fuel).expression.map (fun _ _ he => .some he)

theorem same_forLoop {initializer? : Option (Stmt Unit)} {initializer?' : Option (Stmt NodeId)}
    {condition? increment? : Option (Expr Unit)} {condition?' increment?' : Option (Expr NodeId)}
    {body : Stmt Unit} {body' : Stmt NodeId}
    (hinitializer : Option.Rel SameStmt initializer? initializer?')
    (hcondition : SameExpr? condition? condition?')
    (hincrement : SameExpr? increment? increment?') (hbody : SameStmt body body') :
    SameStmt (.forLoop initializer? condition? increment? body)
      (.forLoop initializer?' condition?' increment?' body') := by
  have hbody : SameStmt (body.withIncrement increment?) (body'.withIncrement increment?') := by
    cases hincrement with
    | none => exact hbody
    | some h => exact .block (.cons hbody (.cons (.expr h) .nil))
  have hcondition : SameExpr (condition?.getD (.literal (.bool true)))
      (condition?'.getD (.literal (.bool true))) := by
    cases hcondition with
    | none => exact .literal
    | some h => exact h
  cases hinitializer with
  | none => exact .whileLoop hcondition hbody
  | some h => exact .block (.cons h (.cons (.whileLoop hcondition hbody) .nil))

/-- A `for` loop has the labels of its clauses and its body, each of them once. -/
theorem labels_forLoop (initializer? : Option (Stmt NodeId))
    (condition? increment? : Option (Expr NodeId)) (body : Stmt NodeId) :
    (Stmt.forLoop initializer? condition? increment? body).labels.Perm
      (labelsOf? initializer? ++ Expr.labels? condition? ++ Expr.labels? increment? ++ body.labels) := by
  have hbody : (body.withIncrement increment?).labels.Perm (Expr.labels? increment? ++ body.labels) := by
    cases increment? with
    | none => exact .refl _
    | some e =>
      simpa [Stmt.withIncrement, Stmt.labels, Stmt.labelsEach, Expr.labels?] using
        List.perm_append_comm
  have hcondition :
      (condition?.getD (.literal (.bool true))).labels = Expr.labels? condition? := by
    cases condition? <;> rfl
  have hloop : (Stmt.whileLoop (condition?.getD (.literal (.bool true)))
      (body.withIncrement increment?)).labels.Perm
        (Expr.labels? condition? ++ (Expr.labels? increment? ++ body.labels)) := by
    rw [Stmt.labels, hcondition]
    exact hbody.append_left _
  rw [List.append_assoc, List.append_assoc]
  cases initializer? with
  | none => exact hloop
  | some s =>
    have hblock : (Stmt.block [s, Stmt.whileLoop (condition?.getD (.literal (.bool true)))
        (body.withIncrement increment?)]).labels = s.labels ++ (Stmt.whileLoop
          (condition?.getD (.literal (.bool true))) (body.withIncrement increment?)).labels := by
      simp [Stmt.labels, Stmt.labelsEach]
    rw [Stmt.forLoop, Stmt.withInitializer, hblock]
    exact hloop.append_left _

/-- The parsers of statements that draw numbers do what those without them do. -/
structure StatementsDraw (fuel : Nat) : Prop where
  declarations : ∀ inBlock, Draws [] SameStmts Stmt.labelsEach (declarations fuel inBlock)
    (Drawing.declarations fuel inBlock)
  declaration : Draws [] SameStmt Stmt.labels (declaration fuel) (Drawing.declaration fuel)
  methods : Draws [] (Stmt.SimilarFunctions (fun _ _ => True) Eq) Stmt.labelsFunctions (methods fuel)
    (Drawing.methods fuel)
  function : ∀ kind, Draws [] (Stmt.SimilarFunction (fun _ _ => True) Eq) Stmt.labelsFunction
    (function fuel kind) (Drawing.function fuel kind)
  block : Draws [] SameStmts Stmt.labelsEach (block fuel) (Drawing.block fuel)
  statement : Draws [] SameStmt Stmt.labels (statement fuel) (Drawing.statement fuel)

theorem statement_draws {fuel : Nat} (ih : StatementsDraw fuel) :
    Draws [] SameStmt Stmt.labels (statement (fuel + 1)) (Drawing.statement (fuel + 1)) := by
  have hexpr := (expressions_draw fuel).expression
  rw [Parse.statement, Drawing.statement]
  -- each keyword in turn, and last an expression statement
  refine .next _ fun isFor => .ite ?_ (.next _ fun isIf => .ite ?_ ?_)
  · refine .next _ fun _ => (forInitializer_draws fuel).bind fun _ _ hinitializer => ?_
    refine (expressionBefore_draws fuel _).sub fun _ _ hcondition => .next _ fun _ => ?_
    refine (expressionBefore_draws fuel _).sub fun _ _ hincrement => .next _ fun _ => ?_
    exact ih.statement.sub fun _ _ hbody => .pure
      (same_forLoop hinitializer hcondition hincrement hbody) (labels_forLoop _ _ _ _).subperm
  · refine .next _ fun _ => hexpr.bind fun _ _ hcondition => .next _ fun _ => ?_
    refine ih.statement.sub fun _ _ hthen => .next _ fun isElse => .ite ?_ ?_
    · refine ih.statement.sub fun _ _ helse => .use (.ifElse hcondition hthen helse) ?_
      exact (List.append_assoc ..).symm
    · exact .use (.ifThen hcondition hthen)
  refine .next _ fun isPrint => .ite ?_ (.next _ fun isWhile => .ite ?_ ?_)
  · exact hexpr.bind fun _ _ he => .next _ fun _ => .use (.print he)
  · refine .next _ fun _ => hexpr.bind fun _ _ hcondition => .next _ fun _ => ?_
    exact ih.statement.sub fun _ _ hbody => .use (.whileLoop hcondition hbody)
  refine .next _ fun isBlock => .ite ?_ (.next _ fun keyword? => ?_)
  · exact ih.block.bind fun _ _ hbody => .use (.block hbody)
  cases keyword? with
  | none => exact expressionStatement_draws fuel
  | some keyword =>
    exact (expressionBefore_draws fuel _).bind fun _ _ hvalue => .next _ fun _ =>
      .use (.ret (.refl rfl) hvalue)

theorem statements_draw (fuel : Nat) : StatementsDraw fuel := by
  induction fuel with
  | zero => constructor <;> intros <;> exact .starve
  | succ fuel ih =>
    constructor
    case declarations =>
      intro inBlock
      rw [Parse.declarations, Drawing.declarations]
      have hended : Draws [] Eq (fun _ => []) (if inBlock then atClose else atEnd)
          (if inBlock then atClose else atEnd) := .ite (.lift _ _) (.lift _ _)
      refine hended.bind fun ended _ hended => ?_
      subst hended
      refine .ite (.use .nil) ?_
      refine ih.declaration.recover.bind fun first? first?' hfirst => ?_
      refine (ih.declarations inBlock).sub fun ss ss' hss => ?_
      cases hfirst with
      | none => exact .use hss
      | some hs => exact .use (.cons hs hss)
    case declaration =>
      rw [Parse.declaration, Drawing.declaration]
      refine .next _ fun isClass => .ite ?_ (.next _ fun isFun => .ite ?_ ?_)
      · refine .next _ fun name => .next _ fun _ => ih.methods.bind fun _ _ hmethods => ?_
        exact .next _ fun _ => .use (.classDecl (.refl rfl) hmethods)
      · exact (ih.function _).bind fun _ _ hf => .use (.function hf)
      · exact .next _ fun isVar => .ite (varDeclaration_draws fuel) ih.statement
    case methods =>
      rw [Parse.methods, Drawing.methods]
      refine .next _ fun closed => .ite (.use .nil) ?_
      exact (ih.function _).bind fun _ _ hf => ih.methods.sub fun _ _ hfs => .use (.cons hf hfs)
    case function =>
      intro kind
      rw [Parse.function, Drawing.function]
      have hrest (name : Token) (params : List Token) :
          Draws [] (Stmt.SimilarFunction (fun _ _ => True) Eq) Stmt.labelsFunction
            (do skip .rightParen .parametersEnd
                skip .leftBrace (.functionBody kind)
                return FunDecl.mk () name params (← Parse.block fuel))
            (do skip .rightParen .parametersEnd
                skip .leftBrace (.functionBody kind)
                let body ← Drawing.block fuel
                return FunDecl.mk (← Drawing.draw) name params body) := by
        refine .next _ fun _ => .next _ fun _ => ih.block.bind fun body body' hbody => ?_
        refine .draw fun id => .pure (.mk trivial (.refl rfl) ?_ hbody) ?_
        · exact List.forall₂_same.2 fun p _ => .refl rfl
        · exact (List.perm_append_singleton id _).symm.subperm
      refine .next _ fun name => .next _ fun _ => .next _ fun closed => .ite ?_ ?_
      · have hnone : Draws [] Eq (fun _ => []) (pure ([] : List Token)) (pure []) :=
          .use rfl
        exact hnone.bind fun params _ hparams => hparams ▸ hrest name params
      · exact .next _ fun params => hrest name params
    case block =>
      rw [Parse.block, Drawing.block]
      exact (ih.declarations true).bind fun _ _ hbody => .next _ fun _ => .use hbody
    case statement => exact statement_draws ih

end Parse

/-- A parser that draws its numbers finds the same statements and the same errors.  The labels of the
statements are among the numbers that it has drawn, and no number labels two nodes. -/
theorem parseDrawing_spec (n : NodeId) (tokens : List Token) :
    Parse.SameStmts (parse tokens).statements (parseDrawing n tokens).statements ∧
      (parseDrawing n tokens).errors = (parse tokens).errors ∧
      ∃ drawn, Consecutive drawn n (parseDrawing n tokens).nextId ∧
        (Stmt.labelsEach (parseDrawing n tokens).statements).Subperm drawn := by
  unfold parse parseDrawing
  dsimp only
  generalize tokens.takeWhile (!·.isEnd) = body
  obtain ⟨drawn, hdrawn, hreply⟩ := (Parse.statements_draw (Parse.fuelFor body)).declarations false n body
  generalize Parse.declarations (Parse.fuelFor body) false body = r,
    Parse.Drawing.declarations (Parse.fuelFor body) false n body = reply at hdrawn hreply
  obtain ⟨r', n'⟩ := reply
  cases hreply with
  | done hsame hlabels => exact ⟨hsame, rfl, drawn, hdrawn, hlabels⟩
  | failed => exact ⟨.nil, rfl, drawn, hdrawn, List.nil_subperm⟩
  | starved => exact ⟨.nil, rfl, drawn, hdrawn, List.nil_subperm⟩

/-- The target of the assignment and the declaration that ends in a mistake have drawn numbers as well. -/
example : Stmt.labelsEach (parseDrawing 0 (tokensOf (scan "a = b; c d; e;"))).statements = [2, 1, 4] := by
  decide +kernel

end LoxLang
