import LoxLang.Proofs.Scope.Visit
import LoxLang.Proofs.Scope.Walker

/-!
# Well-scoped programs

The scope check finds no fault exactly in the programs that are `WellScoped`: a property of the
statements and expressions that occur in a program, each where it stands, that knows nothing of scopes
that grow and of declarations that are not complete yet (`check_errors_eq_nil_iff`).
-/

namespace LoxLang

open Scoping

variable {α : Type}

/-! ### What occurs in a program -/

mutual

/-- The nodes of the expression, itself among them. -/
def Expr.nodes : Expr α → List (Expr α)
  | .literal value => [.literal value]
  | .group inner => .group inner :: inner.nodes
  | .unary op operand => .unary op operand :: operand.nodes
  | .binary left op right => .binary left op right :: (left.nodes ++ right.nodes)
  | .logical left op right => .logical left op right :: (left.nodes ++ right.nodes)
  | .var label name => [.var label name]
  | .assign label name value => .assign label name value :: value.nodes
  | .call callee paren args => .call callee paren args :: (callee.nodes ++ Expr.nodesEach args)
  | .get object name => .get object name :: object.nodes
  | .set object name value => .set object name value :: (object.nodes ++ value.nodes)
  | .thisRef label keyword => [.thisRef label keyword]

/-- The nodes of all the expressions. -/
def Expr.nodesEach : List (Expr α) → List (Expr α)
  | [] => []
  | e :: es => e.nodes ++ Expr.nodesEach es

end

/-- The expressions of the statement, but not those of the statements in it. -/
def Stmt.exprs : Stmt α → List (Expr α)
  | .expr e | .print e | .ifThen e _ | .ifElse e _ _ | .whileLoop e _ => [e]
  | .var _ value? | .ret _ value? => value?.toList
  | .block _ | .function _ | .classDecl _ _ => []

/-- The names of the scope of a function: its parameters and what its body declares. -/
def FunDecl.declares (decl : Function α) : List Token :=
  decl.params ++ decl.body.flatMap Stmt.declares

/-- The local scopes that the statement opens, each with the names declared in it. -/
def Stmt.localScopes : Stmt α → List (List Token)
  | .block body => [body.flatMap Stmt.declares]
  | .function decl => [decl.declares]
  | .classDecl _ methods => methods.map FunDecl.declares
  | _ => []

/-- A statement where it stands: in which body, inside a class or not, in a local scope or not. -/
structure Occurrence where
  stmt : Stmt NodeId
  ctx : Context
  isLocal : Bool

namespace Occurrence

/-- The statements directly in a statement. -/
def parts : Occurrence → List Occurrence
  | ⟨.block body, ctx, _⟩ => body.map (⟨·, ctx, true⟩)
  | ⟨.ifThen _ s, ctx, isLocal⟩ => [⟨s, ctx, isLocal⟩]
  | ⟨.ifElse _ s s', ctx, isLocal⟩ => [⟨s, ctx, isLocal⟩, ⟨s', ctx, isLocal⟩]
  | ⟨.whileLoop _ body, ctx, isLocal⟩ => [⟨body, ctx, isLocal⟩]
  | ⟨.function decl, ctx, _⟩ => decl.body.map (⟨·, ⟨.function, ctx.inClass⟩, true⟩)
  | ⟨.classDecl _ methods, _, _⟩ =>
    methods.flatMap fun m => m.body.map (⟨·, ⟨methodKind m, true⟩, true⟩)
  | ⟨.expr _, _, _⟩ | ⟨.print _, _, _⟩ | ⟨.var _ _, _, _⟩ | ⟨.ret _ _, _, _⟩ => []

/-- The second statement is the first one, or stands in it. -/
inductive Contains : Occurrence → Occurrence → Prop where
  | refl (o : Occurrence) : Contains o o
  | part {o o' o'' : Occurrence} : o' ∈ o.parts → Contains o' o'' → Contains o o''

/-- Something holds of a statement and of all statements in it. -/
def Everywhere (P : Occurrence → Prop) (o : Occurrence) : Prop := ∀ o', Contains o o' → P o'

theorem everywhere_iff {P : Occurrence → Prop} {o : Occurrence} :
    Everywhere P o ↔ P o ∧ ∀ o' ∈ o.parts, Everywhere P o' := by
  constructor
  · exact fun h => ⟨h o (.refl o), fun o' ho' o'' h' => h o'' (.part ho' h')⟩
  · rintro ⟨ho, hparts⟩ o'' h
    cases h with
    | refl => exact ho
    | part ho' h' => exact hparts _ ho' _ h'

end Occurrence

/-- What the rules of scoping ask of a statement where it stands. -/
@[mk_iff]
structure Occurrence.Allowed (o : Occurrence) : Prop where
  /-- No `return` lies outside every function and method. -/
  returns_inside : ∀ keyword value?, o.stmt = .ret keyword value? → o.ctx.body ≠ .topLevel
  /-- No value is returned from an initializer. -/
  initializers_return_nothing : ∀ keyword value, o.stmt = .ret keyword (some value) →
    o.ctx.body ≠ .initializer
  /-- No `this` lies outside every class. -/
  this_inside : ∀ e ∈ o.stmt.exprs, ∀ label keyword, .thisRef label keyword ∈ e.nodes →
    o.ctx.inClass = true
  /-- No local scope declares a name twice. -/
  declared_once : ∀ names ∈ o.stmt.localScopes, (names.map (·.lexeme)).Nodup
  /-- No local variable is read in its own initializer. -/
  initializers_read_others : ∀ name value, o.stmt = .var name (some value) → o.isLocal = true →
    ∀ label name', .var label name' ∈ value.nodes → name'.lexeme ≠ name.lexeme

/-- The statement stands somewhere in the program. -/
def OccursIn (program : List (Stmt NodeId)) (o : Occurrence) : Prop :=
  ∃ s ∈ program, Occurrence.Contains ⟨s, .program, false⟩ o

/-- The program keeps to the rules of scoping everywhere. -/
def WellScoped (program : List (Stmt NodeId)) : Prop := ∀ o, OccursIn program o → o.Allowed

namespace Scoping

/-! ### Expressions -/

/-- The check finds no fault in the node itself. -/
def NodeAllowed (inClass : Bool) (scopes : Scopes) : Expr NodeId → Prop
  | .var _ name => isIncomplete scopes name.lexeme = false
  | .thisRef _ _ => inClass = true
  | _ => True

theorem errors_faultIf_eq_nil {c : Bool} {t : Token} {f : ScopeFault} {scopes : Scopes} :
    (Pass.faultIf c t f scopes).2.errors = [] ↔ c = false := by
  cases c <;> simp [Pass.faultIf, Pass.fault, Pass.skip]

mutual

theorem errors_expr (inClass : Bool) (e : Expr NodeId) (scopes : Scopes) :
    (expr inClass e scopes).2.errors = [] ↔ ∀ n ∈ e.nodes, NodeAllowed inClass scopes n := by
  cases e with
  | literal value => simp [expr, Pass.skip, Expr.nodes, NodeAllowed]
  | group inner => simpa [expr, Expr.nodes, NodeAllowed] using errors_expr inClass inner scopes
  | unary op operand =>
    simpa [expr, Expr.nodes, NodeAllowed] using errors_expr inClass operand scopes
  | binary left op right | logical left op right =>
    simp only [expr, Pass.append_apply, scopes_expr, List.append_eq_nil_iff,
      errors_expr inClass left, errors_expr inClass right, Expr.nodes, List.forall_mem_cons,
      List.forall_mem_append, NodeAllowed, true_and]
  | var id name =>
    simp only [expr, Pass.append_apply, refuseIncomplete, List.append_eq_nil_iff,
      errors_faultIf_eq_nil, trace, and_true, Expr.nodes, List.forall_mem_singleton, NodeAllowed]
  | assign id name value =>
    simp only [expr, Pass.append_apply, List.append_eq_nil_iff, errors_expr inClass value, trace,
      and_true, Expr.nodes, List.forall_mem_cons, NodeAllowed, true_and]
  | call callee paren args =>
    simp only [expr, Pass.append_apply, scopes_expr, List.append_eq_nil_iff,
      errors_expr inClass callee, errors_exprs inClass args, Expr.nodes, List.forall_mem_cons,
      List.forall_mem_append, NodeAllowed, true_and]
  | get object name => simpa [expr, Expr.nodes, NodeAllowed] using errors_expr inClass object scopes
  | set object name value =>
    simp only [expr, Pass.append_apply, scopes_expr, List.append_eq_nil_iff,
      errors_expr inClass object, errors_expr inClass value, Expr.nodes, List.forall_mem_cons,
      List.forall_mem_append, NodeAllowed, true_and]
    exact and_comm
  | thisRef id keyword =>
    cases inClass <;> simp [expr, trace, Pass.fault, Expr.nodes, NodeAllowed]

theorem errors_exprs (inClass : Bool) (es : List (Expr NodeId)) (scopes : Scopes) :
    (exprs inClass es scopes).2.errors = [] ↔
      ∀ n ∈ Expr.nodesEach es, NodeAllowed inClass scopes n := by
  cases es with
  | nil => simp [exprs, Pass.skip, Expr.nodesEach]
  | cons e es =>
    simp only [exprs, Pass.append_apply, scopes_expr, List.append_eq_nil_iff,
      errors_expr inClass e, errors_exprs inClass es, Expr.nodesEach, List.forall_mem_append]

end

theorem errors_expr? (inClass : Bool) (e? : Option (Expr NodeId)) (scopes : Scopes) :
    (expr? inClass e? scopes).2.errors = [] ↔
      ∀ e ∈ e?.toList, ∀ n ∈ e.nodes, NodeAllowed inClass scopes n := by
  cases e? with
  | none => simp [expr?, Pass.skip]
  | some e => simp [expr?, errors_expr]

/-! ### Names in a scope -/

/-- The names can be declared in the innermost scope. -/
def Declarable (scopes : Scopes) (names : List Token) : Prop :=
  (Pass.each Pass.introduce names scopes).2.errors = []

theorem declarable_append {scopes : Scopes} {names names' : List Token} :
    Declarable scopes (names ++ names') ↔
      Declarable scopes names ∧ Declarable (Pass.each Pass.introduce names scopes).1 names' := by
  rw [Declarable, Pass.each_append, Pass.append_apply, List.append_eq_nil_iff]
  exact Iff.rfl

theorem declarable_nil (scopes : Scopes) : Declarable scopes [] := rfl

theorem declarable_global (names : List Token) : Declarable [] names := by
  induction names with
  | nil => rfl
  | cons name names ih => exact ih

theorem declarable_cons {scope : Scope} {outer : Scopes} {name : Token} {names : List Token} :
    Declarable (scope :: outer) (name :: names) ↔ scope.contains name.lexeme = false ∧
      Declarable (Pass.introduce name (scope :: outer)).1 names := by
  rw [Declarable, Pass.each, Pass.append_apply, List.append_eq_nil_iff]
  refine and_congr_left fun _ => ?_
  rw [Pass.introduce, Pass.append_apply, Pass.errors_define, List.append_nil, Pass.declare]
  split_ifs with h <;> simp [Pass.fault, h]

theorem declarable_singleton {scopes : Scopes} {name : Token} :
    Declarable scopes [name] ↔ (Pass.introduce name scopes).2.errors = [] := by
  rw [Declarable, Pass.each, Pass.each, Pass.append_skip]

/-- Names can be declared in a scope that has none of them, if there are no two alike. -/
theorem declarable_iff {scope : Scope} {outer : Scopes} {names : List Token} :
    Declarable (scope :: outer) names ↔ (names.map (·.lexeme)).Nodup ∧
      ∀ name ∈ names, scope.contains name.lexeme = false := by
  induction names generalizing scope with
  | nil => simp [declarable_nil]
  | cons name names ih =>
    obtain ⟨scope', hscope', hget⟩ := Pass.introduce_cons name scope outer
    have hcontains : ∀ n, scope'.contains n = false ↔ n ≠ name.lexeme ∧ scope.contains n = false := by
      intro n
      rw [NameMap.contains, hget]
      split_ifs with h <;> simp [h, NameMap.contains]
    rw [declarable_cons, hscope', ih, List.map_cons, List.nodup_cons, List.forall_mem_cons]
    simp only [hcontains, forall_and, List.mem_map, not_exists, not_and]
    tauto

/-- The names of a new scope. -/
theorem declarable_push {outer : Scopes} {names : List Token} :
    Declarable (∅ :: outer) names ↔ (names.map (·.lexeme)).Nodup := by
  rw [declarable_iff]
  exact and_iff_left fun name _ => rfl

/-! ### Statements -/

theorem AllComplete.isIncomplete {scopes : Scopes} (h : AllComplete scopes) (name : String) :
    Scoping.isIncomplete scopes name = false := by
  cases scopes with
  | nil => rfl
  | cons scope outer => simpa [Scoping.isIncomplete] using (allComplete_cons.1 h).1 name

/-- Where every declaration is complete, only `this` can be a fault in an expression. -/
theorem errors_expr_complete {scopes : Scopes} (h : AllComplete scopes) {inClass : Bool}
    {e : Expr NodeId} : (expr inClass e scopes).2.errors = [] ↔
      ∀ label keyword, .thisRef label keyword ∈ e.nodes → inClass = true := by
  rw [errors_expr]
  constructor
  · exact fun hall label keyword hmem => hall _ hmem
  · intro hall n hn
    cases n with
    | var label name => exact h.isIncomplete _
    | thisRef label keyword => exact hall label keyword hn
    | _ => trivial

/-- In an initializer the variable that it belongs to is the one that is not complete. -/
theorem isIncomplete_declare {scopes : Scopes} (h : AllComplete scopes) {name : Token}
    (hname : Declarable scopes [name]) (n : String) :
    Scoping.isIncomplete (Pass.declare name scopes).1 n = false ↔
      ((!scopes.isEmpty) = true → n ≠ name.lexeme) := by
  cases scopes with
  | nil => simp [Pass.declare, Scoping.isIncomplete]
  | cons scope outer =>
    have hnew := (declarable_iff.1 hname).2 name List.mem_cons_self
    have hcomplete := (allComplete_cons.1 h).1 n
    rw [Pass.declare, hnew]
    simp only [Bool.false_eq_true, if_false, Scoping.isIncomplete, List.head?_cons,
      Option.bind_some, NameMap.get?_insert]
    split_ifs with hn
    · simp [hn]
    · simpa [hn] using hcomplete

theorem errors_var {ctx : Context} {name : Token} {value? : Option (Expr NodeId)} {scopes : Scopes}
    (h : AllComplete scopes) : (stmt ctx (.var name value?) scopes).2.errors = [] ↔
      Declarable scopes [name] ∧ Occurrence.Allowed ⟨.var name value?, ctx, !scopes.isEmpty⟩ := by
  have hdeclare : (Pass.declare name scopes).2.errors = [] ↔ Declarable scopes [name] := by
    rw [declarable_singleton, Pass.introduce, Pass.append_apply, Pass.errors_define, List.append_nil]
  simp only [stmt, Pass.append_apply, Pass.errors_define, List.append_nil, List.append_eq_nil_iff,
    hdeclare]
  refine and_congr_right fun hname => ?_
  rw [errors_expr?]
  cases value? with
  | none => simp [Occurrence.allowed_iff, Stmt.exprs, Stmt.localScopes]
  | some e =>
    have hlocal (n : String) := isIncomplete_declare h hname n
    constructor
    · intro hall
      replace hall := List.forall_mem_singleton.1 hall
      refine ⟨by simp, by simp, ?_, List.forall_mem_nil _, ?_⟩
      · exact List.forall_mem_singleton.2 fun label keyword hmem => hall _ hmem
      · rintro _ _ ⟨⟩ hinner label name' hmem
        exact (hlocal name'.lexeme).1 (hall _ hmem) hinner
    · rintro ⟨-, -, hthis, -, hown⟩
      refine List.forall_mem_singleton.2 fun n hn => ?_
      cases n with
      | var label name' => exact (hlocal _).2 fun hinner => hown name e rfl hinner label name' hn
      | thisRef label keyword => exact hthis e List.mem_cons_self label keyword hn
      | _ => trivial

theorem errors_ret {ctx : Context} {keyword : Token} {value? : Option (Expr NodeId)}
    {scopes : Scopes} (h : AllComplete scopes) (isLocal : Bool) :
    (stmt ctx (.ret keyword value?) scopes).2.errors = [] ↔
      Occurrence.Allowed ⟨.ret keyword value?, ctx, isLocal⟩ := by
  simp only [stmt, Pass.append_apply, Pass.scopes_faultIf, List.append_eq_nil_iff,
    errors_faultIf_eq_nil]
  cases value? with
  | none => simp [expr?, Pass.skip, Occurrence.allowed_iff, Stmt.exprs, Stmt.localScopes]
  | some e =>
    simp [expr?, errors_expr_complete h, Occurrence.allowed_iff, Stmt.exprs, Stmt.localScopes,
      and_assoc]

/-- The statements are allowed where they stand, and so is all that is in them. -/
def AllowedIn (ctx : Context) (isLocal : Bool) (ss : List (Stmt NodeId)) : Prop :=
  ∀ s ∈ ss, Occurrence.Everywhere Occurrence.Allowed ⟨s, ctx, isLocal⟩

mutual

theorem errors_stmt (ctx : Context) (s : Stmt NodeId) {scopes : Scopes} (h : AllComplete scopes) :
    (stmt ctx s scopes).2.errors = [] ↔ Declarable scopes s.declares ∧
      Occurrence.Everywhere Occurrence.Allowed ⟨s, ctx, !scopes.isEmpty⟩ := by
  rw [Occurrence.everywhere_iff]
  cases s with
  | expr e | print e =>
    rw [stmt, errors_expr_complete h]
    simp [Occurrence.allowed_iff, Stmt.exprs, Stmt.localScopes, Stmt.declares, declarable_nil,
      Occurrence.parts]
  | var name value? =>
    rw [errors_var h]
    simp [Stmt.declares, Occurrence.parts]
  | block body =>
    have hbody : (stmts ctx body (∅ :: scopes)).2.errors = [] ↔ _ := errors_stmts ctx body h.push
    rw [stmt, Pass.within, hbody, declarable_push]
    simp [Occurrence.allowed_iff, Stmt.exprs, Stmt.localScopes, Stmt.declares, declarable_nil,
      Occurrence.parts, AllowedIn]
  | ifThen condition s | whileLoop condition s =>
    rw [stmt, Pass.append_apply, scopes_expr, List.append_eq_nil_iff, errors_expr_complete h,
      errors_stmt ctx s h]
    simp [Occurrence.allowed_iff, Stmt.exprs, Stmt.localScopes, Stmt.declares, Occurrence.parts,
      and_left_comm]
  | ifElse condition s s' =>
    have hfirst : AllComplete (stmt ctx s scopes).1 := by
      rw [scopes_stmt_declares]
      exact h.introduces _
    have hsecond := errors_stmt ctx s' hfirst
    rw [isEmpty_stmt, scopes_stmt_declares] at hsecond
    simp only [stmt, Pass.append_apply, scopes_expr, List.append_eq_nil_iff, errors_expr_complete h,
      errors_stmt ctx s h, scopes_stmt_declares, hsecond, Stmt.declares, declarable_append]
    simp [Occurrence.allowed_iff, Stmt.exprs, Stmt.localScopes, Occurrence.parts, and_assoc,
      and_left_comm]
  | function decl =>
    have hdecl := errors_function ctx .function decl (h.introduce decl.name)
    rw [stmt, Pass.append_apply, List.append_eq_nil_iff, hdecl]
    simp [Occurrence.allowed_iff, Stmt.exprs, Stmt.localScopes, Stmt.declares, declarable_singleton,
      Occurrence.parts, AllowedIn]
  | ret keyword value? =>
    rw [errors_ret h (!scopes.isEmpty)]
    simp [Stmt.declares, declarable_nil, Occurrence.parts]
  | classDecl name methods =>
    have hmethods := errors_methods ⟨ctx.body, true⟩ methods (h.introduce name).pushThis
    rw [stmt, Pass.append_apply, List.append_eq_nil_iff, Pass.within, hmethods]
    simp [Occurrence.allowed_iff, Stmt.exprs, Stmt.localScopes, Stmt.declares, declarable_singleton,
      Occurrence.parts, AllowedIn, List.forall_mem_flatMap, List.forall_mem_map, forall_and,
      -List.mem_flatMap, -List.mem_map]

theorem errors_stmts (ctx : Context) (ss : List (Stmt NodeId)) {scopes : Scopes}
    (h : AllComplete scopes) : (stmts ctx ss scopes).2.errors = [] ↔
      Declarable scopes (ss.flatMap Stmt.declares) ∧ AllowedIn ctx (!scopes.isEmpty) ss := by
  cases ss with
  | nil => simp [stmts, Pass.skip, declarable_nil, AllowedIn]
  | cons s ss =>
    have hfirst : AllComplete (stmt ctx s scopes).1 := by
      rw [scopes_stmt_declares]
      exact h.introduces _
    have hmore := errors_stmts ctx ss hfirst
    rw [isEmpty_stmt, scopes_stmt_declares] at hmore
    simp only [stmts, Pass.append_apply, List.append_eq_nil_iff, errors_stmt ctx s h,
      scopes_stmt_declares, hmore, List.flatMap_cons, declarable_append, AllowedIn,
      List.forall_mem_cons]
    exact and_and_and_comm

theorem errors_function (ctx : Context) (kind : Body) (decl : Function NodeId) {scopes : Scopes}
    (h : AllComplete scopes) : (function ctx kind decl scopes).2.errors = [] ↔
      (decl.declares.map (·.lexeme)).Nodup ∧ AllowedIn ⟨kind, ctx.inClass⟩ true decl.body := by
  obtain ⟨label, name, params, body⟩ := decl
  have hparams : AllComplete (Pass.each Pass.introduce params (∅ :: scopes)).1 :=
    h.push.introduces _
  have hbody := errors_stmts ⟨kind, ctx.inClass⟩ body hparams
  have hopen : (Pass.each Pass.introduce params (∅ :: scopes)).1.isEmpty = false := by
    rw [Bool.eq_false_iff, Ne, List.isEmpty_iff_length_eq_zero, Pass.length_introduces]
    exact Nat.succ_ne_zero _
  have hnames : Declarable (∅ :: scopes) (params ++ body.flatMap Stmt.declares) ↔ _ :=
    declarable_push
  rw [declarable_append] at hnames
  rw [hopen] at hbody
  simp only [function, Pass.within, Pass.append_apply, List.append_eq_nil_iff, hbody,
    FunDecl.declares, ← hnames]
  exact and_assoc.symm

theorem errors_methods (ctx : Context) (ms : List (Function NodeId)) {scopes : Scopes}
    (h : AllComplete scopes) : (methodsIn ctx ms scopes).2.errors = [] ↔
      ∀ m ∈ ms, (m.declares.map (·.lexeme)).Nodup ∧
        AllowedIn ⟨methodKind m, ctx.inClass⟩ true m.body := by
  cases ms with
  | nil => simp [methodsIn, Pass.skip]
  | cons m ms =>
    simp only [methodsIn, Pass.append_apply, scopes_function, List.append_eq_nil_iff,
      List.forall_mem_cons, errors_methods ctx ms h]
    exact and_congr_left fun _ => errors_function ctx (methodKind m) m h

end

/-! ### Programs -/

theorem allowedIn_program {program : List (Stmt NodeId)} :
    AllowedIn .program false program ↔ WellScoped program :=
  ⟨fun h o ⟨s, hs, ho⟩ => h s hs o ho, fun h s hs o ho => h o ⟨s, hs, ho⟩⟩

/-- Outside all scopes no name can be declared twice. -/
theorem check_errors_eq_nil {program : List (Stmt NodeId)} :
    (check program).errors = [] ↔ WellScoped program := by
  have hnone : AllComplete [] := List.forall_mem_nil _
  have hprogram := errors_stmts .program program hnone
  rw [check, hprogram, and_iff_right (declarable_global _)]
  exact allowedIn_program

/-- A fresh walker finds what the check finds, and ends as it began. -/
theorem Walk.stmts_fresh (program : List (Stmt NodeId)) :
    Walk.stmts program .fresh = (.fresh, check program) := by
  have hscopes : (Scoping.stmts .program program []).1 = [] := scopes_program .program program
  rw [Walk.stmts_eq]
  exact Prod.ext (congrArg (Walker.mk · .program) hscopes) rfl

/-- The check accepts the programs that are well-scoped, and no others.  A walker that keeps its
surroundings in its state finds the same, and has its scopes and its surroundings back at the end. -/
theorem check_accepts_wellScoped (program : List (Stmt NodeId)) :
    ((check program).errors = [] ↔ WellScoped program) ∧
      Walk.stmts program .fresh = (.fresh, check program) :=
  ⟨check_errors_eq_nil, Walk.stmts_fresh program⟩

end Scoping

end LoxLang
