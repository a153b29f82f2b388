import LoxLang.Proofs.Tree.Proper
import LoxLang.Scoping
import Mathlib.Tactic.SplitIfs

/-!
# What the scope check does to the scopes

A walk over an expression leaves the scopes as they are (`scopes_expr`), and a walk over a statement
can only add names to the innermost one (`local_stmt`): those that it declares where it stands
(`scopes_stmt_declares`).  A statement that is not a declaration, and has none as a branch or as the
body of a loop, adds none (`scopes_stmt`).
-/

namespace LoxLang

/-- The names that the statement declares in the scope in which it stands.  A branch or the body of a
loop is no scope of its own. -/
def Stmt.declares {α : Type} : Stmt α → List Token
  | .var name _ => [name]
  | .function decl => [decl.name]
  | .classDecl name _ => [name]
  | .ifThen _ s => s.declares
  | .ifElse _ s s' => s.declares ++ s'.declares
  | .whileLoop _ body => body.declares
  | .expr _ | .print _ | .block _ | .ret _ _ => []

/-- A proper statement declares one name, or none. -/
theorem Stmt.Proper.declares_eq {α : Type} {s : Stmt α} (hs : s.Proper) :
    s.declares = s.declared?.toList := by
  have branch (s : Stmt α) (hs : s.declared? = none) (hnames : s.declares = s.declared?.toList) :
      s.declares = [] := by rw [hnames, hs, Option.toList_none]
  cases s with
  | ifThen condition s => exact branch s hs.2.1 hs.2.2.declares_eq
  | ifElse condition s s' =>
    obtain ⟨-, hs, hproper, hs', hproper'⟩ := hs
    rw [Stmt.declares, branch s hs hproper.declares_eq, branch s' hs' hproper'.declares_eq]
    rfl
  | whileLoop condition body => exact branch body hs.2.1 hs.2.2.declares_eq
  | _ => rfl
termination_by structural s

namespace Scoping

/-! ### Declarations use no names -/

namespace Pass

@[simp] theorem uses_declare (name : Token) (scopes : Scopes) :
    (declare name scopes).2.uses = [] := by
  cases scopes with
  | nil => rfl
  | cons scope outer =>
    rw [declare]
    split_ifs
    · rfl
    · rfl

@[simp] theorem uses_define (name : Token) (scopes : Scopes) :
    (define name scopes).2.uses = [] := by cases scopes <;> rfl

@[simp] theorem errors_define (name : Token) (scopes : Scopes) :
    (define name scopes).2.errors = [] := by cases scopes <;> rfl

@[simp] theorem uses_introduce (name : Token) (scopes : Scopes) :
    (introduce name scopes).2.uses = [] := by simp [introduce, append_apply]

@[simp] theorem uses_introduces (names : List Token) (scopes : Scopes) :
    (each introduce names scopes).2.uses = [] := by
  induction names generalizing scopes with
  | nil => rfl
  | cons name names ih => simp [each, append_apply, ih]

@[simp] theorem uses_faultIf (c : Bool) (t : Token) (f : ScopeFault) (scopes : Scopes) :
    (faultIf c t f scopes).2.uses = [] := by cases c <;> rfl

@[simp] theorem scopes_faultIf (c : Bool) (t : Token) (f : ScopeFault) (scopes : Scopes) :
    (faultIf c t f scopes).1 = scopes := by cases c <;> rfl

end Pass

/-! ### Expressions -/

mutual

/-- An expression declares nothing. -/
@[simp] theorem scopes_expr (inClass : Bool) (e : Expr NodeId) (scopes : Scopes) :
    (expr inClass e scopes).1 = scopes := by
  cases e with
  | literal value => rfl
  | group inner => exact scopes_expr inClass inner scopes
  | unary op operand => exact scopes_expr inClass operand scopes
  | binary left op right =>
    rw [expr, Pass.append_apply, scopes_expr inClass left, scopes_expr inClass right]
  | logical left op right =>
    rw [expr, Pass.append_apply, scopes_expr inClass left, scopes_expr inClass right]
  | var id name =>
    rw [expr, Pass.append_apply]
    exact Pass.scopes_faultIf _ _ _ _
  | assign id name value =>
    rw [expr, Pass.append_apply]
    exact scopes_expr inClass value scopes
  | call callee paren args =>
    rw [expr, Pass.append_apply, scopes_expr inClass callee, scopes_exprs inClass args]
  | get object name => exact scopes_expr inClass object scopes
  | set object name value =>
    rw [expr, Pass.append_apply, scopes_expr inClass value, scopes_expr inClass object]
  | thisRef id keyword => cases inClass <;> rfl

@[simp] theorem scopes_exprs (inClass : Bool) (es : List (Expr NodeId)) (scopes : Scopes) :
    (exprs inClass es scopes).1 = scopes := by
  cases es with
  | nil => rfl
  | cons e es => rw [exprs, Pass.append_apply, scopes_expr inClass e, scopes_exprs inClass es]

end

@[simp] theorem scopes_expr? (inClass : Bool) (e? : Option (Expr NodeId)) (scopes : Scopes) :
    (expr? inClass e? scopes).1 = scopes := by
  cases e? with
  | none => rfl
  | some e => exact scopes_expr inClass e scopes

/-! ### Only the innermost scope changes -/

namespace Pass

/-- The walk changes no scope but the innermost one, and drops none. -/
def Local (p : Pass) : Prop := ∀ scope outer, ∃ scope', (p (scope :: outer)).1 = scope' :: outer

theorem Local.append {p q : Pass} (hp : Local p) (hq : Local q) : Local (p ++ q) := by
  intro scope outer
  obtain ⟨scope', hscope'⟩ := hp scope outer
  rw [append_apply, hscope']
  exact hq scope' outer

theorem local_of_scopes {p : Pass} (hp : ∀ scopes, (p scopes).1 = scopes) : Local p :=
  fun scope _ => ⟨scope, hp _⟩

theorem local_declare (name : Token) : Local (declare name) := by
  intro scope outer
  rw [declare]
  split_ifs
  · exact ⟨scope, rfl⟩
  · exact ⟨_, rfl⟩

theorem local_define (name : Token) : Local (define name) := fun _ _ => ⟨_, rfl⟩

theorem local_introduce (name : Token) : Local (introduce name) :=
  (local_declare name).append (local_define name)

theorem local_introduces (names : List Token) : Local (each introduce names) := by
  induction names with
  | nil => exact local_of_scopes fun _ => rfl
  | cons name names ih => exact (local_introduce name).append ih

/-- A walk inside a scope of its own leaves the scopes as they are. -/
theorem scopes_within {p : Pass} (hp : Local p) (names : Scope) (scopes : Scopes) :
    (within names p scopes).1 = scopes := by
  obtain ⟨names', hnames'⟩ := hp names scopes
  change (p (names :: scopes)).1.tail = scopes
  rw [hnames']
  rfl

end Pass

mutual

theorem local_stmt (ctx : Context) (s : Stmt NodeId) : (stmt ctx s).Local := by
  cases s with
  | expr e => exact Pass.local_of_scopes (scopes_expr ctx.inClass e)
  | print e => exact Pass.local_of_scopes (scopes_expr ctx.inClass e)
  | var name value? =>
    exact ((Pass.local_declare name).append (Pass.local_of_scopes (scopes_expr? _ value?))).append
      (Pass.local_define name)
  | block body => exact Pass.local_of_scopes (Pass.scopes_within (local_stmts ctx body) ∅)
  | ifThen condition s =>
    exact (Pass.local_of_scopes (scopes_expr _ condition)).append (local_stmt ctx s)
  | ifElse condition s s' =>
    exact ((Pass.local_of_scopes (scopes_expr _ condition)).append (local_stmt ctx s)).append
      (local_stmt ctx s')
  | whileLoop condition body =>
    exact (Pass.local_of_scopes (scopes_expr _ condition)).append (local_stmt ctx body)
  | function decl =>
    exact (Pass.local_introduce decl.name).append
      (Pass.local_of_scopes (scopes_function ctx .function decl))
  | ret keyword value? =>
    exact ((Pass.local_of_scopes (Pass.scopes_faultIf _ _ _)).append
      (Pass.local_of_scopes (Pass.scopes_faultIf _ _ _))).append
      (Pass.local_of_scopes (scopes_expr? _ value?))
  | classDecl name methods =>
    exact (Pass.local_introduce name).append (Pass.local_of_scopes
      (Pass.scopes_within (Pass.local_of_scopes (scopes_methods _ methods)) thisScope))

theorem local_stmts (ctx : Context) (ss : List (Stmt NodeId)) : (stmts ctx ss).Local := by
  cases ss with
  | nil => exact Pass.local_of_scopes fun _ => rfl
  | cons s ss => exact (local_stmt ctx s).append (local_stmts ctx ss)

@[simp] theorem scopes_function (ctx : Context) (kind : Body)
    (decl : FunDecl NodeId (Stmt NodeId)) (scopes : Scopes) :
    (function ctx kind decl scopes).1 = scopes := by
  obtain ⟨label, name, params, body⟩ := decl
  exact Pass.scopes_within ((Pass.local_introduces params).append (local_stmts _ body)) ∅ scopes

@[simp] theorem scopes_methods (ctx : Context) (ms : List (FunDecl NodeId (Stmt NodeId)))
    (scopes : Scopes) : (methodsIn ctx ms scopes).1 = scopes := by
  cases ms with
  | nil => rfl
  | cons m ms =>
    rw [methodsIn, Pass.append_apply, scopes_function ctx _ m, scopes_methods ctx ms]

end

theorem Pass.each_append {β : Type} (p : β → Pass) (as bs : List β) :
    Pass.each p (as ++ bs) = Pass.each p as ++ Pass.each p bs := by
  induction as with
  | nil => rw [List.nil_append, Pass.each, Pass.skip_append]
  | cons a as ih => rw [List.cons_append, Pass.each, Pass.each, ih, Pass.append_assoc]

/-- A statement adds the names that it declares where it stands, and no others. -/
theorem scopes_stmt_declares (ctx : Context) (s : Stmt NodeId) (scopes : Scopes) :
    (stmt ctx s scopes).1 = (Pass.each Pass.introduce s.declares scopes).1 := by
  cases s with
  | expr e | print e => exact scopes_expr ctx.inClass e scopes
  | var name value? =>
    rw [stmt, Pass.append_apply, Pass.append_apply, scopes_expr?]
    rfl
  | block body => exact Pass.scopes_within (local_stmts ctx body) ∅ scopes
  | ifThen condition s =>
    rw [stmt, Pass.append_apply, scopes_expr]
    exact scopes_stmt_declares ctx s scopes
  | ifElse condition s s' =>
    rw [stmt, Pass.append_apply, Pass.append_apply, scopes_expr, Stmt.declares, Pass.each_append,
      Pass.append_apply, scopes_stmt_declares ctx s]
    exact scopes_stmt_declares ctx s' _
  | whileLoop condition body =>
    rw [stmt, Pass.append_apply, scopes_expr]
    exact scopes_stmt_declares ctx body scopes
  | function decl =>
    rw [stmt, Pass.append_apply, scopes_function]
    rfl
  | ret keyword value? =>
    rw [stmt, Pass.append_apply, Pass.append_apply, scopes_expr?]
    simp [Stmt.declares, Pass.each, Pass.skip]
  | classDecl name methods =>
    rw [stmt, Pass.append_apply,
      Pass.scopes_within (Pass.local_of_scopes (scopes_methods _ methods))]
    rfl
termination_by structural s

/-- The scopes after the declaration of a name, if there is one. -/
def declaring : Option Token → Scopes → Scopes
  | none, scopes => scopes
  | some name, scopes => (Pass.introduce name scopes).1

/-- A proper statement adds the name it declares where it stands, and no other. -/
theorem scopes_stmt {s : Stmt NodeId} (hs : s.Proper) (ctx : Context) (scopes : Scopes) :
    (stmt ctx s scopes).1 = declaring s.declared? scopes := by
  rw [scopes_stmt_declares, hs.declares_eq]
  cases s.declared? with
  | none => rfl
  | some name => rw [Option.toList_some, Pass.each, Pass.each, Pass.append_skip, declaring]

/-! ### Names in the innermost scope -/

namespace Pass

/-- Declaring a name completes no declaration. -/
theorem declare_cons (name : Token) (scope : Scope) (outer : Scopes) :
    ∃ scope' : Scope, (declare name (scope :: outer)).1 = scope' :: outer ∧
      (∀ n, n ≠ name.lexeme → scope'.get? n = scope.get? n) ∧
      ∀ n, scope'.get? n = some true → scope.get? n = some true := by
  rw [declare]
  split_ifs with h
  · exact ⟨scope, rfl, fun _ _ => rfl, fun _ => id⟩
  · refine ⟨_, rfl, fun n hn => ?_, fun n hn => ?_⟩
    · rw [NameMap.get?_insert, if_neg hn]
    · rw [NameMap.get?_insert] at hn
      split_ifs at hn with hname
      · cases hn
      · exact hn

/-- A name that is introduced is complete. -/
theorem introduce_cons (name : Token) (scope : Scope) (outer : Scopes) :
    ∃ scope' : Scope, (introduce name (scope :: outer)).1 = scope' :: outer ∧
      ∀ n, scope'.get? n = if n = name.lexeme then some true else scope.get? n := by
  obtain ⟨scope', hscope', hother, -⟩ := declare_cons name scope outer
  refine ⟨scope'.insert name.lexeme true, by rw [introduce, append_apply, hscope']; rfl, fun n => ?_⟩
  rw [NameMap.get?_insert]
  split_ifs with hn
  · rfl
  · exact hother n hn

/-- All names that are introduced are complete. -/
theorem introduces_cons (names : List Token) (scope : Scope) (outer : Scopes) :
    ∃ scope' : Scope, (each introduce names (scope :: outer)).1 = scope' :: outer ∧
      ∀ n, scope'.get? n = if n ∈ names.map (·.lexeme) then some true else scope.get? n := by
  induction names generalizing scope with
  | nil => exact ⟨scope, rfl, fun n => by simp⟩
  | cons name names ih =>
    obtain ⟨scope₁, hscope₁, hget₁⟩ := introduce_cons name scope outer
    obtain ⟨scope₂, hscope₂, hget₂⟩ := ih scope₁
    refine ⟨scope₂, by rw [each, append_apply, hscope₁, hscope₂], fun n => ?_⟩
    by_cases hn : n ∈ names.map (·.lexeme)
    · simp [hget₂, hn]
    · by_cases hname : n = name.lexeme <;> simp [hget₂, hget₁, hn, hname]

end Pass

/-! ### The number of scopes -/

@[simp] theorem Pass.length_declare (name : Token) (scopes : Scopes) :
    (Pass.declare name scopes).1.length = scopes.length := by
  cases scopes with
  | nil => rfl
  | cons scope outer =>
    obtain ⟨scope', hscope', -⟩ := Pass.declare_cons name scope outer
    rw [hscope']
    rfl

@[simp] theorem Pass.length_introduce (name : Token) (scopes : Scopes) :
    (Pass.introduce name scopes).1.length = scopes.length := by
  cases scopes with
  | nil => rfl
  | cons scope outer =>
    obtain ⟨scope', hscope', -⟩ := Pass.introduce_cons name scope outer
    rw [hscope']
    rfl

@[simp] theorem Pass.length_introduces (names : List Token) (scopes : Scopes) :
    (Pass.each Pass.introduce names scopes).1.length = scopes.length := by
  induction names generalizing scopes with
  | nil => rfl
  | cons name names ih => rw [Pass.each, Pass.append_apply, ih, Pass.length_introduce]

@[simp] theorem length_stmt (ctx : Context) (s : Stmt NodeId) (scopes : Scopes) :
    (stmt ctx s scopes).1.length = scopes.length := by
  rw [scopes_stmt_declares, Pass.length_introduces]

theorem isEmpty_stmt (ctx : Context) (s : Stmt NodeId) (scopes : Scopes) :
    (stmt ctx s scopes).1.isEmpty = scopes.isEmpty := by
  rw [Bool.eq_iff_iff, List.isEmpty_iff_length_eq_zero, List.isEmpty_iff_length_eq_zero,
    length_stmt]

/-- No scope is open after a program. -/
theorem scopes_program (ctx : Context) (program : List (Stmt NodeId)) :
    (stmts ctx program []).1 = [] := by
  induction program with
  | nil => rfl
  | cons s ss ih =>
    rw [stmts, Pass.append_apply, List.length_eq_zero_iff.1 (length_stmt ctx s [])]
    exact ih

/-! ### The distance of a name -/

theorem distance?_cons (scope : Scope) (outer : Scopes) (name : String) :
    distance? (scope :: outer) name =
      if scope.contains name then some 0 else (distance? outer name).map (· + 1) :=
  List.findIdx?_cons

/-- A scope without the name lies in front. -/
theorem distance?_push {scope : Scope} {outer : Scopes} {name : String}
    (h : scope.get? name = none) :
    distance? (scope :: outer) name = (distance? outer name).map (· + 1) := by
  rw [distance?_cons, if_neg]
  simp [NameMap.contains, h]

/-- The distance depends on no more than on which scopes have the name. -/
theorem distance?_head {scope scope' : Scope} {outer : Scopes} {name : String}
    (h : scope'.get? name = scope.get? name) :
    distance? (scope' :: outer) name = distance? (scope :: outer) name := by
  rw [distance?_cons, distance?_cons, NameMap.contains, NameMap.contains, h]

theorem distance?_declare {name : Token} {n : String} (hname : n ≠ name.lexeme) (scopes : Scopes) :
    distance? (Pass.declare name scopes).1 n = distance? scopes n := by
  cases scopes with
  | nil => rfl
  | cons scope outer =>
    obtain ⟨scope', hscope', hother, -⟩ := Pass.declare_cons name scope outer
    rw [hscope']
    exact distance?_head (hother n hname)

theorem distance?_introduce {name : Token} {n : String} (hname : n ≠ name.lexeme) (scopes : Scopes) :
    distance? (Pass.introduce name scopes).1 n = distance? scopes n := by
  cases scopes with
  | nil => rfl
  | cons scope outer =>
    obtain ⟨scope', hscope', hget⟩ := Pass.introduce_cons name scope outer
    rw [hscope']
    exact distance?_head (by rw [hget, if_neg hname])

/-- The scope of a call has the parameters and no other name. -/
theorem distance?_parameters {params : List Token} {n : String}
    (hparams : ∀ p ∈ params, n ≠ p.lexeme) (scopes : Scopes) :
    distance? (Pass.each Pass.introduce params (∅ :: scopes)).1 n =
      (distance? scopes n).map (· + 1) := by
  obtain ⟨scope, hscope, hget⟩ := Pass.introduces_cons params ∅ scopes
  rw [hscope]
  refine distance?_push ?_
  rw [hget, if_neg]
  · rfl
  · rintro hmem
    obtain ⟨p, hp, rfl⟩ := List.mem_map.1 hmem
    exact hparams p hp rfl

theorem ne_this_of_declared {s : Stmt NodeId} (hs : s.Proper) {name : Token}
    (hname : s.declared? = some name) : thisName ≠ name.lexeme := by
  cases s with
  | var | classDecl => obtain rfl := Option.some.inj hname; exact hs.1.symm
  | function decl => obtain ⟨label, n, params, body⟩ := decl; cases hname; exact hs.1.symm
  | _ => cases hname

theorem distance?_stmt {s : Stmt NodeId} (hs : s.Proper) (ctx : Context) (scopes : Scopes) :
    distance? (stmt ctx s scopes).1 thisName = distance? scopes thisName := by
  rw [scopes_stmt hs]
  cases hname : s.declared? with
  | none => rfl
  | some name => exact distance?_introduce (ne_this_of_declared hs hname) scopes

/-! ### Complete scopes -/

/-- Every declaration in the scopes is complete. -/
def AllComplete (scopes : Scopes) : Prop := ∀ scope ∈ scopes, ∀ name, scope.get? name ≠ some false

theorem allComplete_cons {scope : Scope} {outer : Scopes} :
    AllComplete (scope :: outer) ↔ (∀ name, scope.get? name ≠ some false) ∧ AllComplete outer :=
  List.forall_mem_cons

theorem AllComplete.introduce {scopes : Scopes} (h : AllComplete scopes) (name : Token) :
    AllComplete (Pass.introduce name scopes).1 := by
  cases scopes with
  | nil => exact h
  | cons scope outer =>
    obtain ⟨hscope, houter⟩ := allComplete_cons.1 h
    obtain ⟨scope', hscope', hget⟩ := Pass.introduce_cons name scope outer
    rw [hscope', allComplete_cons]
    refine ⟨fun n => ?_, houter⟩
    rw [hget]
    split_ifs
    · simp
    · exact hscope n

theorem AllComplete.introduces {scopes : Scopes} (h : AllComplete scopes) (names : List Token) :
    AllComplete (Pass.each Pass.introduce names scopes).1 := by
  induction names generalizing scopes with
  | nil => exact h
  | cons name names ih => exact ih (h.introduce name)

theorem AllComplete.declaring {scopes : Scopes} (h : AllComplete scopes) (name? : Option Token) :
    AllComplete (declaring name? scopes) := by
  cases name? with
  | none => exact h
  | some name => exact h.introduce name

theorem AllComplete.push {scopes : Scopes} (h : AllComplete scopes) : AllComplete (∅ :: scopes) :=
  allComplete_cons.2 ⟨nofun, h⟩

theorem AllComplete.pushThis {scopes : Scopes} (h : AllComplete scopes) :
    AllComplete (thisScope :: scopes) := by
  refine allComplete_cons.2 ⟨fun name => ?_, h⟩
  rw [thisScope, NameMap.get?_insert]
  split_ifs
  · simp
  · exact nofun

end Scoping

end LoxLang
