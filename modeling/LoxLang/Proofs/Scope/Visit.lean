import LoxLang.Proofs.Scope.Scopes
import Mathlib.Data.List.Basic

/-!
# Visits of the scope check

A `Visit` is a part of a tree together with the surroundings and the scopes with which the scope check
comes to it.  `Visit.parts` has the visits directly below a visit, in the order of the check and with
the scopes that the check has by then; what the check finds in a part it finds in the whole
(`errors_subset`, `uses_subset`).
-/

namespace LoxLang

namespace Scoping

/-- A part of a tree. -/
inductive Code where
  | expr (e : Expr NodeId)
  | exprs (es : List (Expr NodeId))
  | stmt (s : Stmt NodeId)
  | stmts (ss : List (Stmt NodeId))
  | function (kind : Body) (decl : Function NodeId)
  | methods (ms : List (Function NodeId))

/-- The walk over a part of a tree. -/
def Code.pass (ctx : Context) : Code → Pass
  | expr e => Scoping.expr ctx.inClass e
  | exprs es => Scoping.exprs ctx.inClass es
  | stmt s => Scoping.stmt ctx s
  | stmts ss => Scoping.stmts ctx ss
  | function kind decl => Scoping.function ctx kind decl
  | methods ms => Scoping.methodsIn ctx ms

/-- A part of a tree as the scope check comes to it. -/
structure Visit where
  code : Code
  ctx : Context
  scopes : Scopes

/-- The label of the part itself, not of what lies below it. -/
def Code.own : Code → List NodeId
  | expr (.var id _) | expr (.assign id _ _) | expr (.thisRef id _) => [id]
  | function _ decl => [decl.label]
  | _ => []

/-- The kind of body that a method has. -/
def methodKind (m : Function NodeId) : Body := if m.isInitializer then .initializer else .function

/-- The visits of parts one after another. -/
def visits (ctx : Context) : Scopes → List Code → List Visit
  | _, [] => []
  | scopes, c :: cs => ⟨c, ctx, scopes⟩ :: visits ctx (c.pass ctx scopes).1 cs

namespace Visit

/-- What the check finds in a visit. -/
def report (v : Visit) : Report := (v.code.pass v.ctx v.scopes).2

/-- The scopes after a visit. -/
def after (v : Visit) : Scopes := (v.code.pass v.ctx v.scopes).1

/-- The visits directly below a visit. -/
def parts : Visit → List Visit
  | ⟨.expr e, ctx, scopes⟩ => visits ctx scopes <| match e with
    | .group inner => [.expr inner]
    | .unary _ operand => [.expr operand]
    | .binary left _ right => [.expr left, .expr right]
    | .logical left _ right => [.expr left, .expr right]
    | .assign _ _ value => [.expr value]
    | .call callee _ args => [.expr callee, .exprs args]
    | .get object _ => [.expr object]
    | .set object _ value => [.expr value, .expr object]
    | .literal _ | .var _ _ | .thisRef _ _ => []
  | ⟨.exprs [], _, _⟩ => []
  | ⟨.exprs (e :: es), ctx, scopes⟩ => visits ctx scopes [.expr e, .exprs es]
  | ⟨.stmt (.expr e), ctx, scopes⟩ => visits ctx scopes [.expr e]
  | ⟨.stmt (.print e), ctx, scopes⟩ => visits ctx scopes [.expr e]
  | ⟨.stmt (.var _ none), _, _⟩ => []
  | ⟨.stmt (.var name (some e)), ctx, scopes⟩ => visits ctx (Pass.declare name scopes).1 [.expr e]
  | ⟨.stmt (.block body), ctx, scopes⟩ => visits ctx (∅ :: scopes) [.stmts body]
  | ⟨.stmt (.ifThen condition s), ctx, scopes⟩ => visits ctx scopes [.expr condition, .stmt s]
  | ⟨.stmt (.ifElse condition s s'), ctx, scopes⟩ =>
    visits ctx scopes [.expr condition, .stmt s, .stmt s']
  | ⟨.stmt (.whileLoop condition body), ctx, scopes⟩ =>
    visits ctx scopes [.expr condition, .stmt body]
  | ⟨.stmt (.function decl), ctx, scopes⟩ =>
    visits ctx (Pass.introduce decl.name scopes).1 [.function .function decl]
  | ⟨.stmt (.ret _ none), _, _⟩ => []
  | ⟨.stmt (.ret _ (some e)), ctx, scopes⟩ => visits ctx scopes [.expr e]
  | ⟨.stmt (.classDecl name ms), ctx, scopes⟩ =>
    visits ⟨ctx.body, true⟩ (thisScope :: (Pass.introduce name scopes).1) [.methods ms]
  | ⟨.stmts [], _, _⟩ => []
  | ⟨.stmts (s :: ss), ctx, scopes⟩ => visits ctx scopes [.stmt s, .stmts ss]
  | ⟨.function kind decl, ctx, scopes⟩ =>
    visits { ctx with body := kind } (Pass.each Pass.introduce decl.params (∅ :: scopes)).1
      [.stmts decl.body]
  | ⟨.methods [], _, _⟩ => []
  | ⟨.methods (m :: ms), ctx, scopes⟩ => visits ctx scopes [.function (methodKind m) m, .methods ms]

/-- The visit of a whole program. -/
def program (statements : List (Stmt NodeId)) : Visit := ⟨.stmts statements, .program, []⟩

/-- The check comes from a visit to another one below it. -/
inductive Reaches : Visit → Visit → Prop where
  | refl (v : Visit) : Reaches v v
  | part {v w u : Visit} : w ∈ v.parts → Reaches w u → Reaches v u

theorem Reaches.trans {v w u : Visit} (h : Reaches v w) (h' : Reaches w u) : Reaches v u := by
  induction h with
  | refl => exact h'
  | part hmem _ ih => exact .part hmem (ih h')

theorem Reaches.of_mem {v w : Visit} (h : w ∈ v.parts) : Reaches v w := .part h (.refl w)

/-! ### What is found in the parts -/

/-- The reports of a list of visits. -/
def found (vs : List Visit) : Report := ⟨vs.flatMap (·.report.errors), vs.flatMap (·.report.uses)⟩

/-- A visit finds what its parts find, after some errors of its own and before some errors and uses of
its own. -/
theorem report_parts (v : Visit) : ∃ before after : Report,
    (before.uses = [] ∧ (after.uses.map (·.id)).Sublist v.code.own) ∧
    v.report.errors = before.errors ++ ((found v.parts).errors ++ after.errors) ∧
    v.report.uses = (found v.parts).uses ++ after.uses := by
  -- what a visit finds by itself stands before its parts, or after them if it is a use
  obtain ⟨code, ctx, scopes⟩ := v
  cases code with
  | expr e =>
    cases e with
    | var id name =>
      refine ⟨⟨[], []⟩, report ⟨.expr (.var id name), ctx, scopes⟩, ⟨rfl, ?_⟩, rfl, rfl⟩
      simp [report, Code.pass, Scoping.expr, Pass.append_apply, refuseIncomplete, trace, Code.own]
    | thisRef id keyword =>
      refine ⟨⟨[], []⟩, report ⟨.expr (.thisRef id keyword), ctx, scopes⟩, ⟨rfl, ?_⟩, rfl, rfl⟩
      simp only [report, Code.pass, Scoping.expr, Code.own]
      split_ifs
      · exact List.Sublist.refl _
      · exact List.nil_sublist _
    | assign id name value =>
      refine ⟨⟨[], []⟩, (trace id name (Scoping.expr ctx.inClass value scopes).1).2,
        ⟨rfl, List.Sublist.refl _⟩, ?_⟩
      simp [report, found, parts, visits, Code.pass, Scoping.expr, Pass.append_apply]
    | _ =>
      refine ⟨⟨[], []⟩, ⟨[], []⟩, ⟨rfl, List.nil_sublist _⟩, ?_⟩
      simp [report, found, parts, visits, Code.pass, Scoping.expr, Pass.append_apply, Pass.skip]
  | exprs es =>
    refine ⟨⟨[], []⟩, ⟨[], []⟩, ⟨rfl, List.nil_sublist _⟩, ?_⟩
    cases es <;>
      simp [report, found, parts, visits, Code.pass, Scoping.exprs, Pass.append_apply, Pass.skip]
  | stmt s =>
    cases s with
    | var name value? =>
      refine ⟨(Pass.declare name scopes).2, ⟨[], []⟩,
        ⟨Pass.uses_declare name scopes, List.nil_sublist _⟩, ?_⟩
      cases value? <;>
        simp [report, found, parts, visits, Code.pass, Scoping.stmt, Scoping.expr?,
          Pass.append_apply]
    | function decl =>
      refine ⟨(Pass.introduce decl.name scopes).2, ⟨[], []⟩,
        ⟨Pass.uses_introduce _ scopes, List.nil_sublist _⟩, ?_⟩
      simp [report, found, parts, visits, Code.pass, Scoping.stmt, Pass.append_apply]
    | ret keyword value? =>
      refine ⟨((Pass.faultIf (ctx.body == .topLevel) keyword .returnOutsideFunction ++
        Pass.faultIf (value?.isSome && ctx.body == .initializer) keyword .returnFromInitializer :
          Pass) scopes).2, ⟨[], []⟩,
        ⟨by simp [Pass.append_apply], List.nil_sublist _⟩, ?_⟩
      cases value? <;>
        simp [report, found, parts, visits, Code.pass, Scoping.stmt, Scoping.expr?,
          Pass.append_apply, Pass.skip]
    | classDecl name ms =>
      refine ⟨(Pass.introduce name scopes).2, ⟨[], []⟩,
        ⟨Pass.uses_introduce _ scopes, List.nil_sublist _⟩, ?_⟩
      simp [report, found, parts, visits, Code.pass, Scoping.stmt, Pass.append_apply, Pass.within]
    | _ =>
      refine ⟨⟨[], []⟩, ⟨[], []⟩, ⟨rfl, List.nil_sublist _⟩, ?_⟩
      simp [report, found, parts, visits, Code.pass, Scoping.stmt, Pass.append_apply, Pass.within]
  | stmts ss =>
    refine ⟨⟨[], []⟩, ⟨[], []⟩, ⟨rfl, List.nil_sublist _⟩, ?_⟩
    cases ss <;>
      simp [report, found, parts, visits, Code.pass, Scoping.stmts, Pass.append_apply, Pass.skip]
  | function kind decl =>
    obtain ⟨label, name, params, body⟩ := decl
    refine ⟨(Pass.each Pass.introduce params (∅ :: scopes)).2, ⟨[], []⟩,
      ⟨Pass.uses_introduces _ _, List.nil_sublist _⟩, ?_⟩
    simp [report, found, parts, visits, Code.pass, Scoping.function, Pass.append_apply,
      Pass.within]
  | methods ms =>
    refine ⟨⟨[], []⟩, ⟨[], []⟩, ⟨rfl, List.nil_sublist _⟩, ?_⟩
    cases ms <;>
      simp [report, found, parts, visits, Code.pass, Scoping.methodsIn, methodKind,
        Pass.append_apply, Pass.skip]

theorem errors_subset {v w : Visit} (h : w ∈ v.parts) : w.report.errors ⊆ v.report.errors := by
  obtain ⟨before, after, -, herrors, -⟩ := report_parts v
  intro e he
  rw [herrors]
  exact List.mem_append_right _ (List.mem_append_left _ (List.mem_flatMap_of_mem h he))

theorem errors_of_mem {v w : Visit} (h : v.report.errors = []) (hw : w ∈ v.parts) :
    w.report.errors = [] := List.subset_nil.1 (h ▸ errors_subset hw)

theorem uses_subset {v w : Visit} (h : w ∈ v.parts) : w.report.uses ⊆ v.report.uses := by
  obtain ⟨before, after, -, -, huses⟩ := report_parts v
  intro u hu
  rw [huses]
  exact List.mem_append_left _ (List.mem_flatMap_of_mem h hu)

/-- What holds of the methods of a class holds of each method, if it goes from visits to the visits
below them. -/
theorem method_of_methods {P : Visit → Prop} (hpart : ∀ {v w}, P v → w ∈ v.parts → P w)
    {ms : List (Function NodeId)} {ctx : Context} {scopes : Scopes} (h : P ⟨.methods ms, ctx, scopes⟩)
    {d : Function NodeId} (hd : d ∈ ms) : P ⟨.function (methodKind d) d, ctx, scopes⟩ := by
  induction ms with
  | nil => cases hd
  | cons m ms ih =>
    rcases List.mem_cons.1 hd with rfl | hd
    · exact hpart h List.mem_cons_self
    · refine ih (hpart h (List.mem_cons_of_mem _ ?_)) hd
      simp [visits, Code.pass]

end Visit

/-! ### Proper parts -/

/-- A part of a tree is proper. -/
def Code.Proper : Code → Prop
  | expr e => e.Proper
  | exprs es => Expr.ProperEach es
  | stmt s => s.Proper
  | stmts ss => Stmt.ProperEach ss
  | function _ decl => Stmt.ProperFunction decl
  | methods ms => Stmt.ProperFunctions ms

theorem Visit.proper_of_mem {v w : Visit} (hv : v.code.Proper) (h : w ∈ v.parts) :
    w.code.Proper := by
  obtain ⟨code, ctx, scopes⟩ := v
  cases code with
  | expr e =>
    cases e <;> simp only [parts, visits, List.mem_cons, List.not_mem_nil, or_false] at h
    case binary | logical | call | set =>
      rcases h with rfl | rfl
      all_goals first | exact hv.1 | exact hv.2
    case assign => obtain rfl := h; exact hv.2
    all_goals obtain rfl := h; exact hv
  | exprs es =>
    cases es <;> simp only [parts, visits, List.mem_cons, List.not_mem_nil, or_false] at h
    case cons => rcases h with rfl | rfl; exacts [hv.1, hv.2]
  | stmt s =>
    cases s with
    | expr e | print e => obtain rfl := List.mem_singleton.1 h; exact hv
    | var name value? =>
      cases value? with
      | none => cases h
      | some e => obtain rfl := List.mem_singleton.1 h; exact hv.2
    | block body => obtain rfl := List.mem_singleton.1 h; exact hv
    | ifThen condition s =>
      simp only [parts, visits, List.mem_cons, List.not_mem_nil, or_false] at h
      rcases h with rfl | rfl
      exacts [hv.1, hv.2.2]
    | ifElse condition s s' =>
      simp only [parts, visits, List.mem_cons, List.not_mem_nil, or_false] at h
      rcases h with rfl | rfl | rfl
      exacts [hv.1, hv.2.2.1, hv.2.2.2.2]
    | whileLoop condition body =>
      simp only [parts, visits, List.mem_cons, List.not_mem_nil, or_false] at h
      rcases h with rfl | rfl
      exacts [hv.1, hv.2.2]
    | function decl => obtain rfl := List.mem_singleton.1 h; exact hv
    | ret keyword value? =>
      cases value? with
      | none => cases h
      | some e => obtain rfl := List.mem_singleton.1 h; exact hv
    | classDecl name ms => obtain rfl := List.mem_singleton.1 h; exact hv.2
  | stmts ss =>
    cases ss <;> simp only [parts, visits, List.mem_cons, List.not_mem_nil, or_false] at h
    case cons => rcases h with rfl | rfl; exacts [hv.1, hv.2]
  | function kind decl =>
    obtain ⟨label, name, params, body⟩ := decl
    obtain rfl := List.mem_singleton.1 h
    exact hv.2.2
  | methods ms =>
    cases ms <;> simp only [parts, visits, List.mem_cons, List.not_mem_nil, or_false] at h
    case cons => rcases h with rfl | rfl; exacts [hv.1, hv.2]

/-! ### Tidy scopes -/

/-- The part is an expression or a list of them. -/
def Code.isExpr : Code → Bool
  | expr _ | exprs _ => true
  | _ => false

/-- Every declaration is complete, but for one in the innermost scope of which the initializer is
visited, and which is not of `this`. -/
def Visit.Tidy (v : Visit) : Prop :=
  AllComplete v.scopes ∨ v.code.isExpr = true ∧ ∃ scope outer, v.scopes = scope :: outer ∧
    AllComplete outer ∧ scope.get? thisName ≠ some false

namespace Visit

theorem Tidy.allComplete {v : Visit} (h : v.Tidy) (hcode : v.code.isExpr = false) :
    AllComplete v.scopes := h.resolve_right fun h' => by simp [hcode] at h'

/-- What is visited next with the same scopes finds them as tidy. -/
theorem Tidy.same {v w : Visit} (h : v.Tidy) (hscopes : w.scopes = v.scopes)
    (hcode : v.code.isExpr = true → w.code.isExpr = true) : w.Tidy := by
  rcases h with h | ⟨hexpr, h⟩
  · exact .inl (hscopes ▸ h)
  · exact .inr ⟨hcode hexpr, hscopes ▸ h⟩

/-- Where a name may be read, every declaration of it is complete. -/
theorem Tidy.complete {v : Visit} (h : v.Tidy) {name : String}
    (hname : isIncomplete v.scopes name = false) :
    ∀ scope ∈ v.scopes, scope.get? name ≠ some false := by
  rcases h with hall | ⟨-, scope, outer, hscopes, hall, -⟩
  · exact fun scope hscope => hall scope hscope name
  · rw [hscopes] at hname ⊢
    rw [List.forall_mem_cons]
    exact ⟨fun hscope => by simp [isIncomplete, hscope] at hname, fun scope hs => hall scope hs name⟩

theorem Tidy.this_complete {v : Visit} (h : v.Tidy) : isIncomplete v.scopes thisName = false := by
  obtain ⟨code, ctx, scopes⟩ := v
  rcases h with hall | ⟨-, scope, outer, rfl, -, hthis⟩
  · cases scopes with
    | nil => rfl
    | cons scope outer => simpa [isIncomplete] using (allComplete_cons.1 hall).1 thisName
  · simpa [isIncomplete] using hthis

/-- The initializer of a variable. -/
theorem tidy_initializer {scopes : Scopes} (h : AllComplete scopes) {name : Token}
    (hname : name.lexeme ≠ thisName) (ctx : Context) (e : Expr NodeId) :
    Tidy ⟨.expr e, ctx, (Pass.declare name scopes).1⟩ := by
  cases scopes with
  | nil => exact .inl h
  | cons scope outer =>
    obtain ⟨hscope, houter⟩ := allComplete_cons.1 h
    obtain ⟨scope', hscope', hother, -⟩ := Pass.declare_cons name scope outer
    refine .inr ⟨rfl, scope', outer, hscope', houter, ?_⟩
    rw [hother _ hname.symm]
    exact hscope thisName

/-- The scopes of a proper program are tidy at every visit if they are at the first. -/
theorem tidy_of_mem {v w : Visit} (hproper : v.code.Proper) (hv : v.Tidy) (h : w ∈ v.parts) :
    w.Tidy := by
  obtain ⟨code, ctx, scopes⟩ := v
  cases code with
  | expr e =>
    cases e <;> simp only [parts, visits, List.mem_cons, List.not_mem_nil, or_false, Code.pass,
      scopes_expr] at h
    case binary | logical | call | set => rcases h with rfl | rfl <;> exact hv.same rfl fun _ => rfl
    all_goals obtain rfl := h; exact hv.same rfl fun _ => rfl
  | exprs es =>
    cases es <;> simp only [parts, visits, List.mem_cons, List.not_mem_nil, or_false, Code.pass,
      scopes_expr] at h
    case cons => rcases h with rfl | rfl <;> exact hv.same rfl fun _ => rfl
  | stmt s =>
    have hall := hv.allComplete rfl
    cases s with
    | expr e | print e => obtain rfl := List.mem_singleton.1 h; exact .inl hall
    | var name value? =>
      cases value? with
      | none => cases h
      -- the one declaration that is not complete
      | some e =>
        obtain rfl := List.mem_singleton.1 h
        exact tidy_initializer hall hproper.1 ctx e
    | block body => obtain rfl := List.mem_singleton.1 h; exact .inl hall.push
    | ifThen condition s | whileLoop condition s =>
      simp only [parts, visits, List.mem_cons, List.not_mem_nil, or_false, Code.pass,
        scopes_expr] at h
      rcases h with rfl | rfl <;> exact .inl hall
    | ifElse condition s s' =>
      simp only [parts, visits, List.mem_cons, List.not_mem_nil, or_false, Code.pass,
        scopes_expr] at h
      rcases h with rfl | rfl | rfl
      · exact .inl hall
      · exact .inl hall
      · rw [scopes_stmt hproper.2.2.1]
        exact .inl (hall.declaring _)
    | function decl => obtain rfl := List.mem_singleton.1 h; exact .inl (hall.introduce _)
    | ret keyword value? =>
      cases value? with
      | none => cases h
      | some e => obtain rfl := List.mem_singleton.1 h; exact .inl hall
    | classDecl name ms =>
      obtain rfl := List.mem_singleton.1 h
      exact .inl (hall.introduce _).pushThis
  | stmts ss =>
    have hall := hv.allComplete rfl
    cases ss with
    | nil => cases h
    | cons s ss =>
      simp only [parts, visits, List.mem_cons, List.not_mem_nil, or_false, Code.pass] at h
      rcases h with rfl | rfl
      · exact .inl hall
      · rw [scopes_stmt hproper.1]
        exact .inl (hall.declaring _)
  | function kind decl =>
    obtain rfl := List.mem_singleton.1 h
    exact .inl ((hv.allComplete rfl).push.introduces _)
  | methods ms =>
    have hall := hv.allComplete rfl
    cases ms <;> simp only [parts, visits, List.mem_cons, List.not_mem_nil, or_false, Code.pass,
      scopes_function] at h
    case cons => rcases h with rfl | rfl <;> exact .inl hall

end Visit

end Scoping

end LoxLang
