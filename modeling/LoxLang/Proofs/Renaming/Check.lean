import LoxLang.Proofs.Renaming.Scopes

/-!
# Checking a renamed tree

The scope check finds no error in a renamed tree if it finds none in the tree, and traces every use as
far as before (`Renames.check`).  Inside of the scope of the variable this is said of the walks over the
two trees at once (`Pass.Twin`), from part to part.
-/

namespace LoxLang

open Scoping

/-- What a report says about a use, but for its name. -/
def NameUse.place (u : NameUse) : NodeId × Option Nat := (u.id, u.distance?)

namespace Scoping

/-- The second report has the same uses, and no errors if the first has none. -/
structure Report.Twin (p p' : Report) : Prop where
  errors : p.errors = [] → p'.errors = []
  uses : p'.uses.map NameUse.place = p.uses.map NameUse.place

/-- The walks find the same, and leave corresponding scopes behind. -/
structure Pass.Twin (K : Scopes → Scopes → Prop) (scopes scopes' : Scopes) (p p' : Pass) :
    Prop where
  after : K (p scopes).1 (p' scopes').1
  report : (p scopes).2.Twin (p' scopes').2

theorem Report.Twin.refl (p : Report) : p.Twin p := ⟨id, rfl⟩

namespace Pass.Twin

variable {K : Scopes → Scopes → Prop} {scopes scopes' : Scopes} {p p' q q' : Pass}

theorem refl (scopes : Scopes) (p : Pass) : Twin Eq scopes scopes p p := ⟨rfl, .refl _⟩

theorem skip (h : K scopes scopes') : Twin K scopes scopes' .skip .skip := ⟨h, .refl _⟩

theorem append (hp : Twin K scopes scopes' p p')
    (hq : Twin K (p scopes).1 (p' scopes').1 q q') : Twin K scopes scopes' (p ++ q) (p' ++ q') where
  after := by
    rw [append_apply, append_apply]
    exact hq.after
  report := by
    rw [append_apply, append_apply]
    refine ⟨fun h => ?_, ?_⟩
    · obtain ⟨hfirst, hsecond⟩ := List.append_eq_nil_iff.1 h
      exact List.append_eq_nil_iff.2 ⟨hp.report.errors hfirst, hq.report.errors hsecond⟩
    · rw [List.map_append, List.map_append, hp.report.uses, hq.report.uses]

/-- Walks inside of new scopes, which are dropped again. -/
theorem within {K' : Scopes → Scopes → Prop} (h : K scopes scopes') (hp : p.Local) (hp' : p'.Local)
    {names names' : Scope} (hinner : Twin K' (names :: scopes) (names' :: scopes') p p') :
    Twin K scopes scopes' (.within names p) (.within names' p') where
  after := by rw [scopes_within hp, scopes_within hp']; exact h
  report := hinner.report

theorem faultIf (h : K scopes scopes') (c : Bool) (t : Token) (f : ScopeFault) :
    Twin K scopes scopes' (.faultIf c t f) (.faultIf c t f) := by
  cases c
  · exact skip h
  · exact ⟨h, .refl _⟩

end Pass.Twin

end Scoping

open Scoping

section

variable {r : Renaming} {scopes scopes' : Scopes}

namespace RenamedScopes

variable (h : RenamedScopes r scopes scopes') (hr : r.Valid) {name name' : Token}
  (hnew : name.lexeme ≠ r.new)
  (hname : RenamedIf r.old r.new (scopes.length == r.level + 1) name.lexeme name'.lexeme)

include h hr hnew hname

theorem declare : Pass.Twin (RenamedScopes r) scopes scopes' (.declare name) (.declare name') := by
  obtain ⟨scope, outer, scope', outer', rfl, rfl⟩ := h.eq_cons
  have hcontains := h.contains hname
  by_cases hscope : scope.contains name.lexeme = true
  · have hscope' := hcontains.trans hscope
    refine ⟨?_, ?_⟩
    · simp only [Pass.declare, if_pos hscope, if_pos hscope', Pass.fault]
      exact h
    · simp only [Pass.declare, if_pos hscope, if_pos hscope', Pass.fault]
      exact ⟨fun herrors => absurd herrors (List.cons_ne_nil _ _), rfl⟩
  · have hscope' : ¬scope'.contains name'.lexeme = true := hcontains ▸ hscope
    refine ⟨?_, ?_⟩
    · simp only [Pass.declare, if_neg hscope, if_neg hscope']
      exact h.insert hr hnew hname false
    · simp only [Pass.declare, if_neg hscope, if_neg hscope']
      exact .refl _

theorem define : Pass.Twin (RenamedScopes r) scopes scopes' (.define name) (.define name') := by
  obtain ⟨scope, outer, scope', outer', rfl, rfl⟩ := h.eq_cons
  exact ⟨h.insert hr hnew hname true, .refl _⟩

theorem introduce :
    Pass.Twin (RenamedScopes r) scopes scopes' (.introduce name) (.introduce name') := by
  have hdeclare := h.declare hr hnew hname
  refine hdeclare.append (hdeclare.after.define hr hnew ?_)
  rw [Pass.length_declare]
  exact hname

end RenamedScopes

/-! ### Expressions -/

theorem RenamedScopes.trace (h : RenamedScopes r scopes scopes') (id : NodeId) {name : Token}
    (hnew : name.lexeme ≠ r.new) :
    Pass.Twin (RenamedScopes r) scopes scopes' (trace id name) (trace id (r.use scopes name)) := by
  refine ⟨h, fun herrors => herrors, ?_⟩
  simp [Scoping.trace, NameUse.place, h.distance_use hnew]

theorem RenamedScopes.refuseIncomplete (h : RenamedScopes r scopes scopes') {name : Token}
    (hnew : name.lexeme ≠ r.new) :
    Pass.Twin (RenamedScopes r) scopes scopes' (refuseIncomplete name)
      (refuseIncomplete (r.use scopes name)) := by
  have hpass (scopes : Scopes) (name : Token) : Scoping.refuseIncomplete name scopes =
      Pass.faultIf (isIncomplete scopes name.lexeme) name .ownInitializer scopes := rfl
  refine ⟨?_, ?_⟩
  · rw [hpass, hpass, Pass.scopes_faultIf, Pass.scopes_faultIf]
    exact h
  · rw [hpass, hpass, h.isIncomplete_use hnew]
    cases isIncomplete scopes name.lexeme with
    | false => exact .refl _
    | true => exact ⟨nofun, rfl⟩

theorem scopes_refuseIncomplete (name : Token) (scopes : Scopes) :
    (refuseIncomplete name scopes).1 = scopes := Pass.scopes_faultIf _ _ _ _

mutual

theorem RenamedScopes.expr (h : RenamedScopes r scopes scopes') (hr : r.Valid) (inClass : Bool)
    (e : Expr NodeId) (havoids : e.Avoids r.new) (hproper : e.Proper) :
    Pass.Twin (RenamedScopes r) scopes scopes' (expr inClass e)
      (expr inClass (e.rename r scopes)) := by
  cases e with
  | literal value => exact .skip h
  | group inner => exact h.expr hr inClass inner havoids hproper
  | unary op operand => exact h.expr hr inClass operand havoids hproper
  | binary left op right | logical left op right =>
    have hleft := h.expr hr inClass left havoids.1 hproper.1
    refine hleft.append ?_
    rw [scopes_expr, scopes_expr]
    exact h.expr hr inClass right havoids.2 hproper.2
  | var id name =>
    refine (h.refuseIncomplete havoids).append ?_
    rw [scopes_refuseIncomplete, scopes_refuseIncomplete]
    exact h.trace id havoids
  | assign id name value =>
    have hvalue := h.expr hr inClass value havoids.2 hproper.2
    refine hvalue.append ?_
    rw [scopes_expr, scopes_expr]
    exact h.trace id havoids.1
  | call callee paren args =>
    have hcallee := h.expr hr inClass callee havoids.1 hproper.1
    refine hcallee.append ?_
    rw [scopes_expr, scopes_expr]
    exact h.exprs hr inClass args havoids.2 hproper.2
  | get object name => exact h.expr hr inClass object havoids hproper
  | set object name value =>
    have hvalue := h.expr hr inClass value havoids.2 hproper.2
    refine hvalue.append ?_
    rw [scopes_expr, scopes_expr]
    exact h.expr hr inClass object havoids.1 hproper.1
  -- `this` is never renamed
  | thisRef id keyword =>
    have hthis : keyword.lexeme = thisName := hproper
    have huse := Renaming.use_of_ne (hthis ▸ hr.old.symm : keyword.lexeme ≠ r.old) scopes
    have htrace := h.trace id (hthis ▸ hr.new.symm : keyword.lexeme ≠ r.new)
    rw [huse] at htrace
    cases inClass with
    | true => exact htrace
    | false => exact ⟨h, .refl _⟩

theorem RenamedScopes.exprs (h : RenamedScopes r scopes scopes') (hr : r.Valid) (inClass : Bool)
    (es : List (Expr NodeId)) (havoids : Expr.AvoidEach r.new es) (hproper : Expr.ProperEach es) :
    Pass.Twin (RenamedScopes r) scopes scopes' (exprs inClass es)
      (exprs inClass (Expr.renameEach r scopes es)) := by
  cases es with
  | nil => exact .skip h
  | cons e es =>
    have hfirst := h.expr hr inClass e havoids.1 hproper.1
    refine hfirst.append ?_
    rw [scopes_expr, scopes_expr]
    exact h.exprs hr inClass es havoids.2 hproper.2

end

theorem RenamedScopes.expr? (h : RenamedScopes r scopes scopes') (hr : r.Valid) (inClass : Bool)
    (e? : Option (Expr NodeId)) (havoids : Expr.Avoids? r.new e?) (hproper : Expr.Proper? e?) :
    Pass.Twin (RenamedScopes r) scopes scopes' (expr? inClass e?)
      (expr? inClass (Expr.rename? r scopes e?)) := by
  cases e? with
  | none => exact .skip h
  | some e => exact h.expr hr inClass e havoids hproper

/-! ### Statements -/

/-- If the statement declares the renamed variable, it is a declaration of a variable, not of a
function or a class. -/
def Renaming.Allows (r : Renaming) (scopes : Scopes) (s : Stmt NodeId) : Prop :=
  scopes.length = r.level + 1 → ∀ t, s.declared? = some t → t.lexeme = r.old →
    ∃ value?, s = .var t value?

theorem Renaming.Allows.of_length {s : Stmt NodeId} (h : r.Allows scopes s)
    (hlength : scopes'.length = scopes.length) : r.Allows scopes' s := by
  rw [Allows, hlength]
  exact h

theorem Renaming.allows_of_declared? {s : Stmt NodeId} (h : s.declared? = none) :
    r.Allows scopes s := by
  intro _ t ht
  rw [h] at ht
  cases ht

/-- Inside of the scope of the variable everything may be declared. -/
theorem RenamedScopes.allows (h : RenamedScopes r scopes scopes') (scope : Scope)
    (s : Stmt NodeId) : r.Allows (scope :: scopes) s := fun hlength =>
  absurd (beq_iff_eq.2 hlength) (by rw [h.level_cons]; exact Bool.false_ne_true)

/-- The name of a function or a class stays. -/
theorem Renaming.Allows.keeps {s : Stmt NodeId} {t : Token} (h : r.Allows scopes s)
    (hs : s.declared? = some t) (hvar : ∀ value?, s ≠ .var t value?) (hnew : t.lexeme ≠ r.new) :
    RenamedIf r.old r.new (scopes.length == r.level + 1) t.lexeme t.lexeme := by
  by_cases hlength : scopes.length = r.level + 1
  · refine .other (fun hold => ?_) hnew _
    obtain ⟨value?, hvalue⟩ := h hlength t hs hold
    exact hvar value? hvalue
  · rw [beq_false_of_ne hlength]
    exact .unmarked _

theorem RenamedScopes.introduces (h : RenamedScopes r scopes scopes') (hr : r.Valid)
    (params : List Token) (havoids : ∀ p ∈ params, p.lexeme ≠ r.new) :
    Pass.Twin (RenamedScopes r) scopes scopes' (.each .introduce params)
      (.each .introduce (params.map (r.declaration scopes))) := by
  induction params generalizing scopes scopes' with
  | nil => exact .skip h
  | cons p ps ih =>
    have hp := havoids p List.mem_cons_self
    have hfirst := h.introduce hr hp (r.declaration_renamedIf scopes hp).lexeme
    have hlength : r.declaration (Pass.introduce p scopes).1 = r.declaration scopes := by
      funext q
      rw [Renaming.declaration, Renaming.declares, Pass.length_introduce]
      rfl
    have hothers := ih hfirst.after fun q hq => havoids q (List.mem_cons_of_mem _ hq)
    rw [hlength] at hothers
    exact hfirst.append hothers

mutual

theorem RenamedScopes.stmt {scopes scopes' : Scopes} (h : RenamedScopes r scopes scopes')
    (hr : r.Valid) (ctx : Context) (s : Stmt NodeId) (havoids : s.Avoids r.new) (hproper : s.Proper)
    (hallows : r.Allows scopes s) :
    Pass.Twin (RenamedScopes r) scopes scopes' (stmt ctx s) (stmt ctx (s.rename r ctx scopes)) := by
  cases s with
  | expr e | print e => exact h.expr hr ctx.inClass e havoids hproper
  -- the name is declared before its initializer, and complete after it
  | var name value? =>
    have hname := (r.declaration_renamedIf scopes havoids.1).lexeme
    have hdeclare := h.declare hr havoids.1 hname
    have hvalue := hdeclare.after.expr? hr ctx.inClass value? havoids.2 hproper.2
    refine (hdeclare.append hvalue).append ?_
    rw [Pass.append_apply, Pass.append_apply, scopes_expr?, scopes_expr?]
    refine hdeclare.after.define hr havoids.1 ?_
    rw [Pass.length_declare]
    exact hname
  | block body =>
    refine .within h (local_stmts ctx body) (local_stmts ctx _)
      ((RenamedScopes.inner rfl h).stmts hr ctx body havoids hproper fun s _ => h.allows ∅ s)
  | ifThen condition s =>
    refine (h.expr hr ctx.inClass condition havoids.1 hproper.1).append ?_
    rw [scopes_expr, scopes_expr]
    exact h.stmt hr ctx s havoids.2 hproper.2.2 (Renaming.allows_of_declared? hproper.2.1)
  | ifElse condition s s' =>
    obtain ⟨hcondition, hs, hproper, hs', hproper'⟩ := hproper
    have hcondition := h.expr hr ctx.inClass condition havoids.1 hcondition
    have hfirst := h.stmt hr ctx s havoids.2.1 hproper (Renaming.allows_of_declared? hs)
    refine (hcondition.append ?_).append ?_
    · rw [scopes_expr, scopes_expr]
      exact hfirst
    · rw [Pass.append_apply, Pass.append_apply, scopes_expr, scopes_expr]
      exact hfirst.after.stmt hr ctx s' havoids.2.2 hproper' (Renaming.allows_of_declared? hs')
  | whileLoop condition body =>
    refine (h.expr hr ctx.inClass condition havoids.1 hproper.1).append ?_
    rw [scopes_expr, scopes_expr]
    exact h.stmt hr ctx body havoids.2 hproper.2.2 (Renaming.allows_of_declared? hproper.2.1)
  -- the function is declared in this scope, and its body further inside
  | function decl =>
    obtain ⟨label, name, params, body⟩ := decl
    have hname := hallows.keeps (t := name) rfl nofun havoids.1
    have hintroduce := h.introduce hr havoids.1 hname
    have hafter := hintroduce.after
    exact hintroduce.append ((RenamedScopes.inner rfl hafter).function hafter hr ctx .function
      ⟨label, name, params, body⟩ havoids hproper fun s _ => hafter.allows ∅ s)
  | ret keyword value? =>
    have hvalue := h.expr? hr ctx.inClass value? havoids hproper
    have hsome : (Expr.rename? r scopes value?).isSome = value?.isSome := by cases value? <;> rfl
    rw [Stmt.rename, Scoping.stmt, Scoping.stmt, hsome]
    refine ((Pass.Twin.faultIf h _ keyword _).append (.faultIf ?_ _ keyword _)).append ?_
    · rw [Pass.scopes_faultIf, Pass.scopes_faultIf]
      exact h
    · rw [Pass.append_apply, Pass.append_apply]
      simp only [Pass.scopes_faultIf]
      exact hvalue
  | classDecl name methods =>
    have hname := hallows.keeps (t := name) rfl nofun havoids.1
    have hintroduce := h.introduce hr havoids.1 hname
    have hthis : thisScope.get? r.new = none := by
      rw [thisScope, NameMap.get?_insert]
      exact (if_neg hr.new).trans rfl
    have hmethods := (RenamedScopes.inner hthis hintroduce.after).methods hr ⟨ctx.body, true⟩ methods
      havoids.2 hproper.2
    exact hintroduce.append (.within hintroduce.after (Pass.local_of_scopes (scopes_methods _ methods))
      (Pass.local_of_scopes (scopes_methods _ _)) hmethods)

theorem RenamedScopes.stmts {scopes scopes' : Scopes} (h : RenamedScopes r scopes scopes')
    (hr : r.Valid) (ctx : Context) (ss : List (Stmt NodeId)) (havoids : Stmt.AvoidEach r.new ss)
    (hproper : Stmt.ProperEach ss) (hallows : ∀ s ∈ ss, r.Allows scopes s) :
    Pass.Twin (RenamedScopes r) scopes scopes' (stmts ctx ss)
      (stmts ctx (Stmt.renameEach r ctx scopes ss)) := by
  cases ss with
  | nil => exact .skip h
  | cons s ss =>
    have hfirst := h.stmt hr ctx s havoids.1 hproper.1 (hallows s List.mem_cons_self)
    have hlength := length_stmt ctx s scopes
    exact hfirst.append (hfirst.after.stmts hr ctx ss havoids.2 hproper.2 fun s' hs' =>
      (hallows s' (List.mem_cons_of_mem _ hs')).of_length hlength)

/-- This holds of the function whose parameter or variable is renamed as well as of functions further
inside. -/
theorem RenamedScopes.function {scopes scopes' : Scopes} {K : Scopes → Scopes → Prop}
    (h : RenamedScopes r (∅ :: scopes) (∅ :: scopes')) (hscopes : K scopes scopes') (hr : r.Valid)
    (ctx : Context) (kind : Body) (decl : FunDecl NodeId (Stmt NodeId))
    (havoids : Stmt.AvoidFunction r.new decl) (hproper : Stmt.ProperFunction decl)
    (hallows : ∀ s ∈ decl.body, r.Allows (∅ :: scopes) s) :
    Pass.Twin K scopes scopes' (function ctx kind decl)
      (function ctx kind (Stmt.renameFunction r ctx kind scopes decl)) := by
  obtain ⟨label, name, params, body⟩ := decl
  have hparams := h.introduces hr params havoids.2.1
  have hbody := hparams.after.stmts hr { ctx with body := kind } body havoids.2.2 hproper.2.2
    fun s hs => (hallows s hs).of_length (Pass.length_introduces _ _)
  exact .within hscopes ((Pass.local_introduces params).append (local_stmts _ body))
    ((Pass.local_introduces _).append (local_stmts _ _)) (hparams.append hbody)

theorem RenamedScopes.methods {scopes scopes' : Scopes} (h : RenamedScopes r scopes scopes')
    (hr : r.Valid) (ctx : Context) (ms : List (FunDecl NodeId (Stmt NodeId)))
    (havoids : Stmt.AvoidFunctions r.new ms) (hproper : Stmt.ProperFunctions ms) :
    Pass.Twin (RenamedScopes r) scopes scopes' (methodsIn ctx ms)
      (methodsIn ctx (Stmt.renameMethods r ctx scopes ms)) := by
  cases ms with
  | nil => exact .skip h
  | cons m ms =>
    have hfirst := (RenamedScopes.inner rfl h).function h hr ctx (methodKind m) m havoids.1 hproper.1
      fun s _ => h.allows ∅ s
    have hkind : (Stmt.renameFunction r ctx (methodKind m) scopes m).isInitializer =
        m.isInitializer := by
      obtain ⟨label, name, params, body⟩ := m
      rfl
    rw [Stmt.renameMethods, methodsIn, methodsIn, hkind]
    refine hfirst.append ?_
    rw [scopes_function, scopes_function]
    exact h.methods hr ctx ms havoids.2 hproper.2

end

end

end LoxLang
