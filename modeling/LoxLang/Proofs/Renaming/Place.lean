import LoxLang.Proofs.Renaming.Marks

/-!
# The scope of the renamed variable

In a program without faults a scope declares a name once.  So a scope that declares the renamed
variable declares no function or class of its name (`allows_of_declaresVar`, `allows_of_param`), and
the walk over the scope renames this one variable (`Renames.check`, `Renames.alike`).
-/

namespace LoxLang

open Scoping
open Difference (renaming_allows)

/-! ### A name is declared once -/

section

variable {ctx : Context} {scope : Scope} {outer : Scopes} {s : Stmt NodeId} {t : Token}

theorem Scoping.Pass.fresh_of_declare {name : Token}
    (h : (Pass.declare name (scope :: outer)).2.errors = []) :
    scope.contains name.lexeme = false := by
  rw [Bool.eq_false_iff]
  intro hcontains
  simp [Pass.declare, hcontains, Pass.fault] at h

theorem fresh_of_declared? (hs : s.declared? = some t)
    (herrors : (stmt ctx s (scope :: outer)).2.errors = []) : scope.contains t.lexeme = false := by
  cases s with
  | var name value? =>
    obtain rfl := Option.some.inj hs
    exact Pass.fresh_of_declare
      (List.append_eq_nil_iff.1 (List.append_eq_nil_iff.1 herrors).1).1
  | function decl =>
    obtain rfl := Option.some.inj hs
    exact Pass.fresh_of_declare
      (List.append_eq_nil_iff.1 (List.append_eq_nil_iff.1 herrors).1).1
  | classDecl name methods =>
    obtain rfl := Option.some.inj hs
    exact Pass.fresh_of_declare
      (List.append_eq_nil_iff.1 (List.append_eq_nil_iff.1 herrors).1).1
  | _ => cases hs

/-- The innermost scope after a statement has the names it had, and the declared one. -/
theorem stmt_cons (hs : s.Proper) (ctx : Context) (scope : Scope) (outer : Scopes) :
    ∃ scope' : Scope, (stmt ctx s (scope :: outer)).1 = scope' :: outer ∧
      (∀ n, scope.contains n = true → scope'.contains n = true) ∧
      ∀ t, s.declared? = some t → scope'.contains t.lexeme = true := by
  rw [scopes_stmt hs]
  cases hname : s.declared? with
  | none => exact ⟨scope, rfl, fun _ => id, nofun⟩
  | some name =>
    obtain ⟨scope', hscope', hget⟩ := Pass.introduce_cons name scope outer
    refine ⟨scope', hscope', fun n hn => ?_, fun t ht => ?_⟩
    · rw [NameMap.contains, hget]
      split_ifs
      · rfl
      · exact hn
    · obtain rfl := Option.some.inj ht
      rw [NameMap.contains, hget, if_pos rfl]
      rfl

/-- No statement declares a name that the scope has already. -/
theorem ne_of_contains {ss : List (Stmt NodeId)} {n : String} (hproper : Stmt.ProperEach ss)
    (herrors : (stmts ctx ss (scope :: outer)).2.errors = []) (hn : scope.contains n = true) :
    ∀ s ∈ ss, ∀ t, s.declared? = some t → t.lexeme ≠ n := by
  induction ss generalizing scope with
  | nil => nofun
  | cons s ss ih =>
    obtain ⟨hfirst, hothers⟩ := List.append_eq_nil_iff.1 herrors
    obtain ⟨scope', hscope', hkeeps, -⟩ := stmt_cons hproper.1 ctx scope outer
    rw [hscope'] at hothers
    rw [List.forall_mem_cons]
    refine ⟨fun t ht hlexeme => ?_, ih hproper.2 hothers (hkeeps n hn)⟩
    have hfresh := fresh_of_declared? ht hfirst
    rw [hlexeme, hn] at hfresh
    cases hfresh

/-- A name that a variable has is declared by no function or class beside it. -/
theorem var_of_declaresVar {ss : List (Stmt NodeId)} {n : String} (hproper : Stmt.ProperEach ss)
    (herrors : (stmts ctx ss (scope :: outer)).2.errors = []) (hvar : DeclaresVar n ss) :
    ∀ s ∈ ss, ∀ t, s.declared? = some t → t.lexeme = n → ∃ value?, s = .var t value? := by
  induction ss generalizing scope with
  | nil => nofun
  | cons s ss ih =>
    obtain ⟨hfirst, hothers⟩ := List.append_eq_nil_iff.1 herrors
    obtain ⟨scope', hscope', -, hdeclared⟩ := stmt_cons hproper.1 ctx scope outer
    rw [hscope'] at hothers
    -- once the first statement has declared the name, the others do not
    have hne {t : Token} (ht : s.declared? = some t) (hlexeme : t.lexeme = n) :=
      ne_of_contains hproper.2 hothers (hlexeme ▸ hdeclared t ht)
    obtain ⟨t, value?, hmem, hlexeme⟩ := hvar
    rw [List.forall_mem_cons]
    rcases List.mem_cons.1 hmem with rfl | hmem
    · refine ⟨fun t' ht' _ => ⟨value?, by rw [← Option.some.inj ht']⟩, fun s' hs' t' ht' heq => ?_⟩
      exact absurd heq (hne rfl hlexeme s' hs' t' ht')
    · refine ⟨fun t' ht' heq => ?_, ih hproper.2 hothers ⟨t, value?, hmem, hlexeme⟩⟩
      exact absurd hlexeme (hne ht' heq _ hmem t rfl)

theorem allows_of_declaresVar {r : Renaming} {ss : List (Stmt NodeId)} (scopes : Scopes)
    (hproper : Stmt.ProperEach ss) (herrors : (stmts ctx ss (scope :: outer)).2.errors = [])
    (hvar : DeclaresVar r.old ss) : ∀ s ∈ ss, r.Allows scopes s := fun s hs _ =>
  var_of_declaresVar hproper herrors hvar s hs

theorem allows_of_param {r : Renaming} {params : List Token} {ss : List (Stmt NodeId)}
    (scopes : Scopes) (hproper : Stmt.ProperEach ss)
    (herrors : (stmts ctx ss (Pass.each Pass.introduce params (scope :: outer)).1).2.errors = [])
    (hparam : ∃ p ∈ params, p.lexeme = r.old) : ∀ s ∈ ss, r.Allows scopes s := by
  obtain ⟨scope', hscope', hget⟩ := Pass.introduces_cons params scope outer
  have hcontains : scope'.contains r.old = true := by
    rw [NameMap.contains, hget, if_pos (List.mem_map.2 hparam)]
    rfl
  rw [hscope'] at herrors
  exact fun s hs _ t ht heq => absurd heq (ne_of_contains hproper herrors hcontains s hs t ht)

theorem allows_of_function {r : Renaming} {kind : Body} {decl : FunDecl NodeId (Stmt NodeId)}
    {scopes : Scopes} (hproper : Stmt.ProperFunction decl)
    (herrors : (function ctx kind decl scopes).2.errors = [])
    (h : (∃ p ∈ decl.params, p.lexeme = r.old) ∨ DeclaresVar r.old decl.body) :
    ∀ s ∈ decl.body, r.Allows (∅ :: scopes) s := by
  obtain ⟨label, name, params, body⟩ := decl
  have hbody : (stmts { ctx with body := kind } body
      (Pass.each Pass.introduce params (∅ :: scopes)).1).2.errors = [] :=
    (List.append_eq_nil_iff.1 herrors).2
  rcases h with hparam | hvar
  · exact allows_of_param _ hproper.2.2 hbody hparam
  · obtain ⟨scope', hscope', -⟩ := Pass.introduces_cons params ∅ scopes
    rw [hscope'] at hbody
    exact allows_of_declaresVar _ hproper.2.2 hbody hvar

end

/-! ### The names -/

section

variable {old new : String}

theorem Stmt.proper_of_mem {ss : List (Stmt NodeId)} (h : Stmt.ProperEach ss) {s : Stmt NodeId}
    (hs : s ∈ ss) : s.Proper := by
  induction ss with
  | nil => cases hs
  | cons s' ss ih =>
    rcases List.mem_cons.1 hs with rfl | hs
    · exact h.1
    · exact ih h.2 hs

theorem Stmt.avoids_of_mem {ss : List (Stmt NodeId)} (h : Stmt.AvoidEach new ss) {s : Stmt NodeId}
    (hs : s ∈ ss) : s.Avoids new := by
  induction ss with
  | nil => cases hs
  | cons s' ss ih =>
    rcases List.mem_cons.1 hs with rfl | hs
    · exact h.1
    · exact ih h.2 hs

/-- A declared variable can be given a name that is nowhere used. -/
theorem DeclaresVar.valid {ss : List (Stmt NodeId)} (h : DeclaresVar old ss)
    (hproper : Stmt.ProperEach ss) (havoids : Stmt.AvoidEach new ss) (hnew : new ≠ thisName)
    (level : Nat) : Renaming.Valid ⟨old, new, level⟩ := by
  obtain ⟨t, value?, hmem, rfl⟩ := h
  exact ⟨(Stmt.avoids_of_mem havoids hmem).1, (Stmt.proper_of_mem hproper hmem).1, hnew⟩

theorem valid_of_function {decl : FunDecl NodeId (Stmt NodeId)}
    (h : (∃ p ∈ decl.params, p.lexeme = old) ∨ DeclaresVar old decl.body)
    (hproper : Stmt.ProperFunction decl) (havoids : Stmt.AvoidFunction new decl)
    (hnew : new ≠ thisName) (level : Nat) : Renaming.Valid ⟨old, new, level⟩ := by
  obtain ⟨label, name, params, body⟩ := decl
  rcases h with ⟨p, hp, rfl⟩ | hvar
  · exact ⟨havoids.2.1 p hp, hproper.2.1 p hp, hnew⟩
  · exact hvar.valid hproper.2.2 havoids.2.2 hnew level

/-- Nothing in the part that is declared or used as a variable has the name. -/
def Scoping.Code.Avoids (name : String) : Code → Prop
  | expr e => e.Avoids name
  | exprs es => Expr.AvoidEach name es
  | stmt s => s.Avoids name
  | stmts ss => Stmt.AvoidEach name ss
  | function _ decl => Stmt.AvoidFunction name decl
  | methods ms => Stmt.AvoidFunctions name ms

variable {v : Visit} {c : Code}

theorem Renames.valid (h : Renames old new v c) (hproper : v.code.Proper)
    (havoids : v.code.Avoids new) (hnew : new ≠ thisName) (level : Nat) :
    Renaming.Valid ⟨old, new, level⟩ := by
  induction h with
  | inBlock hvar => exact hvar.valid hproper havoids hnew level
  | inFunction h => exact valid_of_function h hproper havoids hnew level
  | block _ ih | function _ ih => exact ih hproper havoids
  | ifThen _ ih | whileLoop _ ih => exact ih hproper.2.2 havoids.2
  | thenBranch _ ih => exact ih hproper.2.2.1 havoids.2.1
  | elseBranch _ ih => exact ih hproper.2.2.2.2 havoids.2.2
  | classDecl _ ih | tail _ ih | methods _ ih => exact ih hproper.2 havoids.2
  | head _ ih | method _ ih => exact ih hproper.1 havoids.1
  | body _ ih => exact ih hproper.2.2 havoids.2.2

/-! ### The check of the renamed program -/

/-- The scopes at the beginning of the scope of the variable. -/
theorem RenamedScopes.start (old new : String) (scopes : Scopes) :
    RenamedScopes ⟨old, new, scopes.length⟩ (∅ :: scopes) (∅ :: scopes) :=
  .here rfl (fun _ _ _ => rfl) rfl

/-- Functions keep their names. -/
theorem Renames.name_eq {kind : Body} {decl decl' : FunDecl NodeId (Stmt NodeId)} {ctx : Context}
    {scopes : Scopes} (h : Renames old new ⟨.function kind decl, ctx, scopes⟩ (.function kind decl')) :
    decl'.name = decl.name := by
  cases h with
  | inFunction => cases decl; rfl
  | body => rfl

/-- Outside of the scope of the variable the check finds the same as before. -/
theorem Renames.check (h : Renames old new v c) (hproper : v.code.Proper)
    (havoids : v.code.Avoids new) (hnew : new ≠ thisName) (herrors : v.report.errors = []) :
    Pass.Twin Eq v.scopes v.scopes (v.code.pass v.ctx) (c.pass v.ctx) := by
  induction h with
  -- from here on down the scope of the variable is among the scopes
  | @inBlock body ctx scopes hvar =>
    have hr := hvar.valid hproper havoids hnew scopes.length
    have hallows := allows_of_declaresVar (r := ⟨old, new, scopes.length⟩) (∅ :: scopes) hproper
      herrors hvar
    exact .within rfl (local_stmts ctx body) (local_stmts ctx _)
      ((RenamedScopes.start old new scopes).stmts hr ctx body havoids hproper hallows)
  | @inFunction kind decl ctx scopes h =>
    have hr := valid_of_function h hproper havoids hnew scopes.length
    have hallows := allows_of_function (r := ⟨old, new, scopes.length⟩) hproper herrors h
    exact (RenamedScopes.start old new scopes).function rfl hr ctx kind decl havoids hproper hallows
  | @block body body' ctx scopes _ ih =>
    exact .within rfl (local_stmts ctx body) (local_stmts ctx body') (ih hproper havoids herrors)
  -- the condition and the other branch stay, and leave the scopes as they are
  | @ifThen condition s s' ctx scopes _ ih =>
    have herrors := Visit.errors_of_mem (w := ⟨.stmt s, ctx, scopes⟩) herrors
      (by simp [Visit.parts, visits, Code.pass])
    refine (Pass.Twin.refl scopes (expr ctx.inClass condition)).append ?_
    rw [scopes_expr]
    exact ih hproper.2.2 havoids.2 herrors
  | @thenBranch condition s s' t ctx scopes _ ih =>
    have herrors := Visit.errors_of_mem (w := ⟨.stmt s, ctx, scopes⟩) herrors
      (by simp [Visit.parts, visits, Code.pass])
    have hs := ih hproper.2.2.1 havoids.2.1 herrors
    refine ((Pass.Twin.refl scopes (expr ctx.inClass condition)).append ?_).append ?_
    · rw [scopes_expr]
      exact hs
    · rw [Pass.append_apply, Pass.append_apply, scopes_expr]
      exact hs.after ▸ .refl _ _
  | @elseBranch condition s t t' ctx scopes _ ih =>
    have herrors := Visit.errors_of_mem (w := ⟨.stmt t, ctx, (stmt ctx s scopes).1⟩) herrors
      (by simp [Visit.parts, visits, Code.pass])
    refine (Pass.Twin.refl scopes (expr ctx.inClass condition ++ stmt ctx s)).append ?_
    rw [Pass.append_apply, scopes_expr]
    exact ih hproper.2.2.2.2 havoids.2.2 herrors
  | @whileLoop condition s s' ctx scopes _ ih =>
    have herrors := Visit.errors_of_mem (w := ⟨.stmt s, ctx, scopes⟩) herrors
      (by simp [Visit.parts, visits, Code.pass])
    refine (Pass.Twin.refl scopes (expr ctx.inClass condition)).append ?_
    rw [scopes_expr]
    exact ih hproper.2.2 havoids.2 herrors
  | @function decl decl' ctx scopes h ih =>
    have herrors := Visit.errors_of_mem (w := ⟨.function .function decl, ctx, _⟩) herrors
      List.mem_cons_self
    have hfunction := ih hproper havoids herrors
    rw [Code.pass, Code.pass, Scoping.stmt, Scoping.stmt, h.name_eq]
    exact (Pass.Twin.refl scopes (.introduce decl.name)).append hfunction
  | @classDecl name methods methods' ctx scopes _ ih =>
    have herrors := Visit.errors_of_mem (w := ⟨.methods methods, ⟨ctx.body, true⟩, _⟩) herrors
      List.mem_cons_self
    have hmethods := ih hproper.2 havoids.2 herrors
    exact (Pass.Twin.refl scopes (.introduce name)).append
      (.within rfl (Pass.local_of_scopes (scopes_methods _ methods))
        (Pass.local_of_scopes (scopes_methods _ methods')) hmethods)
  | @head s s' ss ctx scopes _ ih =>
    have herrors := Visit.errors_of_mem (w := ⟨.stmt s, ctx, scopes⟩) herrors List.mem_cons_self
    have hs := ih hproper.1 havoids.1 herrors
    exact hs.append (hs.after ▸ .refl _ _)
  | @tail s ss ss' ctx scopes _ ih =>
    have herrors := Visit.errors_of_mem (w := ⟨.stmts ss, ctx, (stmt ctx s scopes).1⟩) herrors
      (List.mem_cons_of_mem _ List.mem_cons_self)
    exact (Pass.Twin.refl scopes (stmt ctx s)).append (ih hproper.2 havoids.2 herrors)
  | @body kind label name params body body' ctx scopes _ ih =>
    have herrors := Visit.errors_of_mem (w := ⟨.stmts body, { ctx with body := kind }, _⟩) herrors
      List.mem_cons_self
    have hparams := Pass.Twin.refl (∅ :: scopes) (.each .introduce params)
    exact .within rfl ((Pass.local_introduces params).append (local_stmts _ body))
      ((Pass.local_introduces params).append (local_stmts _ body'))
      (hparams.append (ih hproper.2.2 havoids.2.2 herrors))
  | @method m m' ms ctx scopes h ih =>
    have herrors := Visit.errors_of_mem (w := ⟨.function (methodKind m) m, ctx, scopes⟩) herrors
      List.mem_cons_self
    have hm := ih hproper.1 havoids.1 herrors
    have hkind : methodKind m' = methodKind m := by
      rw [methodKind, methodKind, FunDecl.isInitializer, FunDecl.isInitializer, h.name_eq]
    have hpass : (Code.methods (m' :: ms)).pass ctx =
        Scoping.function ctx (methodKind m) m' ++ methodsIn ctx ms := by
      rw [← hkind]
      rfl
    rw [hpass]
    exact hm.append (hm.after ▸ .refl _ _)
  | @methods m ms ms' ctx scopes _ ih =>
    have herrors := Visit.errors_of_mem (w := ⟨.methods ms, ctx, scopes⟩) herrors
      (by simp [Visit.parts, visits, Code.pass])
    refine (Pass.Twin.refl scopes (Scoping.function ctx (methodKind m) m)).append ?_
    rw [scopes_function]
    exact ih hproper.2 havoids.2 herrors

/-! ### The renamed program is alike -/

/-- The parts differ in the names of marked variables. -/
def Scoping.Code.Alike (d : Difference) (marks : List Bool) : Code → Code → Prop
  | .stmt s, .stmt s' => Stmt.Alike d marks s s'
  | .stmts ss, .stmts ss' => Stmt.AlikeEach d marks ss ss'
  | .function _ f, .function _ f' => Stmt.AlikeFunction d marks f f'
  | .methods fs, .methods fs' => Stmt.AlikeFunctions d marks fs fs'
  | _, _ => False

variable {b : Bindings}

theorem Scoping.Visit.holds_of_mem {w : Visit} (h : b.Holds v.report.uses) (hw : w ∈ v.parts) :
    b.Holds w.report.uses := fun u hu => h u (Visit.uses_subset hw hu)

theorem true_notMem_replicate (n : Nat) : true ∉ List.replicate n false := by simp

theorem keepsName_replicate (d : Difference) (n : Nat) (t : Token) :
    KeepsName d (List.replicate n false) t := .unmarked (true_notMem_replicate n) t

/-- Outside of the scope of the variable no scope is marked. -/
theorem Renames.alike (h : Renames old new v c) (hproper : v.code.Proper)
    (havoids : v.code.Avoids new) (hold : old ≠ thisName) (hnew : new ≠ thisName)
    (herrors : v.report.errors = []) (hb : b.Holds v.report.uses) :
    Code.Alike (.renaming b hold hnew) (List.replicate v.scopes.length false) v.code c := by
  induction h with
  -- from here on down one scope is marked, which is not in force outside
  | @inBlock body ctx scopes hvar =>
    have hr := hvar.valid hproper havoids hnew scopes.length
    have hallows := allows_of_declaresVar (r := ⟨old, new, scopes.length⟩) (∅ :: scopes) hproper
      herrors hvar
    have hbody := Stmt.alikeEach_rename hr ctx (∅ :: scopes) (Nat.lt_succ_self _) body havoids hproper
      hallows hb
    rw [List.length_cons, Renaming.marks, Renaming.marks_of_le _ (Nat.le_refl _)] at hbody
    exact .block hbody
  | @inFunction kind decl ctx scopes h =>
    have hr := valid_of_function h hproper havoids hnew scopes.length
    have hallows := allows_of_function (r := ⟨old, new, scopes.length⟩) hproper herrors h
    have hfunction := Stmt.alikeFunction_rename hr ctx scopes (Nat.le_refl _) kind decl havoids hproper
      hallows hb
    rw [Renaming.marks_of_le _ (Nat.le_refl _)] at hfunction
    exact hfunction
  | @block body body' ctx scopes _ ih => exact .block (ih hproper havoids herrors hb)
  | @ifThen condition s s' ctx scopes _ ih =>
    have hmem : ⟨.stmt s, ctx, scopes⟩ ∈ Visit.parts ⟨.stmt (.ifThen condition s), ctx, scopes⟩ := by
      simp [Visit.parts, visits, Code.pass]
    have hs := ih hproper.2.2 havoids.2 (Visit.errors_of_mem herrors hmem)
      (Visit.holds_of_mem hb hmem)
    exact .ifThen (.refl renaming_allows (true_notMem_replicate _) condition) hs
  | @thenBranch condition s s' t ctx scopes _ ih =>
    have hmem : ⟨.stmt s, ctx, scopes⟩ ∈
        Visit.parts ⟨.stmt (.ifElse condition s t), ctx, scopes⟩ := by
      simp [Visit.parts, visits, Code.pass]
    have hs := ih hproper.2.2.1 havoids.2.1 (Visit.errors_of_mem herrors hmem)
      (Visit.holds_of_mem hb hmem)
    exact .ifElse (.refl renaming_allows (true_notMem_replicate _) condition) hs
      (.refl renaming_allows (true_notMem_replicate _) t)
  | @elseBranch condition s t t' ctx scopes _ ih =>
    have hmem : ⟨.stmt t, ctx, (stmt ctx s scopes).1⟩ ∈
        Visit.parts ⟨.stmt (.ifElse condition s t), ctx, scopes⟩ := by
      simp [Visit.parts, visits, Code.pass]
    have ht := ih hproper.2.2.2.2 havoids.2.2 (Visit.errors_of_mem herrors hmem)
      (Visit.holds_of_mem hb hmem)
    rw [length_stmt] at ht
    exact .ifElse (.refl renaming_allows (true_notMem_replicate _) condition)
      (.refl renaming_allows (true_notMem_replicate _) s) ht
  | @whileLoop condition s s' ctx scopes _ ih =>
    have hmem : ⟨.stmt s, ctx, scopes⟩ ∈
        Visit.parts ⟨.stmt (.whileLoop condition s), ctx, scopes⟩ := by
      simp [Visit.parts, visits, Code.pass]
    have hs := ih hproper.2.2 havoids.2 (Visit.errors_of_mem herrors hmem)
      (Visit.holds_of_mem hb hmem)
    exact .whileLoop (.refl renaming_allows (true_notMem_replicate _) condition) hs
  | @function decl decl' ctx scopes _ ih =>
    have hmem : ⟨.function .function decl, ctx, (Pass.introduce decl.name scopes).1⟩ ∈
        Visit.parts ⟨.stmt (.function decl), ctx, scopes⟩ := List.mem_cons_self
    have hfunction := ih hproper havoids (Visit.errors_of_mem herrors hmem)
      (Visit.holds_of_mem hb hmem)
    rw [Pass.length_introduce] at hfunction
    exact .function (keepsName_replicate _ _ decl.name) hfunction
  | @classDecl name methods methods' ctx scopes _ ih =>
    have hmem : ⟨.methods methods, ⟨ctx.body, true⟩, thisScope :: (Pass.introduce name scopes).1⟩ ∈
        Visit.parts ⟨.stmt (.classDecl name methods), ctx, scopes⟩ := List.mem_cons_self
    have hmethods := ih hproper.2 havoids.2 (Visit.errors_of_mem herrors hmem)
      (Visit.holds_of_mem hb hmem)
    rw [List.length_cons, Pass.length_introduce] at hmethods
    exact .classDecl (keepsName_replicate _ _ name) (.refl renaming_allows name) hmethods
  | @head s s' ss ctx scopes _ ih =>
    have hmem : ⟨.stmt s, ctx, scopes⟩ ∈ Visit.parts ⟨.stmts (s :: ss), ctx, scopes⟩ :=
      List.mem_cons_self
    have hs := ih hproper.1 havoids.1 (Visit.errors_of_mem herrors hmem)
      (Visit.holds_of_mem hb hmem)
    exact .cons hs (.refl renaming_allows (true_notMem_replicate _) ss)
  | @tail s ss ss' ctx scopes _ ih =>
    have hmem : ⟨.stmts ss, ctx, (stmt ctx s scopes).1⟩ ∈
        Visit.parts ⟨.stmts (s :: ss), ctx, scopes⟩ := List.mem_cons_of_mem _ List.mem_cons_self
    have hss := ih hproper.2 havoids.2 (Visit.errors_of_mem herrors hmem)
      (Visit.holds_of_mem hb hmem)
    rw [length_stmt] at hss
    exact .cons (.refl renaming_allows (true_notMem_replicate _) s) hss
  | @body kind label name params body body' ctx scopes _ ih =>
    have hmem : ⟨.stmts body, { ctx with body := kind },
        (Pass.each Pass.introduce params (∅ :: scopes)).1⟩ ∈
        Visit.parts ⟨.function kind ⟨label, name, params, body⟩, ctx, scopes⟩ := List.mem_cons_self
    have hbody := ih hproper.2.2 havoids.2.2 (Visit.errors_of_mem herrors hmem)
      (Visit.holds_of_mem hb hmem)
    rw [Pass.length_introduces] at hbody
    exact .mk (.refl renaming_allows name)
      (List.forall₂_same.2 fun p _ => .refl renaming_allows p) hbody
  | @method m m' ms ctx scopes _ ih =>
    have hmem : ⟨.function (methodKind m) m, ctx, scopes⟩ ∈
        Visit.parts ⟨.methods (m :: ms), ctx, scopes⟩ := List.mem_cons_self
    have hm := ih hproper.1 havoids.1 (Visit.errors_of_mem herrors hmem)
      (Visit.holds_of_mem hb hmem)
    exact .cons hm (.refl renaming_allows (true_notMem_replicate _) ms)
  | @methods m ms ms' ctx scopes _ ih =>
    have hmem : ⟨.methods ms, ctx, scopes⟩ ∈ Visit.parts ⟨.methods (m :: ms), ctx, scopes⟩ := by
      simp [Visit.parts, visits, Code.pass]
    have hms := ih hproper.2 havoids.2 (Visit.errors_of_mem herrors hmem)
      (Visit.holds_of_mem hb hmem)
    exact .cons (.refl renaming_allows (true_notMem_replicate _) m) hms

end

end LoxLang
