import LoxLang.Bindings
import LoxLang.Proofs.Similar.Tree

/-!
# Checking similar trees

The scope check finds the same in similar trees: the same faults at corresponding tokens, and for
corresponding labels the same distances (`check_similar`).  So tables of distances that agree on
corresponding labels still do after both trees have been checked (`Bindings.recordUses_similar`).
-/

namespace LoxLang

section

variable (L : NodeId → NodeId → Prop) (K : Token → Token → Prop)

/-- The same fault at similar tokens. -/
inductive ScopeError.Similar : ScopeError → ScopeError → Prop where
  | mk {t t' : Token} {f} : t.Similar K t' → ScopeError.Similar ⟨t.site, f⟩ ⟨t'.site, f⟩

/-- The same use under corresponding labels. -/
structure NameUse.Similar (u u' : NameUse) : Prop where
  id : L u.id u'.id
  name : u'.name = u.name
  distance : u'.distance? = u.distance?

namespace Scoping

/-- The same faults and uses, one by one. -/
structure Report.Similar (r r' : Report) : Prop where
  errors : List.Forall₂ (ScopeError.Similar K) r.errors r'.errors
  uses : List.Forall₂ (NameUse.Similar L) r.uses r'.uses

/-- The walks find the same, and change the scopes in the same way. -/
def Pass.Similar (p p' : Pass) : Prop :=
  ∀ scopes, (p' scopes).1 = (p scopes).1 ∧ (p scopes).2.Similar L K (p' scopes).2

end Scoping

end

namespace Scoping

section

variable {L : NodeId → NodeId → Prop} {K : Token → Token → Prop}

theorem Report.Similar.nil : Report.Similar L K ⟨[], []⟩ ⟨[], []⟩ := ⟨.nil, .nil⟩

namespace Pass.Similar

variable {p p' q q' : Pass} {t t' : Token}

theorem skip : Pass.Similar L K .skip .skip := fun _ => ⟨rfl, .nil⟩

theorem append (hp : p.Similar L K p') (hq : q.Similar L K q') :
    (p ++ q).Similar L K (p' ++ q') := by
  intro scopes
  obtain ⟨hscopes, hp⟩ := hp scopes
  obtain ⟨hscopes', hq⟩ := hq (p scopes).1
  rw [append_apply, append_apply, hscopes]
  exact ⟨hscopes', List.rel_append hp.errors hq.errors, List.rel_append hp.uses hq.uses⟩

theorem within (names : Scope) (hp : p.Similar L K p') :
    (Pass.within names p).Similar L K (Pass.within names p') := by
  intro scopes
  obtain ⟨hscopes, hp⟩ := hp (names :: scopes)
  exact ⟨congrArg List.tail hscopes, hp⟩

theorem fault (h : t.Similar K t') (f : ScopeFault) :
    Pass.Similar L K (.fault t f) (.fault t' f) := fun _ => ⟨rfl, .cons (.mk h) .nil, .nil⟩

theorem faultIf (c : Bool) (h : t.Similar K t') (f : ScopeFault) :
    Pass.Similar L K (.faultIf c t f) (.faultIf c t' f) := by
  cases c
  · exact skip
  · exact fault h f

theorem declare (h : t.Similar K t') : Pass.Similar L K (.declare t) (.declare t') := by
  intro scopes
  cases scopes with
  | nil => exact ⟨rfl, .nil⟩
  | cons scope outer =>
    rw [Pass.declare, Pass.declare, h.lexeme]
    by_cases hscope : scope.contains t.lexeme = true
    · rw [if_pos hscope, if_pos hscope]
      exact fault h .redeclared (scope :: outer)
    · rw [if_neg hscope, if_neg hscope]
      exact ⟨rfl, .nil⟩

theorem define (h : t.Similar K t') : Pass.Similar L K (.define t) (.define t') := by
  intro scopes
  cases scopes with
  | nil => exact ⟨rfl, .nil⟩
  | cons scope outer =>
    rw [Pass.define, Pass.define, h.lexeme]
    exact ⟨rfl, .nil⟩

theorem introduce (h : t.Similar K t') : Pass.Similar L K (.introduce t) (.introduce t') :=
  (declare h).append (define h)

theorem introduces {ps ps' : List Token} (h : List.Forall₂ (Token.Similar K) ps ps') :
    Pass.Similar L K (.each .introduce ps) (.each .introduce ps') := by
  induction h with
  | nil => exact skip
  | cons hp _ ih => exact (introduce hp).append ih

theorem trace {id id' : NodeId} (hid : L id id') (h : t.Similar K t') :
    Pass.Similar L K (trace id t) (trace id' t') := by
  intro scopes
  rw [Scoping.trace, Scoping.trace, h.lexeme]
  exact ⟨rfl, .nil, .cons ⟨hid, rfl, rfl⟩ .nil⟩

theorem refuseIncomplete (h : t.Similar K t') :
    Pass.Similar L K (refuseIncomplete t) (refuseIncomplete t') := by
  intro scopes
  rw [Scoping.refuseIncomplete, Scoping.refuseIncomplete, h.lexeme]
  exact faultIf _ h .ownInitializer scopes

/-! ### Trees -/

mutual

theorem expr (inClass : Bool) {e e' : Expr NodeId} (h : Expr.Similar L K e e') :
    Pass.Similar L K (expr inClass e) (expr inClass e') := by
  cases e with
  | literal value => cases h with | literal => exact skip
  | group inner => cases h with | group h => exact (expr inClass h :)
  | unary op operand => cases h with | unary _ h => exact (expr inClass h :)
  | binary left op right =>
    cases h with | binary hl _ hr => exact (expr inClass hl).append (expr inClass hr)
  | logical left op right =>
    cases h with | logical hl _ hr => exact (expr inClass hl).append (expr inClass hr)
  | var id name => cases h with | var hid ht => exact (refuseIncomplete ht).append (trace hid ht)
  | assign id name value =>
    cases h with | assign hid ht h => exact (expr inClass h).append (trace hid ht)
  | call callee paren args =>
    cases h with | call hf _ hes => exact (expr inClass hf).append (exprs inClass hes)
  | get object name => cases h with | get h _ => exact (expr inClass h :)
  | set object name value =>
    cases h with | set ho _ h => exact (expr inClass h).append (expr inClass ho)
  | thisRef id keyword =>
    cases h with
    | thisRef hid ht =>
      cases inClass with
      | true => exact trace hid ht
      | false => exact fault ht .thisOutsideClass

theorem exprs (inClass : Bool) {es es' : List (Expr NodeId)} (h : Expr.SimilarEach L K es es') :
    Pass.Similar L K (exprs inClass es) (exprs inClass es') := by
  cases es with
  | nil => cases h with | nil => exact skip
  | cons e es => cases h with | cons he hes => exact (expr inClass he).append (exprs inClass hes)

end

theorem expr? (inClass : Bool) {e? e?' : Option (Expr NodeId)} (h : Expr.Similar? L K e? e?') :
    Pass.Similar L K (expr? inClass e?) (expr? inClass e?') := by
  cases h with
  | none => exact skip
  | some h => exact expr inClass h

mutual

theorem stmt (ctx : Context) {s s' : Stmt NodeId} (h : Stmt.Similar L K s s') :
    Pass.Similar L K (stmt ctx s) (stmt ctx s') := by
  cases s with
  | expr e => cases h with | expr h => exact expr ctx.inClass h
  | print e => cases h with | print h => exact expr ctx.inClass h
  | var name value? =>
    cases h with | var ht h => exact ((declare ht).append (expr? ctx.inClass h)).append (define ht)
  | block body => cases h with | block h => exact within ∅ (stmts ctx h)
  | ifThen condition s =>
    cases h with | ifThen he hs => exact (expr ctx.inClass he).append (stmt ctx hs)
  | ifElse condition s t =>
    cases h with
    | ifElse he hs ht => exact ((expr ctx.inClass he).append (stmt ctx hs)).append (stmt ctx ht)
  | whileLoop condition body =>
    cases h with | whileLoop he hs => exact (expr ctx.inClass he).append (stmt ctx hs)
  | function decl =>
    cases h with
    | function h =>
      exact (introduce h.name).append (function ctx .function h)
  | ret keyword value? =>
    cases h with
    | ret hkeyword h =>
      have hsome : _ = value?.isSome := h.isSome_eq
      rw [Scoping.stmt, Scoping.stmt, hsome]
      exact ((faultIf _ hkeyword _).append (faultIf _ hkeyword _)).append (expr? ctx.inClass h)
  | classDecl name decls =>
    cases h with
    | classDecl ht h => exact (introduce ht).append (within thisScope (methods ⟨ctx.body, true⟩ h))
termination_by structural s

theorem stmts (ctx : Context) {ss ss' : List (Stmt NodeId)} (h : Stmt.SimilarEach L K ss ss') :
    Pass.Similar L K (stmts ctx ss) (stmts ctx ss') := by
  cases ss with
  | nil => cases h with | nil => exact skip
  | cons s ss => cases h with | cons hs hss => exact (stmt ctx hs).append (stmts ctx hss)
termination_by structural ss

theorem function (ctx : Context) (kind : Body) {f f' : FunDecl NodeId (Stmt NodeId)}
    (h : Stmt.SimilarFunction L K f f') :
    Pass.Similar L K (function ctx kind f) (function ctx kind f') := by
  obtain ⟨label, name, params, body⟩ := f
  cases h with
  | mk _ _ hps h => exact within ∅ ((introduces hps).append (stmts { ctx with body := kind } h))
termination_by structural f

theorem methods (ctx : Context) {fs fs' : List (FunDecl NodeId (Stmt NodeId))}
    (h : Stmt.SimilarFunctions L K fs fs') :
    Pass.Similar L K (methodsIn ctx fs) (methodsIn ctx fs') := by
  cases fs with
  | nil => cases h with | nil => exact skip
  | cons f fs =>
    cases h with
    | cons hf hfs =>
      rw [methodsIn, methodsIn, hf.isInitializer_eq]
      exact (function ctx _ hf).append (methods ctx hfs)
termination_by structural fs

end

end Pass.Similar

/-- The check finds the same in similar programs. -/
theorem check_similar {P P' : List (Stmt NodeId)} (h : Stmt.SimilarEach L K P P') :
    (check P).Similar L K (check P') := (Pass.Similar.stmts .program h []).2

end

end Scoping

/-! ### The table of distances -/

section

variable {L : NodeId → NodeId → Prop}

/-- One label corresponds to one label. -/
def OneToOne (L : NodeId → NodeId → Prop) : Prop :=
  ∀ ⦃id id' k k' : Nat⦄, L id id' → L k k' → (k' = id' ↔ k = id)

/-- The tables have the same distances for corresponding labels. -/
def Bindings.Agree (L : NodeId → NodeId → Prop) (b b' : Bindings) : Prop :=
  ∀ ⦃id id'⦄, L id id' → b'.distance? id' = b.distance? id

theorem Bindings.recordUses_similar (hL : OneToOne L) {uses uses' : List NameUse}
    (h : List.Forall₂ (NameUse.Similar L) uses uses') {b b' : Bindings} (hb : b.Agree L b') :
    (b.recordUses uses).Agree L (b'.recordUses uses') := by
  induction h generalizing b b' with
  | nil => exact hb
  | @cons u u' uses uses' hu _ ih =>
    have hb' : (b.recordUse u).Agree L (b'.recordUse u') := by
      intro id id' hid
      rw [distance?_recordUse, distance?_recordUse, hu.distance, hb hid]
      simp only [hL hu.id hid]
    exact ih hb'

end

end LoxLang
