import LoxLang.Proofs.Renaming.Check

/-!
# A renamed tree is alike the tree

With a mark for the scope of the renamed variable (`Renaming.marks`) the tree after the renaming is alike
the tree before it, if the table has the distances that the scope check finds in the tree
(`Bindings.Holds`).
-/

namespace LoxLang

open Scoping
open Difference (renaming_allows)

/-- The table has the distances of the uses. -/
def Bindings.Holds (b : Bindings) (uses : List NameUse) : Prop :=
  ∀ u ∈ uses, b.distance? u.id = u.distance?

theorem Bindings.holds_append {b : Bindings} {uses uses' : List NameUse} :
    b.Holds (uses ++ uses') ↔ b.Holds uses ∧ b.Holds uses' := List.forall_mem_append

theorem Bindings.Holds.left {b : Bindings} {p q : Pass} {scopes : Scopes}
    (h : b.Holds ((p ++ q) scopes).2.uses) : b.Holds (p scopes).2.uses := (holds_append.1 h).1

theorem Bindings.Holds.right {b : Bindings} {p q : Pass} {scopes : Scopes}
    (h : b.Holds ((p ++ q) scopes).2.uses) : b.Holds (q (p scopes).1).2.uses := (holds_append.1 h).2

/-- The marks of scopes around which the scope of the variable lies: it is the one with `level` scopes
around it. -/
def Renaming.marks (r : Renaming) : Nat → List Bool
  | 0 => []
  | n + 1 => (n == r.level) :: r.marks n

section

variable {r : Renaming} {b : Bindings} {scopes : Scopes}

theorem Renaming.marks_getElem? (r : Renaming) (n d : Nat) :
    ((r.marks n)[d]? == some true) = (d + r.level + 1 == n) := by
  induction n generalizing d with
  | zero => simp [marks]
  | succ n ih =>
    cases d with
    | zero =>
      rw [marks, List.getElem?_cons_zero, Bool.eq_iff_iff]
      simp only [beq_iff_eq, Option.some.injEq]
      omega
    | succ d =>
      rw [marks, List.getElem?_cons_succ, ih, Bool.eq_iff_iff]
      simp only [beq_iff_eq]
      omega

theorem Renaming.marks_head? (r : Renaming) (n : Nat) :
    ((r.marks n).head? == some true) = (n == r.level + 1) := by
  rw [List.head?_eq_getElem?, marks_getElem?, Bool.eq_iff_iff]
  simp only [beq_iff_eq]
  omega

/-- Around the scope of the variable no scope is marked. -/
theorem Renaming.marks_of_le (r : Renaming) {n : Nat} (h : n ≤ r.level) :
    r.marks n = List.replicate n false := by
  induction n with
  | zero => rfl
  | succ n ih =>
    rw [marks, ih (Nat.le_of_succ_le h), beq_false_of_ne (Nat.ne_of_lt h)]
    rfl

/-- A use is renamed if it belongs to the marked scope. -/
theorem Renaming.use_renamedIf (r : Renaming) {id : NodeId} {name : Token}
    (hb : b.distance? id = distance? scopes name.lexeme) (hnew : name.lexeme ≠ r.new) :
    name.RenamedIf r.old r.new (b.marked (r.marks scopes.length) id) (r.use scopes name) := by
  refine ⟨?_, fun _ => hnew⟩
  rw [use, binds, Bindings.marked, hb, Bool.and_comm]
  simp only [r.marks_getElem?]
  rfl

mutual

theorem Expr.alike_rename (hr : r.Valid) (inClass : Bool) (e : Expr NodeId)
    (havoids : e.Avoids r.new) (hproper : e.Proper)
    (hb : b.Holds (expr inClass e scopes).2.uses) :
    Expr.Alike (.renaming b hr.old hr.new) (r.marks scopes.length) e (e.rename r scopes) := by
  cases e with
  | literal value => exact .literal
  | group inner => exact .group (Expr.alike_rename hr inClass inner havoids hproper hb)
  | unary op operand =>
    exact .unary (.refl renaming_allows op)
      (Expr.alike_rename hr inClass operand havoids hproper hb)
  | binary left op right =>
    have hright := hb.right
    rw [scopes_expr] at hright
    exact .binary (Expr.alike_rename hr inClass left havoids.1 hproper.1 hb.left)
      (.refl renaming_allows op) (Expr.alike_rename hr inClass right havoids.2 hproper.2 hright)
  | logical left op right =>
    have hright := hb.right
    rw [scopes_expr] at hright
    exact .logical (Expr.alike_rename hr inClass left havoids.1 hproper.1 hb.left)
      (.refl renaming_allows op) (Expr.alike_rename hr inClass right havoids.2 hproper.2 hright)
  | var id name =>
    have huse := hb.right
    rw [scopes_refuseIncomplete] at huse
    exact .var rfl (r.use_renamedIf (huse _ List.mem_cons_self) havoids).alike
  | assign id name value =>
    have huse := hb.right
    rw [scopes_expr] at huse
    exact .assign rfl (r.use_renamedIf (huse _ List.mem_cons_self) havoids.1).alike
      (Expr.alike_rename hr inClass value havoids.2 hproper.2 hb.left)
  | call callee paren args =>
    have hargs := hb.right
    rw [scopes_expr] at hargs
    exact .call (Expr.alike_rename hr inClass callee havoids.1 hproper.1 hb.left)
      (.refl renaming_allows paren) (Expr.alikeEach_rename hr inClass args havoids.2 hproper.2 hargs)
  | get object name =>
    exact .get (Expr.alike_rename hr inClass object havoids hproper hb) (.refl renaming_allows name)
  | set object name value =>
    have hobject := hb.right
    rw [scopes_expr] at hobject
    exact .set (Expr.alike_rename hr inClass object havoids.1 hproper.1 hobject)
      (.refl renaming_allows name) (Expr.alike_rename hr inClass value havoids.2 hproper.2 hb.left)
  | thisRef id keyword =>
    have hthis : keyword.lexeme = thisName := hproper
    refine .thisRef rfl (Token.RenamedIf.alike ⟨?_, fun _ => hthis ▸ hr.new.symm⟩)
    simp [hthis, hr.old.symm]

theorem Expr.alikeEach_rename (hr : r.Valid) (inClass : Bool) (es : List (Expr NodeId))
    (havoids : Expr.AvoidEach r.new es) (hproper : Expr.ProperEach es)
    (hb : b.Holds (exprs inClass es scopes).2.uses) :
    Expr.AlikeEach (.renaming b hr.old hr.new) (r.marks scopes.length) es
      (Expr.renameEach r scopes es) := by
  cases es with
  | nil => exact .nil
  | cons e es =>
    have hothers := hb.right
    rw [scopes_expr] at hothers
    exact .cons (Expr.alike_rename hr inClass e havoids.1 hproper.1 hb.left)
      (Expr.alikeEach_rename hr inClass es havoids.2 hproper.2 hothers)

end

theorem Expr.alike?_rename (hr : r.Valid) (inClass : Bool) (e? : Option (Expr NodeId))
    (havoids : Expr.Avoids? r.new e?) (hproper : Expr.Proper? e?)
    (hb : b.Holds (expr? inClass e? scopes).2.uses) :
    Expr.Alike? (.renaming b hr.old hr.new) (r.marks scopes.length) e? (Expr.rename? r scopes e?) := by
  cases e? with
  | none => exact .none
  | some e => exact .some (Expr.alike_rename hr inClass e havoids hproper hb)

theorem Renaming.Allows.keepsName (hr : r.Valid) {s : Stmt NodeId} {t : Token} (h : r.Allows scopes s)
    (hs : s.declared? = some t) (hvar : ∀ value?, s ≠ .var t value?) (hnew : t.lexeme ≠ r.new) :
    KeepsName (.renaming b hr.old hr.new) (r.marks scopes.length) t := by
  intro hhead
  have hlength : scopes.length = r.level + 1 := by
    rw [← beq_iff_eq (α := Nat), ← r.marks_head?, hhead]
    rfl
  refine ⟨fun hold => ?_, hnew⟩
  obtain ⟨value?, hvalue⟩ := h hlength t hs hold
  exact hvar value? hvalue

theorem Renaming.allows_inner (h : r.level < scopes.length) (scope : Scope) (s : Stmt NodeId) :
    r.Allows (scope :: scopes) s := fun hlength =>
  absurd (Nat.succ_inj.1 hlength) (Nat.ne_of_gt h)

mutual

theorem Stmt.alike_rename (hr : r.Valid) (ctx : Context) (scopes : Scopes)
    (hlevel : r.level < scopes.length) (s : Stmt NodeId) (havoids : s.Avoids r.new) (hproper : s.Proper)
    (hallows : r.Allows scopes s) (hb : b.Holds (stmt ctx s scopes).2.uses) :
    Stmt.Alike (.renaming b hr.old hr.new) (r.marks scopes.length) s (s.rename r ctx scopes) := by
  cases s with
  | expr e => exact .expr (Expr.alike_rename hr ctx.inClass e havoids hproper hb)
  | print e => exact .print (Expr.alike_rename hr ctx.inClass e havoids hproper hb)
  | var name value? =>
    have hvalue := Expr.alike?_rename hr ctx.inClass value? havoids.2 hproper.2 hb.left.right
    rw [Pass.length_declare] at hvalue
    refine .var ?_ hvalue
    rw [r.marks_head?]
    exact (r.declaration_renamedIf scopes havoids.1).alike
  | block body =>
    exact .block (Stmt.alikeEach_rename hr ctx (∅ :: scopes) (Nat.lt_succ_of_lt hlevel)
      body havoids hproper (fun s _ => Renaming.allows_inner hlevel ∅ s) hb)
  -- a branch declares nothing, and so not the renamed variable
  | ifThen condition s =>
    have hs := hb.right
    rw [scopes_expr] at hs
    exact .ifThen (Expr.alike_rename hr ctx.inClass condition havoids.1 hproper.1 hb.left)
      (Stmt.alike_rename hr ctx scopes hlevel s havoids.2 hproper.2.2
        (Renaming.allows_of_declared? hproper.2.1) hs)
  | ifElse condition s s' =>
    obtain ⟨hcondition, hs, hproper, hs', hproper'⟩ := hproper
    have hlength := length_stmt ctx s scopes
    have hthen := hb.left.right
    have helse := hb.right
    rw [scopes_expr] at hthen
    rw [Pass.append_apply, scopes_expr] at helse
    have halike' := Stmt.alike_rename hr ctx (stmt ctx s scopes).1 (hlength ▸ hlevel) s'
      havoids.2.2 hproper' (Renaming.allows_of_declared? hs') helse
    rw [hlength] at halike'
    exact .ifElse (Expr.alike_rename hr ctx.inClass condition havoids.1 hcondition hb.left.left)
      (Stmt.alike_rename hr ctx scopes hlevel s havoids.2.1 hproper
        (Renaming.allows_of_declared? hs) hthen)
      halike'
  | whileLoop condition body =>
    have hbody := hb.right
    rw [scopes_expr] at hbody
    exact .whileLoop (Expr.alike_rename hr ctx.inClass condition havoids.1 hproper.1 hb.left)
      (Stmt.alike_rename hr ctx scopes hlevel body havoids.2 hproper.2.2
        (Renaming.allows_of_declared? hproper.2.1) hbody)
  | function decl =>
    obtain ⟨label, name, params, body⟩ := decl
    have hlength := Pass.length_introduce name scopes
    have hfunction := Stmt.alikeFunction_rename hr ctx (Pass.introduce name scopes).1
      (hlength ▸ Nat.le_of_lt hlevel) .function ⟨label, name, params, body⟩ havoids hproper
      (fun s _ => Renaming.allows_inner (hlength ▸ hlevel) ∅ s) hb.right
    rw [hlength] at hfunction
    exact .function (hallows.keepsName hr rfl nofun havoids.1) hfunction
  | ret keyword value? =>
    have hvalue := hb.right
    rw [Pass.append_apply, Pass.scopes_faultIf, Pass.scopes_faultIf] at hvalue
    exact .ret (Expr.alike?_rename hr ctx.inClass value? havoids hproper hvalue)
  | classDecl name methods =>
    have hlength := Pass.length_introduce name scopes
    -- the scope of `this` is around the methods
    have hthis : r.level < (thisScope :: (Pass.introduce name scopes).1).length := by
      rw [List.length_cons, hlength]
      exact Nat.lt_succ_of_lt hlevel
    have hmethods := Stmt.alikeFunctions_rename hr ⟨ctx.body, true⟩
      (thisScope :: (Pass.introduce name scopes).1) hthis methods havoids.2 hproper.2 hb.right
    rw [List.length_cons, hlength, Renaming.marks, beq_false_of_ne (Nat.ne_of_gt hlevel)] at hmethods
    exact .classDecl (hallows.keepsName hr rfl nofun havoids.1)
      (.refl renaming_allows name) hmethods

theorem Stmt.alikeEach_rename (hr : r.Valid) (ctx : Context) (scopes : Scopes)
    (hlevel : r.level < scopes.length) (ss : List (Stmt NodeId)) (havoids : Stmt.AvoidEach r.new ss)
    (hproper : Stmt.ProperEach ss) (hallows : ∀ s ∈ ss, r.Allows scopes s)
    (hb : b.Holds (stmts ctx ss scopes).2.uses) :
    Stmt.AlikeEach (.renaming b hr.old hr.new) (r.marks scopes.length) ss
      (Stmt.renameEach r ctx scopes ss) := by
  cases ss with
  | nil => exact .nil
  | cons s ss =>
    have hlength := length_stmt ctx s scopes
    have hothers := Stmt.alikeEach_rename hr ctx (stmt ctx s scopes).1 (hlength ▸ hlevel)
      ss havoids.2 hproper.2
      (fun s' hs' => (hallows s' (List.mem_cons_of_mem _ hs')).of_length hlength) hb.right
    rw [hlength] at hothers
    exact .cons (Stmt.alike_rename hr ctx scopes hlevel s havoids.1 hproper.1
      (hallows s List.mem_cons_self) hb.left) hothers

/-- This holds of the function whose parameter or variable is renamed as well as of functions further
inside. -/
theorem Stmt.alikeFunction_rename (hr : r.Valid) (ctx : Context) (scopes : Scopes)
    (hlevel : r.level ≤ scopes.length) (kind : Body) (decl : FunDecl NodeId (Stmt NodeId))
    (havoids : Stmt.AvoidFunction r.new decl) (hproper : Stmt.ProperFunction decl)
    (hallows : ∀ s ∈ decl.body, r.Allows (∅ :: scopes) s)
    (hb : b.Holds (Scoping.function ctx kind decl scopes).2.uses) :
    Stmt.AlikeFunction (.renaming b hr.old hr.new) (r.marks scopes.length) decl
      (Stmt.renameFunction r ctx kind scopes decl) := by
  obtain ⟨label, name, params, body⟩ := decl
  have hlength := Pass.length_introduces params (∅ :: scopes)
  have hparams : List.Forall₂
      (Token.Alike (.renaming b hr.old hr.new) (scopes.length == r.level)) params
      (params.map (r.declaration (∅ :: scopes))) := by
    rw [List.forall₂_map_right_iff, List.forall₂_same]
    intro p hp
    have hrenamed := r.declaration_renamedIf (∅ :: scopes) (havoids.2.1 p hp)
    rw [List.length_cons, ← r.marks_head?, Renaming.marks, List.head?_cons,
      show (some (scopes.length == r.level) == some true) = (scopes.length == r.level) by
        cases scopes.length == r.level <;> rfl] at hrenamed
    exact hrenamed.alike
  have hbody := Stmt.alikeEach_rename hr { ctx with body := kind }
    (Pass.each Pass.introduce params (∅ :: scopes)).1 (hlength ▸ Nat.lt_succ_of_le hlevel) body
    havoids.2.2 hproper.2.2 (fun s hs => (hallows s hs).of_length hlength)
    (Bindings.Holds.right (p := .each .introduce params) hb)
  rw [hlength] at hbody
  exact .mk (.refl renaming_allows name) hparams hbody

theorem Stmt.alikeFunctions_rename (hr : r.Valid) (ctx : Context) (scopes : Scopes)
    (hlevel : r.level < scopes.length) (ms : List (FunDecl NodeId (Stmt NodeId)))
    (havoids : Stmt.AvoidFunctions r.new ms) (hproper : Stmt.ProperFunctions ms)
    (hb : b.Holds (methodsIn ctx ms scopes).2.uses) :
    Stmt.AlikeFunctions (.renaming b hr.old hr.new) (r.marks scopes.length) ms
      (Stmt.renameMethods r ctx scopes ms) := by
  cases ms with
  | nil => exact .nil
  | cons m ms =>
    have hothers := hb.right
    rw [scopes_function] at hothers
    exact .cons
      (Stmt.alikeFunction_rename hr ctx scopes (Nat.le_of_lt hlevel) (methodKind m) m havoids.1
        hproper.1 (fun s _ => Renaming.allows_inner hlevel ∅ s) hb.left)
      (Stmt.alikeFunctions_rename hr ctx scopes hlevel ms havoids.2 hproper.2 hothers)

end

end

end LoxLang
