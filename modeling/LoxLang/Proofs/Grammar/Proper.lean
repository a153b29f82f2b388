import LoxLang.Proofs.Grammar.Acceptance
import LoxLang.Proofs.Token.Spelling
import LoxLang.Proofs.Tree.Proper

/-!
# Parsed trees are proper

A tree that is derived from tokens that are spelled as their kinds ask is proper
(`Grammar.Derives.proper`), and so is what is parsed without an error from a text
(`properEach_of_parse`).
-/

namespace LoxLang

namespace Grammar

open Parse (Level)

variable {nearest : Bool}

/-- The tree of a nonterminal is proper; that of a statement declares nothing besides. -/
def Nonterminal.ProperTree : (n : Nonterminal) → n.Tree → Prop
  | .expression, e | .level _, e | .call, e | .primary, e => e.Proper
  | .arguments, es => Expr.ProperEach es
  | .parameters, params => ∀ p ∈ params, p.lexeme ≠ thisName
  | .clause, e? => Expr.Proper? e?
  | .expressionStatement, s | .statement _, s => s.declared? = none ∧ s.Proper
  | .varDeclaration, s | .declaration, s => s.Proper
  | .initializer, s? => ∀ s, s? = some s → s.Proper
  | .block, ss | .declarations, ss => Stmt.ProperEach ss
  | .function, decl => Stmt.ProperFunction decl
  | .functions, decls => Stmt.ProperFunctions decls

theorem proper_levelTree {l : Level} {left right : Expr Unit} {op : Token} (h : left.Proper)
    (h' : right.Proper) : (levelTree l left op right).Proper := by
  cases l <;> exact ⟨h, h'⟩

theorem proper_loopTree {condition? increment? : Option (Expr Unit)} {body : Stmt Unit}
    {initializer? : Option (Stmt Unit)} (hcondition : Expr.Proper? condition?)
    (hbody : body.declared? = none ∧ body.Proper)
    (hinitializer : ∀ s, initializer? = some s → s.Proper) (hincrement : Expr.Proper? increment?) :
    (loopTree condition? body initializer? increment?).declared? = none ∧
      (loopTree condition? body initializer? increment?).Proper := by
  have hcond : (condition?.getD (.literal (.bool true))).Proper := by
    cases condition? with
    | none => trivial
    | some e => exact hcondition
  cases initializer? with
  | none =>
    cases increment? with
    | none => exact ⟨rfl, hcond, hbody⟩
    | some e => exact ⟨rfl, hcond, rfl, hbody.2, hincrement, trivial⟩
  | some s =>
    cases increment? with
    | none => exact ⟨rfl, hinitializer s rfl, ⟨hcond, hbody⟩, trivial⟩
    | some e => exact ⟨rfl, hinitializer s rfl, ⟨hcond, rfl, hbody.2, hincrement, trivial⟩, trivial⟩

theorem ne_this_of_spelled {t : Token} (h : t.Spelled) (ht : t.is .identifier = true) :
    t.lexeme ≠ thisName := by
  intro hthis
  have := h.1 ht
  rw [hthis] at this
  exact absurd this (by decide)

/-- What is derived from tokens that are spelled as their kinds ask is proper. -/
theorem Derives.proper {n : Nonterminal} {w : List Token} {t : n.Tree} (h : Derives nearest n w t)
    (hw : ∀ t ∈ w, t.Spelled) : n.ProperTree t := by
  -- every part is derived from tokens of the whole, so that these are spelled in the same way
  induction h with
  | assignName hname _ _ ih =>
    exact ⟨ne_this_of_spelled (hw _ (by simp)) hname, ih fun t ht => hw t (by simp [ht])⟩
  | assignField _ _ _ _ _ ih ih' =>
    exact ⟨ih fun t ht => hw t (by simp [ht]), ih' fun t ht => hw t (by simp [ht])⟩
  | loosest _ ih | operand _ ih | unsigned _ ih | callee _ ih => exact ih hw
  | operator _ _ _ ih ih' =>
    exact proper_levelTree (ih fun t ht => hw t (by simp [ht])) (ih' fun t ht => hw t (by simp [ht]))
  | signed _ _ ih => exact ih fun t ht => hw t (by simp [ht])
  | callEmpty _ _ _ ih => exact ⟨ih fun t ht => hw t (by simp [ht]), trivial⟩
  | call _ _ _ _ _ ih ih' =>
    exact ⟨ih fun t ht => hw t (by simp [ht]), ih' fun t ht => hw t (by simp [ht])⟩
  | property _ _ _ ih => exact ih fun t ht => hw t (by simp [ht])
  | lastArgument _ ih => exact ⟨ih hw, trivial⟩
  | argument _ _ _ ih ih' =>
    exact ⟨ih fun t ht => hw t (by simp [ht]), ih' fun t ht => hw t (by simp [ht])⟩
  | number | string | trueLiteral | falseLiteral | nilLiteral | name => trivial
  | this ht => exact (hw _ (by simp)).2 "this" .thisKw (by decide) ht
  | group _ _ _ ih => exact ih fun t ht => hw t (by simp [ht])
  | noClause => trivial
  | clause _ ih => exact ih hw
  | expressionStatement _ _ ih => exact ⟨rfl, ih fun t ht => hw t (by simp [ht])⟩
  | plain _ ih => exact ih hw
  | print _ _ _ ih => exact ⟨rfl, ih fun t ht => hw t (by simp [ht])⟩
  | ret _ _ _ ih => exact ⟨rfl, ih fun t ht => hw t (by simp [ht])⟩
  | blockStatement _ ih => exact ⟨rfl, ih hw⟩
  | whileLoop _ _ _ _ _ ih ih' =>
    exact ⟨rfl, ih fun t ht => hw t (by simp [ht]), ih' fun t ht => hw t (by simp [ht])⟩
  | forLoop _ _ _ _ _ _ _ _ ihu ihv ihx ihw =>
    exact proper_loopTree (ihv fun t ht => hw t (by simp [ht])) (ihw fun t ht => hw t (by simp [ht]))
      (ihu fun t ht => hw t (by simp [ht])) (ihx fun t ht => hw t (by simp [ht]))
  | ifThen _ _ _ _ _ ih ih' =>
    exact ⟨rfl, ih fun t ht => hw t (by simp [ht]), ih' fun t ht => hw t (by simp [ht])⟩
  | ifElse _ _ _ _ _ _ _ _ ih ih' ih'' =>
    obtain ⟨hdecl, hproper⟩ := ih' fun t ht => hw t (by simp [ht])
    exact ⟨rfl, ih fun t ht => hw t (by simp [ht]), hdecl, hproper,
      ih'' fun t ht => hw t (by simp [ht])⟩
  | noInitializer => exact nofun
  | varInitializer _ ih => rintro _ ⟨⟩; exact ih hw
  | expressionInitializer _ ih => rintro _ ⟨⟩; exact (ih hw).2
  | block _ _ _ ih => exact ih fun t ht => hw t (by simp [ht])
  | lastParameter ht =>
    intro p hp
    obtain rfl := List.mem_singleton.1 hp
    exact ne_this_of_spelled (hw p (by simp)) ht
  | parameter ht _ _ ih =>
    intro p hp
    rcases List.mem_cons.1 hp with rfl | hp
    · exact ne_this_of_spelled (hw p (by simp)) ht
    · exact ih (fun t ht => hw t (by simp [ht])) p hp
  | functionEmpty hname _ _ _ ih =>
    exact ⟨ne_this_of_spelled (hw _ (by simp)) hname, nofun, ih fun t ht => hw t (by simp [ht])⟩
  | function hname _ _ _ _ _ ih ih' =>
    exact ⟨ne_this_of_spelled (hw _ (by simp)) hname, ih fun t ht => hw t (by simp [ht]),
      ih' fun t ht => hw t (by simp [ht])⟩
  | noFunction => trivial
  | functions _ _ ih ih' =>
    exact ⟨ih fun t ht => hw t (by simp [ht]), ih' fun t ht => hw t (by simp [ht])⟩
  | varEmpty _ hname _ => exact ⟨ne_this_of_spelled (hw _ (by simp)) hname, trivial⟩
  | var _ hname _ _ _ ih =>
    exact ⟨ne_this_of_spelled (hw _ (by simp)) hname, ih fun t ht => hw t (by simp [ht])⟩
  | classDeclaration _ hname _ _ _ ih =>
    exact ⟨ne_this_of_spelled (hw _ (by simp)) hname, ih fun t ht => hw t (by simp [ht])⟩
  | functionDeclaration _ _ ih => exact ih fun t ht => hw t (by simp [ht])
  | varDeclaration _ ih => exact ih hw
  | statement _ ih => exact (ih hw).2
  | noDeclaration => trivial
  | declarations _ _ ih ih' =>
    exact ⟨ih fun t ht => hw t (by simp [ht]), ih' fun t ht => hw t (by simp [ht])⟩

end Grammar

/-- What is parsed without an error from tokens that are spelled as their kinds ask is proper. -/
theorem properEach_of_parse {tokens : List Token} (hspelled : ∀ t ∈ tokens, t.Spelled)
    (h : (parse tokens).errors = []) : Stmt.ProperEach (parse tokens).statements :=
  ((derives_iff_parse tokens _).2 ⟨h, rfl⟩).proper fun t ht =>
    hspelled t ((List.takeWhile_sublist _).subset ht)

end LoxLang
