import LoxLang.Proofs.Parse.Leads

/-!
# Statements without their semicolon

An expression, a `print`, a `return` or a variable declaration ends with a semicolon.  If a token that
closes a block or begins a statement comes instead (`Resumes`), then the parser fails there, with all
tokens before it taken (`Unclosed`): it expects the semicolon, or after a bare `return` an expression.
-/

namespace LoxLang

namespace Parse

open Grammar

variable {α β : Type} {tokens rest : List Token}

/-! ### A token that closes a block or begins a statement -/

/-- A closing brace or a keyword that starts a statement is next. -/
def Resumes (tokens : List Token) : Prop :=
  ∃ t ts, tokens = t :: ts ∧ (.rightBrace :: statementStarts).any t.is = true

theorem Resumes.stops {symbols : List Symbol} (h : Resumes tokens)
    (hs : ∀ s ∈ .rightBrace :: statementStarts, s ∉ symbols) : Stops symbols tokens := by
  obtain ⟨t, ts, rfl, ht⟩ := h
  obtain ⟨s, hmem, his⟩ := List.any_eq_true.1 ht
  exact stops_of_is his (hs s hmem)

theorem Resumes.not_stops (h : Resumes tokens) (hs : Stops (.rightBrace :: statementStarts) tokens) :
    False := by
  obtain ⟨t, ts, rfl, ht⟩ := h
  simp [hs t rfl] at ht

theorem Resumes.of_append {R rest : List Token} (h : Resumes (R ++ rest)) (hR : R ≠ []) :
    Resumes R := by
  obtain ⟨t, ts, heq, ht⟩ := h
  cases R with
  | nil => exact absurd rfl hR
  | cons t' R =>
    obtain ⟨rfl, -⟩ := List.cons.inj heq
    exact ⟨t', R, rfl, ht⟩

/-- No operand begins there. -/
theorem Resumes.fails_unary (h : Resumes rest) :
    Fails unary rest ⟨rest.head?, .expected .expression⟩ rest := by
  have hprimary : Fails primary rest ⟨rest.head?, .expected .expression⟩ rest := by
    have hatom : Settles (fun _ => take? atom?) rest none rest := by
      obtain ⟨t, ts, rfl, ht⟩ := h
      obtain ⟨s, hmem, his⟩ := List.any_eq_true.1 ht
      have hkind : t.kind = .symbol s := TokenKind.is_iff.1 his
      have : atom? t = none := by
        simp only [statementStarts, List.mem_cons, List.not_mem_nil, or_false] at hmem
        rcases hmem with rfl | rfl | rfl | rfl | rfl | rfl | rfl | rfl | rfl <;>
          simp only [atom?, hkind]
      exact .of_eq (by simp only [take?, this])
    refine .enter (.bind hatom (.accepts_none (h.stops (by decide)) .rfl)) ⟨0, fun _ _ => rfl⟩
  refine .enter (.bind (q := fun _ => acceptAny [.bang, .minus]) (a := none) ?_ .rfl) hprimary.bind
  exact .of_eq (acceptAny_of_stops (h.stops (by decide)))

theorem fails_operand {e : Mistake} (h : Fails unary tokens e rest) (l? : Option Level) :
    Fails (operand · l?) tokens e rest := by
  have hlevel {l : Level} (hl : Fails (operand · l.operands) tokens e rest) :
      Fails (operand · (some l)) tokens e rest := .enter .rfl hl.bind
  have hnone : Fails (operand · none) tokens e rest := .enter .rfl h
  have hcomparison : Fails (operand · (some .comparison)) tokens e rest :=
    hlevel (hlevel (l := .term) (hlevel (l := .factor) hnone))
  have hor : Fails (operand · (some .or)) tokens e rest :=
    hlevel (hlevel (l := .and) (hlevel (l := .equality) hcomparison))
  match l? with
  | none => exact hnone
  | some .factor => exact hlevel hnone
  | some .term => exact hlevel (hlevel (l := .factor) hnone)
  | some .comparison => exact hcomparison
  | some .equality => exact hlevel hcomparison
  | some .and => exact hlevel (hlevel (l := .equality) hcomparison)
  | some .or => exact hor

theorem Resumes.fails_expression (h : Resumes rest) :
    Fails expression rest ⟨rest.head?, .expected .expression⟩ rest :=
  .enter .rfl (fails_operand h.fails_unary (some .or)).bind

/-! ### A statement without its semicolon -/

/-- What is found missing where a semicolon is: the semicolon, or after a `return` an expression. -/
def missing : List Expectation := [.variableEnd, .printEnd, .returnEnd, .expressionEnd, .expression]

/-- At any token that closes a block or begins a statement, `p` fails after these tokens. -/
def Unclosed (p : Nat → Parser α) (A : List Token) : Prop :=
  ∃ what ∈ missing, ∀ rest, Resumes rest → Fails p (A ++ rest) ⟨rest.head?, .expected what⟩ rest

theorem Unclosed.enter {p q : Nat → Parser α} {A : List Token} (pre : List Token)
    (h : ∀ X, Leads (fun fuel => p (fuel + 1)) (pre ++ (A ++ X)) q (A ++ X)) (hq : Unclosed q A) :
    Unclosed p (pre ++ A) := by
  obtain ⟨what, hwhat, hfails⟩ := hq
  refine ⟨what, hwhat, fun rest hrest => ?_⟩
  rw [List.append_assoc]
  exact .enter (h _) (hfails rest hrest)

theorem Unclosed.bind {q : Nat → Parser α} {f : Nat → α → Parser β} {A : List Token}
    (hq : Unclosed q A) : Unclosed (fun fuel => q fuel >>= f fuel) A := by
  obtain ⟨what, hwhat, hfails⟩ := hq
  exact ⟨what, hwhat, fun rest hrest => (hfails rest hrest).bind⟩

/-- An expression, or another part that is read up to there, and no semicolon after it. -/
theorem Unclosed.of_settles {q : Nat → Parser α} {f : Nat → α → Parser β} {a : α} {A : List Token}
    {what : Expectation} (hwhat : what ∈ missing)
    (hq : ∀ rest, Resumes rest → Settles q (A ++ rest) a rest) :
    Unclosed (fun fuel => do
      let a ← q fuel
      skip .semicolon what
      f fuel a) A :=
  ⟨what, hwhat, fun rest hrest => .after (hq rest hrest) (.bind (.skip (hrest.stops (by decide))))⟩

section

variable {w : List Token} {e : Expr Unit}

theorem settles_expression (he : Derives true .expression w e) (hrest : Resumes rest) :
    Settles expression (w ++ rest) e rest := completeness he rest (hrest.stops (by decide))

theorem unclosed_expression (he : Derives true .expression w e) : Unclosed expressionStatement w :=
  .of_settles (by decide) fun _ hrest => settles_expression he hrest

/-- A statement that no keyword begins. -/
theorem leads_plain (h : Stops statementKeywords tokens) :
    Leads (fun fuel => statement (fuel + 1)) tokens expressionStatement tokens := by
  have hno (s : Symbol) (hs : s ∈ statementKeywords) : Stops [s] tokens := h.not_is hs
  refine .accepts_none (hno _ (by decide)) (.accepts_none (hno _ (by decide)) ?_)
  refine .accepts_none (hno _ (by decide)) (.accepts_none (hno _ (by decide)) ?_)
  refine .accepts_none (hno _ (by decide)) (.bind (settles_accept_none (hno _ (by decide))) ?_)
  exact .rfl

theorem unclosed_plain (he : Derives true .expression w e) : Unclosed statement w :=
  .enter [] (fun X => leads_plain ((starts he).stops rfl (by decide) X)) (unclosed_expression he)

theorem leads_print {keyword : Token} (hk : keyword.is .printKw = true) (X : List Token) :
    Leads (fun fuel => statement (fuel + 1)) (keyword :: X) (fun fuel => do
      let value ← expression fuel
      skip .semicolon .printEnd
      return .print value) X := by
  refine .accepts_none (stops_of_is hk (by decide)) (.accepts_none (stops_of_is hk (by decide)) ?_)
  exact .accepts hk .rfl

theorem unclosed_print {keyword : Token} (hk : keyword.is .printKw = true)
    (he : Derives true .expression w e) : Unclosed statement (keyword :: w) :=
  .enter [keyword] (fun _ => leads_print hk _)
    (.of_settles (by decide) fun _ hrest => settles_expression he hrest)

theorem leads_return {keyword : Token} (hk : keyword.is .returnKw = true) (X : List Token) :
    Leads (fun fuel => statement (fuel + 1)) (keyword :: X) (fun fuel => do
      let value? ← expressionBefore fuel .semicolon
      skip .semicolon .returnEnd
      return .ret keyword value?) X := by
  refine .accepts_none (stops_of_is hk (by decide)) (.accepts_none (stops_of_is hk (by decide)) ?_)
  refine .accepts_none (stops_of_is hk (by decide)) (.accepts_none (stops_of_is hk (by decide)) ?_)
  exact .accepts_none (stops_of_is hk (by decide)) (.bind (settles_accept hk) .rfl)

/-- Without a semicolon an expression is expected after `return`. -/
theorem unclosed_return {keyword : Token} {e? : Option (Expr Unit)} (hk : keyword.is .returnKw = true)
    (he : Derives true .clause w e?) : Unclosed statement (keyword :: w) := by
  refine .enter [keyword] (fun _ => leads_return hk _) ?_
  cases he with
  | noClause =>
    refine ⟨.expression, by decide, fun rest hrest => .bind (.after (settles_sees_none ?_) ?_)⟩
    · exact hrest.stops (by decide)
    · exact hrest.fails_expression.map
  | @clause _ e he =>
    refine .of_settles (a := some e) (by decide) fun rest hrest => ?_
    exact .sees_none ((starts he).stops rfl (by decide) rest) (.map (settles_expression he hrest))

theorem leads_var {keyword : Token} (hk : keyword.is .varKw = true) (X : List Token) :
    Leads (fun fuel => declaration (fuel + 1)) (keyword :: X) varDeclaration X :=
  .accepts_none (stops_of_is hk (by decide)) (.accepts_none (stops_of_is hk (by decide))
    (.accepts hk .rfl))

theorem unclosed_varEmpty {keyword name : Token} (hk : keyword.is .varKw = true)
    (hname : name.is .identifier = true) : Unclosed declaration [keyword, name] := by
  refine .enter [keyword] (fun _ => leads_var hk _) ⟨.variableEnd, by decide, fun rest hrest => ?_⟩
  refine .after (settles_expect _ hname) (.after (settles_accepts_none (hrest.stops (by decide))) ?_)
  exact .after (.pure none) (.bind (.skip (hrest.stops (by decide))))

theorem unclosed_var {keyword name equals : Token} (hk : keyword.is .varKw = true)
    (hname : name.is .identifier = true) (heq : equals.is .equal = true)
    (he : Derives true .expression w e) :
    Unclosed declaration (keyword :: name :: equals :: w) := by
  refine .enter [keyword] (fun _ => leads_var hk _) ⟨.variableEnd, by decide, fun rest hrest => ?_⟩
  refine .after (settles_expect _ hname) (.after (settles_accepts heq) ?_)
  exact .after (.map (settles_expression he hrest)) (.bind (.skip (hrest.stops (by decide))))

end

end Parse

end LoxLang
