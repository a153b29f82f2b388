import LoxLang.Proofs.Grammar.Acceptance

/-!
# What follows a declaration

The parser keeps nothing of a declaration that it has left, be it read or given up: the tokens after
it are parsed as they would be on their own (`parse_of_recover`).  So a program that is read without a
mistake keeps its statements whatever follows it, well-formed or not, except for an `else` that it could
still take (`parse_continued`).
-/

namespace LoxLang

namespace Parse

/-- The tokens before the end of the input. -/
def body (tokens : List Token) : List Token := tokens.takeWhile (!·.isEnd)

/-- The line on which the input ends. -/
def endLine (tokens : List Token) : Nat := ((tokens.find? (·.isEnd)).map Token.line).getD 0

section

variable {u : List Token} (hu : ∀ t ∈ u, t.isEnd = false) (B : List Token)
include hu

theorem body_append : body (u ++ B) = u ++ body B :=
  List.takeWhile_append_of_pos fun t ht => by rw [hu t ht]; rfl

theorem endLine_append : endLine (u ++ B) = endLine B := by
  have hnone : u.find? (·.isEnd) = none := List.find?_eq_none.2 fun t ht => by simp [hu t ht]
  rw [endLine, List.find?_append, hnone, Option.none_or, endLine]

end

theorem body_of_noEnd {w : List Token} (hw : ∀ t ∈ w, t.isEnd = false) : body w = w := by
  simpa [body] using body_append hw []

theorem endLine_of_noEnd {w : List Token} (hw : ∀ t ∈ w, t.isEnd = false) : endLine w = 0 := by
  simpa [endLine] using endLine_append hw []

theorem stops_body {symbols : List Symbol} {tokens : List Token} (h : Stops symbols tokens) :
    Stops symbols (body tokens) := by
  cases tokens with
  | nil => exact h
  | cons t ts =>
    rw [body, List.takeWhile_cons]
    split
    · exact h
    · exact nofun

/-- One round: a declaration, read or given up, and then the others. -/
theorem declarations_round {fuel : Nat} {tokens : List Token} (h : tokens ≠ []) :
    declarations (fuel + 1) false tokens =
      (do let first? ← recover (declaration fuel)
          return first?.toList ++ (← declarations fuel false)) tokens := by
  cases tokens with
  | nil => exact absurd rfl h
  | cons t ts =>
    rw [declarations, bind_apply]
    exact Reply.after_nil _

/-- With enough fuel all declarations before the end are read or given up. -/
theorem exists_declarations (tokens : List Token) : ∃ ss rest reported,
    (∀ fuel, fuelFor (body tokens) ≤ fuel →
      declarations fuel false (body tokens) = .done ss rest reported) ∧
      parse tokens = ⟨ss, reported.map (·.locate (endLine tokens))⟩ := by
  have henough := declarations_ne_starved false (body tokens)
  cases h : declarations (fuelFor (body tokens)) false (body tokens) with
  | done ss rest reported =>
    refine ⟨ss, rest, reported, fun fuel hfuel => ?_, ?_⟩
    · rw [← h]
      exact (declarations_extend_of_le hfuel false).eq_of_ne_starved henough
    · unfold body at h
      rw [parse, h]
      rfl
  | failed e rest reported => exact absurd h (neverFails_declarations _ _ _ _ _ _)
  | starved => exact absurd h henough

end Parse

open Parse

/-- If the parser is through with a declaration after the tokens of `u`, then it goes on as if it began
there.  Its mistakes at the end of the input are placed where the whole input ends. -/
theorem parse_of_recover {u B : List Token} {fuel : Nat} {first? : Option (Stmt Unit)}
    {reported : List Mistake} (hu : ∀ t ∈ u, t.isEnd = false) (hne : u ≠ [])
    (h : recover (declaration fuel) (u ++ body B) = .done first? (body B) reported) :
    parse (u ++ B) = ⟨first?.toList ++ (parse B).statements,
      reported.map (·.locate (endLine B)) ++ (parse B).errors⟩ := by
  obtain ⟨ss, rest, later, hB, hparseB⟩ := exists_declarations B
  obtain ⟨ss', rest', all, hboth, hparse⟩ := exists_declarations (u ++ B)
  rw [body_append hu] at hboth
  -- fuel for the declaration, for those after it, and for all of them
  obtain ⟨more, hfuel, hfuelB, hfuel'⟩ : ∃ more, fuel ≤ more ∧ fuelFor (body B) ≤ more ∧
      fuelFor (u ++ body B) ≤ more :=
    ⟨fuel + fuelFor (body B) + fuelFor (u ++ body B), by omega, by omega, by omega⟩
  have hfirst : recover (declaration more) (u ++ body B) = .done first? (body B) reported := by
    rw [← h]
    exact (declaration_extend_of_le hfuel).recover.eq_of_ne_starved (by rw [h]; nofun)
  have hround : declarations (more + 1) false (u ++ body B) =
      .done (first?.toList ++ ss) rest (reported ++ later) := by
    rw [declarations_round (List.append_ne_nil_of_left_ne_nil hne _), bind_apply, hfirst]
    simp [bind_apply, hB more hfuelB, Reply.after]
  rw [hboth (more + 1) (by omega)] at hround
  injection hround with hss _ hall
  rw [hparse, hparseB, hss, hall, endLine_append hu, List.map_append]

/-- Declarations that are read without a mistake are read in the same way whatever comes next, unless it
is an `else`; and what comes next is parsed as it would be on its own. -/
theorem parse_of_derives {A B : List Token} {program : List (Stmt Unit)}
    (h : Grammar.Derives true .declarations A program) (hA : ∀ t ∈ A, t.isEnd = false)
    (helse : Stops [.elseKw] B) :
    parse (A ++ B) = ⟨program ++ (parse B).statements, (parse B).errors⟩ := by
  induction program generalizing A with
  | nil =>
    cases h
    rfl
  | cons s ss ih =>
    cases h with
    | @declarations u w _ _ hs hss =>
      have hu (t : Token) (ht : t ∈ u) := hA t (List.mem_append_left w ht)
      have hw (t : Token) (ht : t ∈ w) := hA t (List.mem_append_right u ht)
      have hstops : Stops [.elseKw] (body (w ++ B)) := by
        rw [body_append hw]
        exact (Grammar.starts hss).stops_append (by decide) (stops_body helse)
      obtain ⟨n, hread⟩ := (Grammar.completeness hs _ hstops).recover
      have hne : u ≠ [] := by
        rintro rfl
        exact nomatch Grammar.starts hs
      rw [List.append_assoc, parse_of_recover hu hne (hread n (Nat.le_refl n)), ih hss hw]
      rfl

/-- A program keeps its statements whatever follows it: parsed together with other tokens, which may not
begin with an `else`, it yields its statements before theirs, and the errors are theirs alone. -/
theorem parse_continued {A B : List Token} (hend : ∀ t ∈ A, t.isEnd = false)
    (haccepted : (parse A).errors = []) (helse : ∀ t, B.head? = some t → t.is .elseKw = false) :
    parse (A ++ B) = ⟨(parse A).statements ++ (parse B).statements, (parse B).errors⟩ := by
  have hderives := (derives_iff_parse A _).2 ⟨haccepted, rfl⟩
  have hbody : A.takeWhile (!·.isEnd) = A := by simpa [body] using body_append hend []
  rw [hbody] at hderives
  exact parse_of_derives hderives hend fun t ht => by simpa using helse t ht

/-- An `if` that could take an `else`, and then a parenthesis that nothing opens and a statement without
its end. -/
theorem conditional_before_garbage :
    let a : Token := ⟨.symbol .identifier, "a", 1⟩
    let A : List Token := [⟨.symbol .ifKw, "if", 1⟩, ⟨.symbol .leftParen, "(", 1⟩, a,
      ⟨.symbol .rightParen, ")", 1⟩, a, ⟨.symbol .semicolon, ";", 1⟩]
    let B : List Token := [⟨.symbol .rightParen, ")", 2⟩, ⟨.symbol .semicolon, ";", 2⟩, a]
    (∀ t ∈ A, t.isEnd = false) ∧ (parse A).errors = [] ∧
      (∀ t, B.head? = some t → t.is .elseKw = false) ∧
      parse (A ++ B) = ⟨[.ifThen (.var () a) (.expr (.var () a))],
        [⟨⟨2, some ")"⟩, .expected .expression⟩, ⟨⟨0, none⟩, .expected .expressionEnd⟩]⟩ := by
  intro a A B
  have hend : ∀ t ∈ A, t.isEnd = false := by decide
  have haccepted : (parse A).errors = [] := by decide
  have helse : ∀ t, B.head? = some t → t.is .elseKw = false := by
    rintro _ ⟨⟩
    rfl
  exact ⟨hend, haccepted, helse, parse_continued hend haccepted helse⟩

end LoxLang
