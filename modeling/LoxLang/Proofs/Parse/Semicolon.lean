import LoxLang.Proofs.Parse.Interrupted

/-!
# A missing semicolon

`parse_without_semicolon` says what a missing semicolon costs, in an accepted program and before a token
that closes a block or begins a statement.  The mistake is found at that token and comes first.  Recovery
skips the token, although it is a statement boundary, and goes on to the next one; what it skips is lost
besides the statement itself (`next_statement_is_lost`).
-/

namespace LoxLang

namespace Parse

open Grammar

/-! ### The whole input -/

/-- The declaration at the top level that the semicolon is part of. -/
theorem exists_top {w A R : List Token} {semi : Token} {ss : List (Stmt Unit)}
    (h : Derives true .declarations w ss) (hsevered : Severed w A semi R) :
    ∃ A₁ A₂ R₁ R₂ before s after, A = A₁ ++ A₂ ∧ R = R₁ ++ R₂ ∧ ss = before ++ s :: after ∧
      Derives true .declarations A₁ before ∧ Derives true .declaration (A₂ ++ semi :: R₁) s ∧
      Derives true .declarations R₂ after := by
  induction ss generalizing w A with
  | nil =>
    cases h
    exact (hsevered.not_plain plain_nil).elim
  | cons s ss ih =>
    cases h with
    | @declarations u w _ _ hs hss =>
      rcases hsevered.split with ⟨A', rfl, hlater⟩ | ⟨R', rfl, hnow⟩
      · obtain ⟨A₁, A₂, R₁, R₂, before, s', after, rfl, hR, rfl, hbefore, hs', hafter⟩ := ih hss hlater
        exact ⟨u ++ A₁, A₂, R₁, R₂, s :: before, s', after, by simp, hR, rfl,
          .declarations hs hbefore, hs', hafter⟩
      · exact ⟨[], A, R', w, [], s, ss, rfl, rfl, rfl, .noDeclaration, hnow.eq ▸ hs, hss⟩

theorem parse_of_derives_all {w : List Token} {program : List (Stmt Unit)}
    (h : Derives true .declarations w program) (hw : ∀ t ∈ w, t.isEnd = false) :
    parse w = ⟨program, []⟩ := by
  have hnil : parse [] = ⟨[], []⟩ := rfl
  simpa [hnil] using parse_of_derives h hw (B := []) nofun

/-- A mistake that is reported first, and what the other tokens yield. -/
theorem parse_of_costs {c : Prop} {e : Mistake} {tokens tokens' : List Token}
    (h : Costs c e (declarations · false) tokens tokens') (hw : ∀ t ∈ tokens, t.isEnd = false)
    (hw' : ∀ t ∈ tokens', t.isEnd = false) :
    ∃ statements later, parse tokens = ⟨statements, e.locate 0 :: later⟩ ∧
      (c → parse tokens' = ⟨statements, later⟩) := by
  obtain ⟨n, hn⟩ := h
  obtain ⟨ss, rest, reported, hread, hparse⟩ := exists_declarations tokens
  obtain ⟨ss', rest', reported', hread', hparse'⟩ := exists_declarations tokens'
  rw [body_of_noEnd hw] at hread
  rw [body_of_noEnd hw'] at hread'
  rw [endLine_of_noEnd hw] at hparse
  rw [endLine_of_noEnd hw'] at hparse'
  obtain ⟨r, hr, hr'⟩ := hn (max n (max (fuelFor tokens) (fuelFor tokens'))) (by omega)
  have hall := (hread _ (by omega)).symm.trans hr
  cases r with
  | done a left later =>
    simp only [Reply.after, Reply.done.injEq, List.cons_append, List.nil_append] at hall
    obtain ⟨rfl, rfl, rfl⟩ := hall
    refine ⟨ss, later.map (·.locate 0), by rw [hparse, List.map_cons], fun hc => ?_⟩
    obtain ⟨rfl, -, rfl⟩ := Reply.done.inj ((hread' _ (by omega)).symm.trans (hr' hc))
    exact hparse'
  | failed e' left later => cases hall
  | starved => cases hall

end Parse

open Parse Grammar

/-- An accepted program without a semicolon that closed a statement, before a token that closes a block
or begins the next statement.  The mistake is found at this token, and it comes first.  Recovery skips the
token itself and stops at the next boundary; from there everything is parsed as if the declaration that
ended with the semicolon were not there, except that it cannot be told what an `else` belongs to.  Had
recovery stopped at the token, no other mistake would follow.  The statements before the one that contained
the semicolon are returned. -/
theorem parse_without_semicolon {A B : List Token} {semi next : Token}
    (hend : ∀ t ∈ A ++ semi :: next :: B, t.isEnd = false)
    (haccepted : (parse (A ++ semi :: next :: B)).errors = [])
    (hsemi : semi.is .semicolon = true)
    (hnext : (.rightBrace :: statementStarts).any next.is = true) :
    ∃ outer inner s what statements later,
      A = outer ++ inner ∧ parse (inner ++ [semi]) = ⟨[s], []⟩ ∧
      what ∈ missing ∧ parse (A ++ next :: B) = ⟨statements, ⟨next.site, .expected what⟩ :: later⟩ ∧
      ((∀ t, (synchronize (next :: B)).head? = some t → t.is .elseKw = false) →
        parse (outer ++ synchronize (next :: B)) = ⟨statements, later⟩) ∧
      (parse (outer ++ next :: B)).errors = [] ∧
      ∃ A₁ A₂ B₁ B₂ s', A = A₁ ++ A₂ ∧ next :: B = B₁ ++ B₂ ∧
        parse (A₂ ++ semi :: B₁) = ⟨[s'], []⟩ ∧
        (parse (A ++ semi :: next :: B)).statements =
          (parse A₁).statements ++ s' :: (parse B₂).statements ∧
        statements = (parse A₁).statements ++ (parse (A₂ ++ next :: B)).statements := by
  have hderives := (derives_iff_parse (A ++ semi :: next :: B) _).2 ⟨haccepted, rfl⟩
  rw [← body, body_of_noEnd hend] at hderives
  have hresumes : Resumes (next :: B) := ⟨next, B, rfl, hnext⟩
  have hsevered : Severed (A ++ semi :: next :: B) A semi (next :: B) :=
    ⟨rfl, hsemi, fun _ => hresumes⟩
  obtain ⟨hendA, hends⟩ := List.forall_mem_append.1 hend
  obtain ⟨hendsemi, hendB⟩ := List.forall_mem_cons.1 hends
  -- the declaration at the top level that contains the semicolon
  obtain ⟨A₁, A₂, B₁, B₂, before, s', after, hA, hB, hstatements, hbefore, hs', hafter⟩ :=
    exists_top hderives hsevered
  rw [hA] at hendA
  rw [hB] at hendB
  obtain ⟨hendA₁, hendA₂⟩ := List.forall_mem_append.1 hendA
  obtain ⟨hendB₁, hendB₂⟩ := List.forall_mem_append.1 hendB
  rw [← hA] at hendA
  rw [← hB] at hendB
  have hbefore' := parse_of_derives_all hbefore hendA₁
  have hs'' : parse (A₂ ++ semi :: B₁) = ⟨[s'], []⟩ := by
    refine parse_of_derives_all ?_ (List.forall_mem_append.2 ⟨hendA₂,
      List.forall_mem_cons.2 ⟨hendsemi, hendB₁⟩⟩)
    simpa using Derives.declarations hs' .noDeclaration
  have helse : Stops [.elseKw] (A₂ ++ next :: B) := by
    have hne : A₂ ≠ [] := by
      rintro rfl
      have := starts hs' .semicolon hsemi
      exact absurd this (by decide)
    exact stops_of_begins (starts hs') hne (by decide) _
  -- the declaration that is broken off, and what it costs
  obtain ⟨outer, inner, rfl, ⟨rest, hrest⟩, ⟨s, hs⟩, what, hwhat, hcosts⟩ :=
    cut_of_derives hderives A semi (next :: B) hsevered false
  obtain ⟨hendo, hendi⟩ := List.forall_mem_append.1 hendA
  have hsync : synchronize (next :: B) <:+ B := synchronize_suffix_tail _
  have hcosts := hcosts [] (by simpa using hresumes)
  rw [List.append_nil, ← List.append_assoc] at hcosts
  obtain ⟨statements, later, hparse, hlater⟩ := parse_of_costs hcosts
    (List.forall_mem_append.2 ⟨hendA, hendB⟩)
    (List.forall_mem_append.2 ⟨hendo, fun t ht => hendB t (.tail _ (hsync.subset ht))⟩)
  refine ⟨outer, inner, s, what, statements, later, rfl, ?_, hwhat, hparse, fun h => hlater ?_, ?_,
    A₁, A₂, B₁, B₂, s', hA, hB, hs'', ?_, ?_⟩
  · refine parse_of_derives_all ?_ (List.forall_mem_append.2 ⟨hendi,
      List.forall_mem_singleton.2 hendsemi⟩)
    simpa using Derives.declarations hs .noDeclaration
  · exact fun t ht => by simpa using h t ht
  · have hrest : Derives true .declarations (outer ++ next :: B) rest := hrest
    rw [parse_of_derives_all hrest (List.forall_mem_append.2 ⟨hendo, hendB⟩)]
  · rw [hstatements, hbefore', parse_of_derives_all hafter hendB₂]
  · have hall := parse_of_derives hbefore hendA₁ helse
    rw [← List.append_assoc, ← hA, hparse] at hall
    rw [hbefore']
    exact (Parsed.mk.inj hall).1

/-- A semicolon that is missing in the body of a function.  Recovery skips the `return` at which this is
found and the semicolon after it, and the function is closed where it should be. -/
theorem missing_before_return :
    let a : Token := ⟨.symbol .identifier, "a", 1⟩
    let semi : Token := ⟨.symbol .semicolon, ";", 1⟩
    let next : Token := ⟨.symbol .returnKw, "return", 1⟩
    let A : List Token := [⟨.symbol .funKw, "fun", 1⟩, a, ⟨.symbol .leftParen, "(", 1⟩,
      ⟨.symbol .rightParen, ")", 1⟩, ⟨.symbol .leftBrace, "\x7b", 1⟩, a]
    let B : List Token := [semi, ⟨.symbol .rightBrace, "\x7d", 1⟩, a, semi]
    (∀ t ∈ A ++ semi :: next :: B, t.isEnd = false) ∧
      (parse (A ++ semi :: next :: B)).errors = [] ∧ semi.is .semicolon = true ∧
      (.rightBrace :: statementStarts).any next.is = true ∧
      parse (A ++ next :: B) = ⟨[.function ⟨(), a, [], []⟩, .expr (.var () a)],
        [⟨⟨1, some "return"⟩, .expected .expressionEnd⟩]⟩ ∧
      ∃ outer inner s what statements later,
        A = outer ++ inner ∧ parse (inner ++ [semi]) = ⟨[s], []⟩ ∧
        what ∈ missing ∧ parse (A ++ next :: B) = ⟨statements, ⟨next.site, .expected what⟩ :: later⟩ ∧
        ((∀ t, (synchronize (next :: B)).head? = some t → t.is .elseKw = false) →
          parse (outer ++ synchronize (next :: B)) = ⟨statements, later⟩) ∧
        (parse (outer ++ next :: B)).errors = [] ∧
        ∃ A₁ A₂ B₁ B₂ s', A = A₁ ++ A₂ ∧ next :: B = B₁ ++ B₂ ∧
          parse (A₂ ++ semi :: B₁) = ⟨[s'], []⟩ ∧
          (parse (A ++ semi :: next :: B)).statements =
            (parse A₁).statements ++ s' :: (parse B₂).statements ∧
          statements = (parse A₁).statements ++ (parse (A₂ ++ next :: B)).statements := by
  intro a semi next A B
  have hend : ∀ t ∈ A ++ semi :: next :: B, t.isEnd = false := by decide
  have haccepted : (parse (A ++ semi :: next :: B)).errors = [] := by decide
  exact ⟨hend, haccepted, rfl, rfl, rfl, parse_without_semicolon hend haccepted rfl rfl⟩

/-- A missing semicolon costs the statement that follows as well, when its keyword is where this is found,
and before a closing brace there is a second mistake. -/
theorem next_statement_is_lost :
    let a : Token := ⟨.symbol .identifier, "a", 1⟩
    let b : Token := ⟨.symbol .identifier, "b", 1⟩
    let semi : Token := ⟨.symbol .semicolon, ";", 1⟩
    let print : Token := ⟨.symbol .printKw, "print", 1⟩
    let T : List Token := [print, a, semi, print, b, semi]
    let T' : List Token := [⟨.symbol .leftBrace, "\x7b", 1⟩, print, a, semi,
      ⟨.symbol .rightBrace, "\x7d", 1⟩]
    (∀ t ∈ T ++ T', t.isEnd = false) ∧
      parse T = ⟨[.print (.var () a), .print (.var () b)], []⟩ ∧
      parse (T.eraseIdx 2) = ⟨[], [⟨⟨1, some "print"⟩, .expected .printEnd⟩]⟩ ∧
      parse T' = ⟨[.block [.print (.var () a)]], []⟩ ∧
      parse (T'.eraseIdx 3) = ⟨[], [⟨⟨1, some "\x7d"⟩, .expected .printEnd⟩,
        ⟨⟨0, none⟩, .expected .blockEnd⟩]⟩ := by
  intro a b semi print T T'
  exact ⟨by decide, rfl, rfl, rfl, rfl⟩

end LoxLang
