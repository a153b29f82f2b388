import LoxLang.Proofs.Alike.Session
import LoxLang.Proofs.Token.Lines

/-!
# A source below another one

The program of two sources, the second one below the first, is the program of the first and then that
of the second as a session would read it next (`program_join`).  The check of both finds what it finds
in each of them (`check_append`), so that the two together are accepted if each of them is
(`accepts_join`), and run with the distances that the second would run with after the first
(`bindingsFor_join`).
-/

namespace LoxLang

open Scoping

/-! ### Parsing -/

theorem Grammar.Derives.append {nearest : Bool} {w w' : List Token} {ss ss' : List (Stmt Unit)}
    (h : Derives nearest .declarations w ss) (h' : Derives nearest .declarations w' ss') :
    Derives nearest .declarations (w ++ w') (ss ++ ss') := by
  induction ss generalizing w with
  | nil =>
    cases h
    exact h'
  | cons s ss ih =>
    cases h with
    | declarations hs hss =>
      rw [List.append_assoc]
      exact .declarations hs (ih hss)

namespace Session

/-- Two sources without errors, one below the other, have the statements of both. -/
theorem read_join {A B : String} (hA : readErrors A = []) (hB : readErrors B = []) :
    readErrors (A ++ "\n" ++ B) = [] ∧
      statementsOf (A ++ "\n" ++ B) = statementsOf A ++ statementsOf (below (linesOf A) B) := by
  obtain ⟨hlexical, hparsed⟩ := readErrors_eq_nil_iff.1 hA
  obtain ⟨hlexical', hparsed'⟩ := readErrors_eq_nil_iff.1 (read_below hB (linesOf A)).1
  obtain ⟨tokens, end', htokens, hend, hothers, hjoin⟩ := tokensOf_scan_join hlexical B
  have hfirst := (derives_iff_parse (tokensOf (scan A)) _).2 ⟨hparsed, rfl⟩
  have hsecond := (derives_iff_parse _ _).2 ⟨hparsed', rfl⟩
  -- the end of the input after the first source is not there any more
  have htake (rest : List Token) :
      (tokens ++ rest).takeWhile (!·.isEnd) = tokens ++ rest.takeWhile (!·.isEnd) :=
    List.takeWhile_append_of_pos fun t ht => by rw [hothers t ht]; rfl
  have hlast : [end'].takeWhile (!·.isEnd) = [] := by simp [hend]
  rw [htokens, htake, hlast, List.append_nil] at hfirst
  have hboth := hfirst.append hsecond
  rw [← htake, ← hjoin, ← htokens] at hboth
  obtain ⟨herrors, hstatements⟩ := (derives_iff_parse _ _).1 hboth
  exact ⟨readErrors_eq_nil_iff.2
    ⟨lexicalErrors_join hlexical (readErrors_eq_nil_iff.1 hB).1, herrors⟩, hstatements⟩

end Session

/-! ### Numbering -/

section

variable {α : Type}

theorem numberOccurrences_cons (n : NodeId) (s : Stmt α) (P : List (Stmt α)) :
    numberOccurrences n (s :: P) =
      ((s.relabel freshId n).1 :: (numberOccurrences (s.relabel freshId n).2 P).1,
        (numberOccurrences (s.relabel freshId n).2 P).2) := rfl

/-- The second statements are numbered after the first ones. -/
theorem numberOccurrences_append (n : NodeId) (P Q : List (Stmt α)) :
    numberOccurrences n (P ++ Q) =
      ((numberOccurrences n P).1 ++ (numberOccurrences (numberOccurrences n P).2 Q).1,
        (numberOccurrences (numberOccurrences n P).2 Q).2) := by
  induction P generalizing n with
  | nil => rfl
  | cons s P ih =>
    rw [List.cons_append, numberOccurrences_cons, numberOccurrences_cons, ih, List.cons_append]

end

/-! ### Scope checking -/

theorem stmts_append (ctx : Context) (P Q : List (Stmt NodeId)) :
    stmts ctx (P ++ Q) = stmts ctx P ++ stmts ctx Q := by
  induction P with
  | nil => rw [List.nil_append, stmts, Pass.skip_append]
  | cons s P ih => rw [List.cons_append, stmts, stmts, ih, Pass.append_assoc]

theorem check_append (P Q : List (Stmt NodeId)) :
    check (P ++ Q) =
      ⟨(check P).errors ++ (check Q).errors, (check P).uses ++ (check Q).uses⟩ := by
  rw [check, stmts_append, Pass.append_apply, scopes_program]
  rfl

/-! ### Sessions -/

namespace Session

/-- The second session has read the source after the first one, whatever it has run since. -/
structure Follows (s : Session) (source : String) (s₁ : Session) : Prop where
  bindings : s₁.bindings = s.bindingsFor source
  nextId : s₁.nextId = s.nextAfter source

section

variable {s s₁ : Session} {A B : String} (hA : s.accepts A = true) (hB : s.accepts B = true)

include hA hB

/-- The program of both is the program of the first, and then that of the second. -/
theorem program_join (h : s.Follows A s₁) :
    s.program (A ++ "\n" ++ B) = s.program A ++ s₁.program (below (linesOf A) B) := by
  rw [program_eq, program_eq s₁, h.nextId,
    (read_join (accepts_iff.1 hA).1 (accepts_iff.1 hB).1).2, numberOccurrences_append]
  rfl

theorem check_join (h : s.Follows A s₁) :
    check (s.program (A ++ "\n" ++ B)) =
      ⟨(check (s.program A)).errors ++ (check (s₁.program (below (linesOf A) B))).errors,
        (check (s.program A)).uses ++ (check (s₁.program (below (linesOf A) B))).uses⟩ := by
  rw [program_join hA hB h, check_append]

/-- The distances of both are those that the first and then the second leave. -/
theorem bindingsFor_join (h : s.Follows A s₁) :
    s.bindingsFor (A ++ "\n" ++ B) = s₁.bindingsFor (below (linesOf A) B) := by
  rw [bindingsFor, check_join hA hB h, Bindings.recordUses, List.foldl_append]
  change (s.bindingsFor A).recordUses _ = s₁.bindings.recordUses _
  rw [h.bindings]

/-- Two accepted sources are accepted as one. -/
theorem accepts_join : s.accepts (A ++ "\n" ++ B) = true := by
  have hbelow := accepts_below hB (linesOf A)
  rw [← accepts_eq s (s.loaded A)] at hbelow
  refine accepts_iff.2 ⟨(read_join (accepts_iff.1 hA).1 (accepts_iff.1 hB).1).1, ?_⟩
  have hfollows : s.Follows A (s.loaded A) := ⟨rfl, rfl⟩
  rw [check_join hA hB hfollows]
  exact List.append_eq_nil_iff.2 ⟨check_program hA, check_program hbelow⟩

end

end Session

end LoxLang
