import Mathlib
import LoxLang.Proofs.Session.Answers
import LoxLang.Proofs.Token.Respaced

/-!
# Running a source with other text between its lexemes

Blanks and comments do not matter: a text with the lexemes of a source runs as the source does, and its
errors differ in their lines only (`respaced_runs_alike`).  The tokens of the two are similar, whatever
relates their places, so that the parser, the scope check and the evaluator find the same in both.
-/

namespace LoxLang

open Scoping Evaluation

/-! ### Errors without their lines -/

/-- The site without its line. -/
def Site.unplaced (s : Site) : Site := { s with line := 0 }

/-- The diagnostic without its line. -/
def Diagnostic.unplaced : Diagnostic → Diagnostic
  | lexical e => lexical { e with line := 0 }
  | syntactic e => syntactic { e with site := e.site.unplaced }
  | scoping e => scoping { e with site := e.site.unplaced }
  | running (.fault _ f) => running (.fault 0 f)
  | running .sinkFull => running .sinkFull

theorem Site.unplaced_eq {s s' : Site} (h : s'.lexeme? = s.lexeme?) : s'.unplaced = s.unplaced := by
  rw [unplaced, unplaced, h]

theorem SyntaxError.Similar.unplaced {e e' : SyntaxError} (h : e.Similar e') :
    (Diagnostic.syntactic e').unplaced = (Diagnostic.syntactic e).unplaced := by
  rw [Diagnostic.unplaced, Diagnostic.unplaced, h.fault, Site.unplaced_eq h.lexeme?]

theorem ScopeError.Similar.unplaced {K : Token → Token → Prop} {e e' : ScopeError}
    (h : e.Similar K e') : (Diagnostic.scoping e').unplaced = (Diagnostic.scoping e).unplaced := by
  obtain ⟨ht⟩ := h
  rw [Diagnostic.unplaced, Diagnostic.unplaced, Site.unplaced_eq ht.lexeme?_eq]

theorem RunError.Alike.unplaced {d : Difference} (hd : d.new = d.old) {e e' : RunError}
    (h : e.Alike d e') : (Diagnostic.running e').unplaced = (Diagnostic.running e).unplaced := by
  cases h with
  | fault _ => rfl
  | undefined _ => rw [hd]; rfl
  | sinkFull => rfl

/-- Lists that are related one by one have the same images. -/
theorem map_eq_of_forall₂ {α β γ : Type} {R : α → β → Prop} {f : α → γ} {g : β → γ} {xs : List α}
    {ys : List β} (h : List.Forall₂ R xs ys) (hR : ∀ x y, R x y → g y = f x) :
    ys.map g = xs.map f := by
  induction h with
  | nil => rfl
  | cons hxy _ ih => rw [List.map_cons, List.map_cons, hR _ _ hxy, ih]

/-- Tokens that are the same but for their lines are similar. -/
theorem similar_of_unplaced {ts ts' : List Token}
    (h : ts'.map Token.unplaced = ts.map Token.unplaced) :
    List.Forall₂ (Token.Similar fun _ _ => True) ts ts' := by
  have hsame : List.Forall₂ (fun t t' : Token => t'.unplaced = t.unplaced) ts ts' := by
    have heq : List.Forall₂ Eq (ts'.map Token.unplaced) (ts.map Token.unplaced) := by
      rw [List.forall₂_eq_eq_eq]
      exact h
    exact (List.forall₂_map_right_iff.1 (List.forall₂_map_left_iff.1 heq)).flip
  refine hsame.imp fun t t' ht => ?_
  obtain ⟨hkind, hlexeme, -⟩ := Token.mk.inj ht
  exact ⟨trivial, hkind, hlexeme⟩

/-! ### Sources with similar tokens -/

/-- The reports say the same but for the lines of the errors. -/
structure RunReport.SameButLines (r r' : RunReport) : Prop where
  outcome : r'.outcome = r.outcome
  printed : r'.printed = r.printed
  errors : r'.errors.map Diagnostic.unplaced = r.errors.map Diagnostic.unplaced

theorem RunReport.Alike.sameButLines {d : Difference} (hd : d.new = d.old) {r r' : RunReport}
    (h : r.Alike d r') : r.SameButLines r' where
  outcome := h.outcome
  printed := h.printed
  errors := by
    refine map_eq_of_forall₂ h.errors fun e e' he => ?_
    obtain ⟨x, x', rfl, rfl, hx⟩ := he
    exact hx.unplaced hd

namespace Session

section

variable {s : Session} {d : Difference} {source source' : String}

/-- Two sources without lexical errors whose tokens are the same but for their lines. -/
structure SameTokens (source source' : String) : Prop where
  lexical : lexicalErrorsOf (scan source) = []
  lexical' : lexicalErrorsOf (scan source') = []
  tokens : (tokensOf (scan source')).map Token.unplaced = (tokensOf (scan source)).map Token.unplaced

theorem SameTokens.parsed (h : SameTokens source source') :
    (parse (tokensOf (scan source))).Similar (fun _ _ => True) (parse (tokensOf (scan source'))) :=
  parse_similar (similar_of_unplaced h.tokens)

theorem SameTokens.readErrors_eq (h : SameTokens source source') :
    (readErrors source').map Diagnostic.unplaced = (readErrors source).map Diagnostic.unplaced := by
  have hread {source : String} (hlexical : lexicalErrorsOf (scan source) = []) :
      readErrors source = (parse (tokensOf (scan source))).errors.map .syntactic := by
    rw [Session.readErrors, hlexical]
    rfl
  rw [hread h.lexical, hread h.lexical', List.map_map, List.map_map]
  exact map_eq_of_forall₂ h.parsed.errors fun e e' he => he.unplaced

/-- The scope check finds the same in both sources but for the lines. -/
theorem SameTokens.check_eq (h : SameTokens source source') (s : Session) :
    ((check (s.program source')).errors.map .scoping).map Diagnostic.unplaced =
      ((check (s.program source)).errors.map .scoping).map Diagnostic.unplaced := by
  obtain ⟨k, -, -, hsimilar⟩ := programs_similar s s h.parsed.statements
  have herrors := (check_similar (hsimilar (fun _ _ => True) fun _ _ => trivial)).errors
  rw [List.map_map, List.map_map]
  exact map_eq_of_forall₂ herrors fun e e' he => he.unplaced

theorem SameTokens.readErrors_iff (h : SameTokens source source') :
    readErrors source' = [] ↔ readErrors source = [] := by
  rw [← List.map_eq_nil_iff, h.readErrors_eq, List.map_eq_nil_iff]

theorem SameTokens.check_iff (h : SameTokens source source') (s : Session) :
    (check (s.program source')).errors = [] ↔ (check (s.program source)).errors = [] := by
  have heq := h.check_eq s
  rw [← List.map_eq_nil_iff, ← List.map_eq_nil_iff, heq, List.map_eq_nil_iff, List.map_eq_nil_iff]

/-- The two sources run alike. -/
theorem Twin.run_sameTokens (htwin : s.Twin d s) (hd : d.Plain) (h : SameTokens source source')
    (fuel : Nat) : (s.run fuel source).1.SameButLines (s.run fuel source').1 := by
  by_cases hread : readErrors source = []
  · have hread' := h.readErrors_iff.2 hread
    by_cases hscopes : (check (s.program source)).errors = []
    · obtain ⟨d₁, hadds, htwin₁, halike⟩ := htwin.load h.parsed.statements fun _ _ => True
      have hrun := htwin₁.runLoaded (accepts_iff.2 ⟨hread, hscopes⟩)
        (accepts_iff.2 ⟨hread', (h.check_iff s).2 hscopes⟩) (halike h.parsed.statements) fuel
      refine hrun.2.sameButLines ?_
      rw [hadds.within.new, hadds.within.old, hd.names]
    · rw [run_misscoped hread hscopes, run_misscoped hread' (mt (h.check_iff s).1 hscopes)]
      exact ⟨rfl, rfl, h.check_eq s⟩
  · rw [run_unread hread, run_unread (mt h.readErrors_iff.1 hread)]
    exact ⟨rfl, rfl, h.readErrors_eq⟩

end

end Session

/-! ### Other text between the lexemes -/

/-- Blanks and comments have no meaning.  A text that consists of the lexemes of a source, with blanks
and comments before them, and after each a blank with further blanks and comments that only the last
one can do without, reads as the tokens of the source but for their lines.  And after any steps of a
session it runs as the source does, with the same outcome and the same output, and with the same errors
but for their lines. -/
theorem respaced_runs_alike {limit? : Option Nat} {clock : Clock} {steps : List SessionStep}
    {s : Session} (hs : s = (Session.start limit? clock).after steps) {source : String}
    (hsource : lexicalErrorsOf (scan source) = []) {tokens : List Token} {last : Token}
    (htokens : tokensOf (scan source) = tokens ++ [last]) {w text : String}
    (hw : Scan.Filler w.toList) (htext : Spaced tokens text) :
    lexicalErrorsOf (scan (w ++ text)) = [] ∧
      (tokensOf (scan (w ++ text))).map Token.unplaced =
        (tokensOf (scan source)).map Token.unplaced ∧
      ∀ fuel, (s.run fuel source).1.SameButLines (s.run fuel (w ++ text)).1 := by
  obtain ⟨d, hd, -, htwin⟩ := Session.twin_after limit? clock steps
  rw [← hs] at htwin
  obtain ⟨hlexical, hsame⟩ := scan_respaced htokens hw htext
  exact ⟨hlexical, hsame, fun fuel => htwin.run_sameTokens hd ⟨hsource, hlexical, hsame⟩ fuel⟩

/-- A comment before the lexemes of a source, and one after a division. -/
theorem comment_after_division :
    let s := (Session.start none (.startingAt 0)).after [.run 40 "var mark = \"!\";"]
    let source := "mark/missing;"
    let text := "mark" ++ " " ++ ("/" ++ " //;\n" ++ ("missing" ++ "\n" ++ ";"))
    lexicalErrorsOf (scan source) = [] ∧
      (s.run 40 source).1.errors = [.running (.fault 1 (.undefinedVariable "missing"))] ∧
      (s.run 40 ("// note\n" ++ text)).1.errors =
        [.running (.fault 3 (.undefinedVariable "missing"))] ∧
      (s.run 40 source).1.SameButLines (s.run 40 ("// note\n" ++ text)).1 := by
  intro s source text
  have hsource : lexicalErrorsOf (scan source) = [] := by decide +kernel
  have htokens : tokensOf (scan source) =
      [⟨.symbol .identifier, "mark", 1⟩, ⟨.symbol .slash, "/", 1⟩,
        ⟨.symbol .identifier, "missing", 1⟩, ⟨.symbol .semicolon, ";", 1⟩] ++
        [⟨.symbol .endOfInput, "", 1⟩] := by cbv
  have hcomment : Separator " //;\n" :=
    ⟨' ', '/' :: '/' :: ([';'] ++ ['\n']), by decide, by decide, .comment (by decide) .nil⟩
  have hspace : Separator " " := ⟨' ', [], by decide, by decide, .nil⟩
  have hbreak : Separator "\n" := ⟨'\n', [], by decide, by decide, .nil⟩
  have hnote : Scan.Filler ('/' :: '/' :: (" note".toList ++ ['\n'])) := .comment (by decide) .nil
  obtain ⟨-, -, hruns⟩ := respaced_runs_alike (s := s) rfl hsource htokens (w := "// note\n") hnote
    (.cons _ hspace (.cons _ hcomment (.cons _ hbreak (.last _))))
  exact ⟨hsource, by decide +kernel, by decide +kernel, hruns 40⟩

end LoxLang
