import LoxLang.Command
import LoxLang.Proofs.Alike.Session
import LoxLang.Proofs.Text.Utf8

/-!
# Stages and their gates

A source is scanned, parsed, scope checked and run.  Scanning and parsing always run to their end; what
comes after them does so only if there was no error before (`Session.run_gated`).  The commands on files
show the errors of the stages that they go through, and their exit status says whether there were any
(`stages_gate_and_exit`).
-/

namespace LoxLang

open Evaluation

/-! ### The errors of a stage -/

namespace Session

/-- The errors of scanning a source. -/
def scanErrors (source : String) : List Diagnostic := (lexicalErrorsOf (scan source)).map .lexical

/-- The errors of parsing the tokens of a source. -/
def parseErrors (source : String) : List Diagnostic :=
  (parse (tokensOf (scan source))).errors.map .syntactic

/-- The errors of checking the scopes of the statements of a source. -/
def scopeErrors (source : String) : List Diagnostic :=
  (Scoping.check (numberOccurrences 0 (statementsOf source)).1).errors.map .scoping

theorem readErrors_eq (source : String) : readErrors source = scanErrors source ++ parseErrors source :=
  rfl

/-- Whatever numbers a session gives to the occurrences of a source, the errors are the same. -/
theorem scopeErrors_eq (s : Session) (source : String) :
    (Scoping.check (s.program source)).errors.map .scoping = scopeErrors source :=
  congrArg (List.map Diagnostic.scoping) (check_errors_eq (start none (.startingAt 0)) s source)

/-! ### Gates -/

/-- The source is refused with these errors: nothing is printed, and the machine with all its variables
is the one before. -/
structure Refuses (s : Session) (fuel : Nat) (source : String) (errors : List Diagnostic) : Prop where
  report : (s.run fuel source).1 = ⟨.staticError, .empty, errors⟩
  machine : (s.run fuel source).2.machine = s.machine

/-- How a program that runs can end: without an error, with one error, or not with this fuel. -/
inductive Ends : Outcome → List Diagnostic → Prop where
  | ok : Ends .ok []
  | failed (e : RunError) : Ends .runtimeError [.running e]
  | unfinished : Ends .unfinished []

theorem ends_conclude (s : Session) (r : EStateM.Result Unwind Machine Unit) :
    Ends (s.conclude r).1.outcome (s.conclude r).1.errors := by
  cases r with
  | ok a m => exact .ok
  | error u m =>
    cases u with
    | returned v => exact .ok
    | stopped stop =>
      cases stop with
      | failed e => exact .failed e
      | exhausted => exact .unfinished

/-- Errors of scanning and parsing are reported together, and keep a source from the scope check; its
errors keep the source from running. -/
theorem run_gated (s : Session) (fuel : Nat) (source : String) :
    (scanErrors source ++ parseErrors source ≠ [] ∧
        s.Refuses fuel source (scanErrors source ++ parseErrors source)) ∨
      (scanErrors source ++ parseErrors source = [] ∧ scopeErrors source ≠ [] ∧
        s.Refuses fuel source (scopeErrors source)) ∨
      (scanErrors source ++ parseErrors source = [] ∧ scopeErrors source = [] ∧
        Ends (s.run fuel source).1.outcome (s.run fuel source).1.errors) := by
  rw [← readErrors_eq, ← scopeErrors_eq s]
  by_cases hread : readErrors source = []
  · refine .inr ?_
    by_cases hscopes : (Scoping.check (s.program source)).errors = []
    · refine .inr ⟨hread, by rw [hscopes]; rfl, ?_⟩
      rw [run_accepted (accepts_iff.2 ⟨hread, hscopes⟩)]
      exact ends_conclude _ _
    · exact .inl ⟨hread, by rwa [ne_eq, List.map_eq_nil_iff],
        by rw [run_misscoped hread hscopes], by rw [run_misscoped hread hscopes]⟩
  · exact .inl ⟨hread, by rw [run_unread hread], by rw [run_unread hread]⟩

theorem Ends.errors_of_ok {errors : List Diagnostic} (h : Ends .ok errors) : errors = [] := by
  cases h
  rfl

theorem Ends.eq_running {outcome : Outcome} {errors : List Diagnostic} (h : Ends outcome errors)
    {d : Diagnostic} (hd : d ∈ errors) : ∃ e, d = .running e := by
  cases h with
  | ok => cases hd
  | failed e => exact ⟨e, List.mem_singleton.1 hd⟩
  | unfinished => cases hd

theorem Ends.ne_staticError {outcome : Outcome} {errors : List Diagnostic} (h : Ends outcome errors) :
    outcome ≠ .staticError := by
  cases h <;> simp

variable {s : Session} {fuel : Nat} {source : String}

theorem errors_of_ok (h : (s.run fuel source).1.outcome = .ok) : (s.run fuel source).1.errors = [] := by
  rcases s.run_gated fuel source with ⟨-, hrefused⟩ | ⟨-, -, hrefused⟩ | ⟨-, -, hends⟩
  · rw [hrefused.report] at h
    cases h
  · rw [hrefused.report] at h
    cases h
  · rw [h] at hends
    exact hends.errors_of_ok

/-- Whatever a run reports is an error of one of the stages. -/
theorem mem_errors {d : Diagnostic} (hd : d ∈ (s.run fuel source).1.errors) :
    (∃ e ∈ lexicalErrorsOf (scan source), d = .lexical e) ∨
      (∃ e ∈ (parse (tokensOf (scan source))).errors, d = .syntactic e) ∨
      (readErrors source = [] ∧ ∃ e ∈ (Scoping.check (s.program source)).errors, d = .scoping e) ∨
      (s.accepts source = true ∧ ∃ e, d = .running e) := by
  rcases s.run_gated fuel source with ⟨-, hrefused⟩ | ⟨hread, -, hrefused⟩ | ⟨hread, hscopes, hends⟩
  · rw [hrefused.report] at hd
    rcases List.mem_append.1 hd with hd | hd
    · obtain ⟨e, he, rfl⟩ := List.mem_map.1 hd
      exact .inl ⟨e, he, rfl⟩
    · obtain ⟨e, he, rfl⟩ := List.mem_map.1 hd
      exact .inr (.inl ⟨e, he, rfl⟩)
  · rw [hrefused.report, ← scopeErrors_eq s] at hd
    obtain ⟨e, he, rfl⟩ := List.mem_map.1 hd
    exact .inr (.inr (.inl ⟨hread, e, he, rfl⟩))
  · rw [← scopeErrors_eq s] at hscopes
    exact .inr (.inr (.inr
      ⟨accepts_iff.2 ⟨hread, List.map_eq_nil_iff.1 hscopes⟩, hends.eq_running hd⟩))

theorem printed_of_staticError (h : (s.run fuel source).1.outcome = .staticError) :
    (s.run fuel source).1.printed = .empty := by
  rcases s.run_gated fuel source with ⟨-, hrefused⟩ | ⟨-, -, hrefused⟩ | ⟨-, -, hends⟩
  · rw [hrefused.report]
  · rw [hrefused.report]
  · exact absurd h hends.ne_staticError

end Session

/-! ### What a command shows -/

/-- The report on a source of which a stage has found these errors. -/
structure Report.ShowsErrors (r : Report) (errors : List Diagnostic) : Prop where
  err : r.err = diagnosticLines errors
  silent : r.err = "" ↔ errors = []
  failure : r.exit = exitDataError ↔ errors ≠ []
  success : r.exit = 0 ↔ errors = []

/-- The report on a source that was run.  A run without an end has no exit status. -/
structure Report.ShowsRun (r : Report) (run : RunReport) : Prop where
  err : r.err = diagnosticLines run.errors
  out : r.out = Text.Utf8.decodeLossy run.printed
  ok : run.outcome = .ok → r.exit = 0 ∧ r.err = ""
  staticError : run.outcome = .staticError → r.exit = exitDataError ∧ r.out = ""
  runtimeError : run.outcome = .runtimeError → r.exit = exitRunError

/-- Nothing on standard error means that there was no diagnostic. -/
theorem diagnosticLines_eq_empty_iff {ds : List Diagnostic} : diagnosticLines ds = "" ↔ ds = [] := by
  cases ds with
  | nil => simp [diagnosticLines, lines]
  | cons d ds => simp [diagnosticLines, lines]

theorem showsErrors_exitForSource (errors : List Diagnostic) (out : String) :
    Report.ShowsErrors ⟨exitForSource errors, out, diagnosticLines errors⟩ errors := by
  refine ⟨rfl, diagnosticLines_eq_empty_iff, ?_, ?_⟩
  · cases errors <;> simp [exitForSource, exitDataError]
  · cases errors <;> simp [exitForSource, exitDataError]

/-- The report on a run shows its errors and says how it ended. -/
theorem showsRun_runReport (fuel : Nat) (clock : Clock) (source : String) :
    (runReport fuel clock source).ShowsRun ((Session.start none clock).run fuel source).1 := by
  have hok : ((Session.start none clock).run fuel source).1.outcome = .ok → _ :=
    Session.errors_of_ok
  have hstatic : ((Session.start none clock).run fuel source).1.outcome = .staticError → _ :=
    Session.printed_of_staticError
  rw [runReport]
  -- what the run is does not matter any more
  generalize (Session.start none clock).run fuel source = run at hok hstatic ⊢
  obtain ⟨run, after⟩ := run
  exact {
    err := rfl
    out := rfl
    ok := fun h => ⟨congrArg Outcome.exit h, congrArg diagnosticLines (hok h)⟩
    staticError := fun h => ⟨congrArg Outcome.exit h,
      (congrArg Text.Utf8.decodeLossy (hstatic h)).trans Text.Utf8.decodeLossy_empty⟩
    runtimeError := fun h => congrArg Outcome.exit h }

/-- The report on a file with the text of a source is the report on the source. -/
theorem FileCommand.report_toUTF8 (fuel : Nat) (clock : Clock) (path source : String)
    (c : FileCommand) :
    c.report fuel clock path (.ok source.toUTF8) = match c with
      | run => runReport fuel clock source
      | tokenize json => tokenizeReport json source
      | parse => parseReport source := by
  have hcontents : ((Except.ok source.toUTF8 : Except FileFailure ByteArray).bind fun bytes =>
      (Text.Utf8.decode bytes).mapError FileFailure.notText) = .ok source := by
    show (Text.Utf8.decode source.toUTF8).mapError FileFailure.notText = _
    rw [Text.Utf8.decode_toUTF8]
    rfl
  unfold report fileReport
  rw [hcontents]
  cases c <;> rfl

/-- Each stage reports errors of its own kind.  In every session, errors of scanning and parsing are the
whole report if there are any, and else errors of the scope check; a source with either prints nothing and
changes no variable, and any other source ends without an error or with a single error of running.  On a
file with the text of the source, the command that shows the tokens reports the errors of scanning, the one
that shows the statements those of scanning and parsing, and the one that runs it what the run in a new
session reports, each on standard error and with the exit status for it. -/
theorem stages_gate_and_exit (source : String) :
    (∀ d ∈ Session.scanErrors source, ∃ e, d = .lexical e) ∧
      (∀ d ∈ Session.parseErrors source, ∃ e, d = .syntactic e) ∧
      (∀ d ∈ Session.scopeErrors source, ∃ e, d = .scoping e) ∧
      (∀ (s : Session) (fuel : Nat),
        (Session.scanErrors source ++ Session.parseErrors source ≠ [] ∧
            s.Refuses fuel source (Session.scanErrors source ++ Session.parseErrors source)) ∨
          (Session.scanErrors source ++ Session.parseErrors source = [] ∧
            Session.scopeErrors source ≠ [] ∧ s.Refuses fuel source (Session.scopeErrors source)) ∨
          (Session.scanErrors source ++ Session.parseErrors source = [] ∧
            Session.scopeErrors source = [] ∧
            Session.Ends (s.run fuel source).1.outcome (s.run fuel source).1.errors)) ∧
      ∀ (fuel : Nat) (clock : Clock) (path : String),
        (∀ json, ((FileCommand.tokenize json).report fuel clock path (.ok source.toUTF8)).ShowsErrors
            (Session.scanErrors source)) ∧
          (FileCommand.parse.report fuel clock path (.ok source.toUTF8)).ShowsErrors
            (Session.scanErrors source ++ Session.parseErrors source) ∧
          (FileCommand.run.report fuel clock path (.ok source.toUTF8)).ShowsRun
            ((Session.start none clock).run fuel source).1 := by
  refine ⟨fun d hd => ?_, fun d hd => ?_, fun d hd => ?_, fun s fuel => s.run_gated fuel source,
    fun fuel clock path => ⟨fun json => ?_, ?_, ?_⟩⟩
  · obtain ⟨e, -, rfl⟩ := List.mem_map.1 hd
    exact ⟨e, rfl⟩
  · obtain ⟨e, -, rfl⟩ := List.mem_map.1 hd
    exact ⟨e, rfl⟩
  · obtain ⟨e, -, rfl⟩ := List.mem_map.1 hd
    exact ⟨e, rfl⟩
  · rw [FileCommand.report_toUTF8]
    exact showsErrors_exitForSource _ _
  · rw [FileCommand.report_toUTF8]
    exact showsErrors_exitForSource _ _
  · rw [FileCommand.report_toUTF8]
    exact showsRun_runReport fuel clock source

end LoxLang
