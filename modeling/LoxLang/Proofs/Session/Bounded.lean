import LoxLang.Proofs.Run.Truncated

/-!
# Sessions with a bounded sink

A bound on the printed text of a session has no effect but to cut the text off
(`bounded_sink_truncates`): the answer is the one without a bound if the text fits, and otherwise the
one part of the text that fits, with one error.
-/

namespace LoxLang

open Evaluation

namespace Session

/-- The session with a sink that takes all text. -/
def unlimited (s : Session) : Session :=
  { s with machine := { s.machine with sink := { s.machine.sink with limit? := none } } }

/-- The session with a sink that takes so many more bytes. -/
def limitedTo (s : Session) (n : Nat) : Session :=
  { s with machine := s.machine.limited (s.machine.sink.written.size + n) }

section

variable {s s' : Session} {r : EStateM.Result Unwind Machine Unit}

theorem conclude_printed (s : Session) (r : EStateM.Result Unwind Machine Unit) :
    (s.conclude r).1.printed = printedBetween s.machine (finalMachine r) := by
  rcases r with _ | ⟨⟨_ | _⟩ | _, _⟩ <;> rfl

theorem size_printedBetween (m m' : Machine) :
    (printedBetween m m').size = m'.sink.written.size - m.sink.written.size := by
  rw [printedBetween, ByteArray.size_extract, Nat.min_self]

/-- The report does not tell whether the sink had a limit. -/
theorem conclude_limitedResult (h : s'.machine.sink.written = s.machine.sink.written) (limit : Nat)
    (r : EStateM.Result Unwind Machine Unit) :
    (s'.conclude (limitedResult limit r)).1 = (s.conclude r).1 := by
  rcases r with _ | ⟨⟨_ | _⟩ | _, _⟩
  all_goals
    simp only [conclude, limitedResult, h]
    rfl

end

end Session

/-- The report is the first one if its text has no more than `n` bytes, and otherwise tells of a full
sink and has the first `n` bytes. -/
structure RunReport.CutAt (n : Nat) (r r' : RunReport) : Prop where
  fits : r.printed.size ≤ n → r' = r
  outcome : n < r.printed.size → r'.outcome = .runtimeError
  printed : n < r.printed.size → r'.printed = r.printed.extract 0 n
  errors : n < r.printed.size → r'.errors = [.running .sinkFull]

namespace Session

/-- A source that does not run prints nothing. -/
theorem cutAt_refused (n : Nat) (errors : List Diagnostic) :
    RunReport.CutAt n ⟨.staticError, .empty, errors⟩ ⟨.staticError, .empty, errors⟩ where
  fits _ := rfl
  outcome h := absurd h (Nat.not_lt_zero n)
  printed h := absurd h (Nat.not_lt_zero n)
  errors h := absurd h (Nat.not_lt_zero n)

/-- The reports on truncated results. -/
theorem conclude_cutAt {s s' : Session} (h : s'.machine.sink.written = s.machine.sink.written)
    {n : Nat} {r r' : EStateM.Result Unwind Machine Unit}
    (htruncated : Truncated (.stopped (.failed .sinkFull)) (s.machine.sink.written.size + n) r r') :
    (s.conclude r).1.CutAt n (s'.conclude r').1 := by
  have hsize : (s.conclude r).1.printed.size = finalSize r - s.machine.sink.written.size := by
    rw [conclude_printed, size_printedBetween, finalSize]
  cases htruncated with
  | fits hfits =>
    have hall : ¬n < (s.conclude r).1.printed.size := by omega
    exact ⟨fun _ => conclude_limitedResult h _ r, fun h => absurd h hall, fun h => absurd h hall,
      fun h => absurd h hall⟩
  | @cut m₁ hcut hwritten =>
    have hcut : s.machine.sink.written.size + n < (finalMachine r).sink.written.size := hcut
    refine ⟨fun hle => ?_, fun _ => rfl, fun _ => ?_, fun _ => rfl⟩
    · rw [hsize, finalSize] at hle
      omega
    have hsize₁ : m₁.sink.written.size = s.machine.sink.written.size + n := by
      rw [hwritten, ByteArray.size_extract]
      exact Nat.min_eq_left (Nat.le_of_lt hcut)
    rw [conclude_printed, conclude_printed, printedBetween, printedBetween, h]
    change m₁.sink.written.extract _ m₁.sink.written.size = _
    rw [hsize₁, hwritten, ByteArray.extract_extract, ByteArray.extract_extract]
    congr 1 <;> omega

end Session

/-- A bound on the printed text cuts it off and does nothing else.  When a source runs in a session
whose sink takes so many more bytes, the outcome, the text and the errors are those without the bound if
the text has no more bytes.  If it has more, then the text is cut off, the run fails, and its one error
is that the sink is full. -/
theorem bounded_sink_truncates (s : Session) (fuel n : Nat) (source : String) :
    (s.unlimited.run fuel source).1.CutAt n ((s.limitedTo n).run fuel source).1 := by
  by_cases hread : Session.readErrors source = []
  · by_cases hscopes : (Scoping.check (s.program source)).errors = []
    · have haccepts := Session.accepts_iff.2 ⟨hread, hscopes⟩
      have htruncated := ((Truncates.all (s.bindingsFor source) fuel).execEach
        (s.program source)).truncated s.unlimited.ready (s.machine.sink.written.size + n) rfl
        (Nat.le_add_right _ _)
      rw [Session.run_accepted (s := s.unlimited) haccepts,
        Session.run_accepted (s := s.limitedTo n) haccepts]
      exact Session.conclude_cutAt rfl htruncated
    · rw [Session.run_misscoped (s := s.unlimited) hread hscopes,
        Session.run_misscoped (s := s.limitedTo n) hread hscopes]
      exact Session.cutAt_refused n _
  · rw [Session.run_unread hread, Session.run_unread hread]
    exact Session.cutAt_refused n _

example : ((Session.start (some 3) (.startingAt 0)).run 40 "print \"abcd\"; missing;").1.errors =
    [.running .sinkFull] := by decide +kernel

end LoxLang
