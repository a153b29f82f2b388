import LoxLang.Proofs.Run.Fuel
import LoxLang.Proofs.Run.Session
import LoxLang.Proofs.Run.Stable

/-!
# Runs that end

`Session.Runs` says that the run of a source ends, and how; with more fuel it ends in the same way, so
that it ends in one way only (`Session.Runs.unique`).  What a run prints follows what was printed before,
and of a run with a machine in between each part prints a part (`Session.conclude_after`).
-/

namespace LoxLang

open Evaluation

namespace Session

variable {s s₁ s₂ : Session} {source : String} {report report₁ report₂ : RunReport}
  {fuel fuel' : Nat}

/-- Given enough fuel the run of the source ends, with the report and the session after it. -/
def Runs (s : Session) (source : String) (report : RunReport) (s' : Session) : Prop :=
  ∃ fuel, s.run fuel source = (report, s') ∧ report.outcome ≠ .unfinished

/-- A run that has ended ends in the same way with more fuel. -/
theorem run_of_le (h : fuel ≤ fuel') (hends : (s.run fuel source).1.outcome ≠ .unfinished) :
    s.run fuel' source = s.run fuel source := by
  by_cases hread : readErrors source = []
  · by_cases hscopes : (Scoping.check (s.program source)).errors = []
    · have haccepts := accepts_iff.2 ⟨hread, hscopes⟩
      rw [run_accepted haccepts] at hends
      rw [run_accepted haccepts, run_accepted haccepts,
        (execEach_extend_of_le _ h _).eq_of_ne fun m hm => hends (by rw [hm]; rfl)]
    · rw [run_misscoped hread hscopes, run_misscoped hread hscopes]
  · rw [run_unread hread, run_unread hread]

theorem runs_of_outcome (h : (s.run fuel source).1.outcome ≠ .unfinished) :
    s.Runs source (s.run fuel source).1 (s.run fuel source).2 := ⟨fuel, rfl, h⟩

theorem Runs.outcome_ne (h : s.Runs source report s₁) : report.outcome ≠ .unfinished := by
  obtain ⟨fuel, -, hends⟩ := h
  exact hends

/-- The run of a source that ends does so with any fuel from some amount on. -/
theorem Runs.exists_fuel (h : s.Runs source report s₁) :
    ∃ fuel, ∀ fuel' ≥ fuel, s.run fuel' source = (report, s₁) := by
  obtain ⟨fuel, hrun, hends⟩ := h
  refine ⟨fuel, fun fuel' hle => ?_⟩
  rw [run_of_le hle (by rw [hrun]; exact hends), hrun]

/-- The run of a source ends in one way only. -/
theorem Runs.unique (h₁ : s.Runs source report₁ s₁) (h₂ : s.Runs source report₂ s₂) :
    report₁ = report₂ ∧ s₁ = s₂ := by
  obtain ⟨fuel₁, hrun₁⟩ := h₁.exists_fuel
  obtain ⟨fuel₂, hrun₂⟩ := h₂.exists_fuel
  exact Prod.mk.inj ((hrun₁ _ (Nat.le_max_left fuel₁ fuel₂)).symm.trans
    (hrun₂ _ (Nat.le_max_right fuel₁ fuel₂)))

end Session

/-! ### Printed text -/

/-- What the second machine has printed begins with what the first one had. -/
def PrintsOn (m m' : Machine) : Prop := ∃ text, m'.sink.written = m.sink.written ++ text

theorem printsOn_stable : Stable PrintsOn where
  refl _ := ⟨.empty, ByteArray.append_empty.symm⟩
  trans := by
    rintro m m' m'' ⟨text, h⟩ ⟨text', h'⟩
    exact ⟨text ++ text', by rw [h', h, ByteArray.append_assoc]⟩
  addFrame _ _ := ⟨.empty, ByteArray.append_empty.symm⟩
  addFunction _ _ := ⟨.empty, ByteArray.append_empty.symm⟩
  addClass _ _ := ⟨.empty, ByteArray.append_empty.symm⟩
  addInstance _ _ := ⟨.empty, ByteArray.append_empty.symm⟩
  define _ _ _ _ := ⟨.empty, ByteArray.append_empty.symm⟩
  setField _ _ _ _ := ⟨.empty, ByteArray.append_empty.symm⟩
  print _ _ := ⟨_, rfl⟩
  tick _ := ⟨.empty, ByteArray.append_empty.symm⟩
  inCall := id
  inFrame := id

/-- The text printed between two machines. -/
def printedBetween (m m' : Machine) : ByteArray :=
  m'.sink.written.extract m.sink.written.size m'.sink.written.size

theorem printedBetween_eq {m m' : Machine} {text : ByteArray}
    (h : m'.sink.written = m.sink.written ++ text) : printedBetween m m' = text := by
  rw [printedBetween, h, ByteArray.extract_append_eq_right rfl ByteArray.size_append]

theorem printedBetween_trans {m m' m'' : Machine} (h : PrintsOn m m') (h' : PrintsOn m' m'') :
    printedBetween m m'' = printedBetween m m' ++ printedBetween m' m'' := by
  obtain ⟨text, h⟩ := h
  obtain ⟨text', h'⟩ := h'
  have hboth : m''.sink.written = m.sink.written ++ (text ++ text') := by
    rw [h', h, ByteArray.append_assoc]
  rw [printedBetween_eq h, printedBetween_eq h', printedBetween_eq hboth]

/-- The report of a run that has printed a text before. -/
def RunReport.after (text : ByteArray) (r : RunReport) : RunReport :=
  { r with printed := text ++ r.printed }

namespace Session

/-- The report of a run says what was printed up to a machine in between and after it. -/
theorem conclude_after (s : Session) {m : Machine} (h : PrintsOn s.machine m)
    {r : EStateM.Result Unwind Machine Unit} (hr : PrintsOn m (finalMachine r)) :
    s.conclude r =
      (({ s with machine := m } : Session).conclude r).map
        (RunReport.after (printedBetween s.machine m)) id := by
  have hprinted := printedBetween_trans h hr
  cases r with
  | ok a m' => exact Prod.ext (congrArg (RunReport.mk _ · _) hprinted) rfl
  | error u m' =>
    cases u with
    | returned v => exact Prod.ext (congrArg (RunReport.mk _ · _) hprinted) rfl
    | stopped stop =>
      cases stop with
      | failed e => exact Prod.ext (congrArg (RunReport.mk _ · _) hprinted) rfl
      | exhausted => exact Prod.ext (congrArg (RunReport.mk _ · _) hprinted) rfl

end Session

end LoxLang
