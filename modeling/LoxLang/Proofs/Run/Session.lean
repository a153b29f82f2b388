import LoxLang.Proofs.Run.Task
import LoxLang.Session

/-!
# Sessions of several runs

`Session.runAll` runs sources one after another.  A run leaves the machine alone if a check refuses
the source, and otherwise is a run of the evaluator (`Session.run_machine`).
-/

namespace LoxLang

open Evaluation

namespace Session

/-- The session after sources have been run one after another, each with its fuel. -/
def runAll (s : Session) (steps : List (Nat × String)) : Session :=
  steps.foldl (fun s step => (s.run step.1 step.2).2) s

/-- What every run keeps holds after all of them. -/
theorem runAll_induction {P : Session → Prop} (hrun : ∀ s fuel source, P s → P (s.run fuel source).2)
    {s : Session} (hs : P s) (steps : List (Nat × String)) : P (s.runAll steps) := by
  induction steps generalizing s with
  | nil => exact hs
  | cons step steps ih => exact ih (hrun s step.1 step.2 hs)

/-- The statements of a source. -/
def statementsOf (source : String) : List (Stmt Unit) := (parse (tokensOf (scan source))).statements

/-- The program of a source, its names and functions numbered as the session would number them. -/
def program (s : Session) (source : String) : List (Stmt NodeId) :=
  (SourceProgram.of s.nextId source).statements

/-- The session finds no error in the source, so that the source runs. -/
def accepts (s : Session) (source : String) : Bool :=
  (SourceProgram.of s.nextId source).errors.isEmpty &&
    (Scoping.check (s.program source)).errors.isEmpty

/-- The bindings with which an accepted source runs. -/
def bindingsFor (s : Session) (source : String) : Bindings :=
  s.bindings.recordUses (Scoping.check (s.program source)).uses

/-- The machine on which an accepted source begins to run. -/
def ready (s : Session) : Machine := { s.machine with scope := globalFrame, depth := 0 }

/-- The next number for labels after the program of a source. -/
def nextAfter (s : Session) (source : String) : NodeId := (SourceProgram.of s.nextId source).nextId

theorem program_eq (s : Session) (source : String) :
    s.program source = (numberOccurrences s.nextId (statementsOf source)).1 := rfl

/-- The session with a source that is about to run. -/
def loaded (s : Session) (source : String) : Session :=
  ⟨s.ready, s.bindingsFor source, s.nextAfter source⟩

/-- A program is run in the global frame, inside of no call; a `return` at its top level ends it. -/
theorem interpret_eq (b : Bindings) (fuel : Nat) (program : List (Stmt NodeId)) (m : Machine) :
    interpret b fuel program m =
      match execEach b fuel program { m with scope := globalFrame, depth := 0 } with
      | .ok () m => .ok () m
      | .error (.returned _) m => .ok () m
      | .error (.stopped s) m => .error s m := by
  change EStateM.bind (Exec.catchReturn (execEach b fuel program)) _
    { m with scope := globalFrame, depth := 0 } = _
  rw [EStateM.bind, Exec.catchReturn]
  cases execEach b fuel program { m with scope := globalFrame, depth := 0 } with
  | ok a m' => rfl
  | error u m' => cases u <;> rfl

/-- What the run of a program shows and leaves behind, given how its statements ended. -/
def conclude (s : Session) (r : EStateM.Result Unwind Machine Unit) : RunReport × Session :=
  let report := fun outcome (m : Machine) errors =>
    ((⟨outcome, m.sink.written.extract s.machine.sink.written.size m.sink.written.size, errors⟩ :
      RunReport), { s with machine := m })
  match r with
  | .ok () m => report .ok m []
  | .error (.returned _) m => report .ok m []
  | .error (.stopped (.failed e)) m => report .runtimeError m [.running e]
  | .error (.stopped .exhausted) m => report .unfinished m []

theorem execute_eq (s : Session) (fuel : Nat) (program : List (Stmt NodeId)) :
    s.execute fuel program = s.conclude (execEach s.bindings fuel program s.ready) := by
  obtain ⟨machine, bindings, nextId⟩ := s
  simp only [execute, conclude, ready, interpret_eq]
  cases execEach bindings fuel program { machine with scope := globalFrame, depth := 0 } with
  | ok a m => rfl
  | error u m =>
    cases u with
    | returned v => rfl
    | stopped s => cases s <;> rfl

/-- The session after a run differs in its machine. -/
theorem conclude_snd (s : Session) (r : EStateM.Result Unwind Machine Unit) :
    (s.conclude r).2 = { s with machine := finalMachine r } := by
  cases r with
  | ok a m => rfl
  | error u m =>
    cases u with
    | returned v => rfl
    | stopped s => cases s <;> rfl

/-- A source without errors runs. -/
theorem run_accepted {s : Session} {source : String} (h : s.accepts source = true) (fuel : Nat) :
    s.run fuel source =
      (s.loaded source).conclude
        (execEach (s.bindingsFor source) fuel (s.program source) s.ready) := by
  rw [accepts, Bool.and_eq_true] at h
  obtain ⟨hread, hscopes⟩ := h
  rw [program] at hscopes
  simp only [run, hread, Bool.not_true, Bool.false_eq_true, if_false, checkScopes, hscopes,
    List.isEmpty_map, execute_eq]
  rfl

theorem run_of_accepts {s : Session} {source : String} (h : s.accepts source = true) (fuel : Nat) :
    (s.run fuel source).2 =
      ⟨(Task.execEach (s.program source)).after (s.bindingsFor source) fuel s.ready,
        s.bindingsFor source, (SourceProgram.of s.nextId source).nextId⟩ := by
  rw [run_accepted h, conclude_snd]
  rfl

/-- The errors of reading and parsing a source. -/
def readErrors (source : String) : List Diagnostic :=
  (lexicalErrorsOf (scan source)).map .lexical ++
    (parse (tokensOf (scan source))).errors.map .syntactic

theorem accepts_iff {s : Session} {source : String} :
    s.accepts source = true ↔
      readErrors source = [] ∧ (Scoping.check (s.program source)).errors = [] := by
  rw [accepts, Bool.and_eq_true, List.isEmpty_iff, List.isEmpty_iff]
  rfl

theorem readErrors_eq_nil_iff {source : String} :
    readErrors source = [] ↔ lexicalErrorsOf (scan source) = [] ∧
      (parse (tokensOf (scan source))).errors = [] := by
  rw [readErrors, List.append_eq_nil_iff, List.map_eq_nil_iff, List.map_eq_nil_iff]

/-- A source that cannot be read does not come to the scope check. -/
theorem run_unread {source : String} (h : readErrors source ≠ []) (s : Session) (fuel : Nat) :
    s.run fuel source =
      (⟨.staticError, .empty, readErrors source⟩, { s with nextId := s.nextAfter source }) := by
  have hread : (SourceProgram.of s.nextId source).errors.isEmpty = false := List.isEmpty_eq_false_iff.2 h
  simp only [run, hread, Bool.not_false, if_true]
  rfl

/-- A source with errors of scoping leaves its distances in the table. -/
theorem run_misscoped {s : Session} {source : String} (hread : readErrors source = [])
    (h : (Scoping.check (s.program source)).errors ≠ []) (fuel : Nat) :
    s.run fuel source =
      (⟨.staticError, .empty, (Scoping.check (s.program source)).errors.map .scoping⟩,
        ⟨s.machine, s.bindingsFor source, s.nextAfter source⟩) := by
  have hread : (SourceProgram.of s.nextId source).errors.isEmpty = true := List.isEmpty_iff.2 hread
  have hscopes : (Scoping.check (s.program source)).errors.isEmpty = false :=
    List.isEmpty_eq_false_iff.2 h
  rw [program] at hscopes
  simp only [run, hread, Bool.not_true, Bool.false_eq_true, if_false, checkScopes, hscopes,
    List.isEmpty_map, Bool.not_false, if_true]
  rfl

/-- A source that is not accepted leaves the machine alone. -/
theorem run_of_not_accepts {s : Session} {source : String} (h : s.accepts source = false)
    (fuel : Nat) : ∃ bindings, (bindings = s.bindings ∨ bindings = s.bindingsFor source) ∧
      (s.run fuel source).2 =
        ⟨s.machine, bindings, (SourceProgram.of s.nextId source).nextId⟩ := by
  by_cases hread : readErrors source = []
  · have hscopes : (Scoping.check (s.program source)).errors ≠ [] := fun hscopes => by
      rw [accepts_iff.2 ⟨hread, hscopes⟩] at h
      cases h
    exact ⟨_, .inr rfl, by rw [run_misscoped hread hscopes]; rfl⟩
  · exact ⟨_, .inl rfl, by rw [run_unread hread]; rfl⟩

end Session

end LoxLang
