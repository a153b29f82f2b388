import LoxLang.Diagnostic
import LoxLang.Evaluation
import LoxLang.Tree.Parse

/-!
# Sessions

A session runs one source after another on the same machine, so that later sources see the global
variables of earlier ones.  `Session.run` lets a source run only if reading, parsing and scope
checking find no error in it; `Session.runUngated` runs whatever statements could be read.

* `SourceProgram.of` reads and parses a source and numbers its name occurrences after all numbers
  given out before, so that the bindings of one source never touch those of another;
* every report holds what its own step printed.
-/

namespace LoxLang

/-- A source that has been read and parsed, and the next unused number for name occurrences. -/
structure SourceProgram where
  statements : List (Stmt NodeId)
  nextId : NodeId
  /-- The lexical errors, and after them the syntax errors. -/
  errors : List Diagnostic

/-- Reads and parses a source, numbering its name occurrences from `nextId`. -/
def SourceProgram.of (nextId : NodeId) (source : String) : SourceProgram :=
  let items := scan source
  let parsed := parse (tokensOf items)
  let (statements, nextId) := numberOccurrences nextId parsed.statements
  { statements
    nextId
    errors := (lexicalErrorsOf items).map .lexical ++ parsed.errors.map .syntactic }

/-- What lasts from one source to the next. -/
structure Session where
  machine : Machine
  bindings : Bindings
  nextId : NodeId

/-- How the run of a source ended. -/
inductive Outcome where
  | ok
  /-- The source has errors, and nothing of it ran. -/
  | staticError
  | runtimeError
  /-- The fuel ran out. -/
  | unfinished
  deriving DecidableEq, Repr

/-- What running a source showed: how it ended, what it printed, and its errors. -/
structure RunReport where
  outcome : Outcome
  printed : ByteArray
  errors : List Diagnostic

/-- How the statements of an ungated run ended. -/
inductive Ending where
  | normal
  | failed (e : RunError)
  /-- A `return` that no call caught. -/
  | returned (v : Value)
  | unfinished

/-- What an ungated run showed. -/
structure UngatedReport where
  staticErrors : List Diagnostic
  printed : ByteArray
  ending : Ending

namespace Session

/-- A session before its first source. -/
def start (limit? : Option Nat) (clock : Clock) : Session :=
  ⟨.initial limit? clock, .empty, 0⟩

/-- The value of a global variable. -/
def global? (s : Session) (name : String) : Option Value :=
  s.machine.heap.frames.getHere? globalFrame name

/-- Checks the scoping of a program and notes the bindings it finds. -/
def checkScopes (s : Session) (program : List (Stmt NodeId)) : List Diagnostic × Session :=
  let report := Scoping.check program
  (report.errors.map .scoping, { s with bindings := s.bindings.recordUses report.uses })

/-- Runs a program that has passed every check. -/
def execute (s : Session) (fuel : Nat) (program : List (Stmt NodeId)) : RunReport × Session :=
  let ⟨machine, bindings, nextId⟩ := s
  let size := machine.sink.written.size
  let report := fun outcome (m : Machine) errors =>
    (⟨outcome, m.sink.written.extract size m.sink.written.size, errors⟩,
      (⟨m, bindings, nextId⟩ : Session))
  match Evaluation.interpret bindings fuel program machine with
  | .ok () m => report .ok m []
  | .error (.failed e) m => report .runtimeError m [.running e]
  | .error .exhausted m => report .unfinished m []

/-- Runs a source: errors of reading and parsing keep it from scope checking, and errors of scope
checking from running. -/
def run (s : Session) (fuel : Nat) (source : String) : RunReport × Session :=
  let program := SourceProgram.of s.nextId source
  let s := { s with nextId := program.nextId }
  if !program.errors.isEmpty then (⟨.staticError, .empty, program.errors⟩, s)
  else
    let (errors, s) := s.checkScopes program.statements
    if !errors.isEmpty then (⟨.staticError, .empty, errors⟩, s)
    else s.execute fuel program.statements

/-! ### Without gates -/

/-- Runs statements at the global scope, or else in a frame of their own that no frame lies around
and that is left behind afterwards. -/
def executeUngated (s : Session) (fuel : Nat) (detached : Bool) (program : List (Stmt NodeId)) :
    Ending × Session :=
  let ⟨machine, bindings, nextId⟩ := s
  let back := fun (m : Machine) => (⟨m, bindings, nextId⟩ : Session)
  if detached then
    let (frame, heap) := machine.heap.addFrame ⟨∅, none⟩
    match Exec.inFrame frame (Evaluation.execEach bindings fuel program) { machine with heap } with
    | .ok () m => (.normal, back m)
    | .error (.returned v) m => (.returned v, back m)
    | .error (.stopped (.failed e)) m => (.failed e, back m)
    | .error (.stopped .exhausted) m => (.unfinished, back m)
  else
    match Evaluation.interpret bindings fuel program machine with
    | .ok () m => (.normal, back m)
    | .error (.failed e) m => (.failed e, back m)
    | .error .exhausted m => (.unfinished, back m)

/-- Runs whatever statements of a source could be read, whether or not there are errors.  Without
scope checking every name is global. -/
def runUngated (s : Session) (fuel : Nat) (checked detached : Bool) (source : String) :
    UngatedReport × Session :=
  let program := SourceProgram.of s.nextId source
  let s := { s with nextId := program.nextId }
  let (scopeErrors, s) := if checked then s.checkScopes program.statements else ([], s)
  let size := s.machine.sink.written.size
  let (ending, s) := s.executeUngated fuel detached program.statements
  let printed := s.machine.sink.written.extract size s.machine.sink.written.size
  (⟨program.errors ++ scopeErrors, printed, ending⟩, s)

/-- Gives a name occurrence a number, and notes the distance that labels it. -/
def noteDistance (distance? : Option Nat) : StateM (NodeId × Bindings) NodeId :=
  modifyGet fun (id, b) => (id, id + 1, b.recordUse ⟨id, "", distance?⟩)

/-- The value of an expression at the scope that runs, where each name occurrence is labelled with
its distance. -/
def evaluate (s : Session) (fuel : Nat) (e : Expr (Option Nat)) : Except Stop Value × Session :=
  let ⟨machine, bindings, nextId⟩ := s
  let (e, nextId, bindings) := (e.relabel noteDistance).run (nextId, bindings)
  match Evaluation.eval bindings fuel e machine with
  | .ok v m => (.ok v, ⟨m, bindings, nextId⟩)
  | .error stop m => (.error stop, ⟨m, bindings, nextId⟩)

end Session

end LoxLang
