import LoxLang.Heap
import LoxLang.Operators
import LoxLang.Sink

/-!
# The machine

The state of a running program: the heap, the frame it runs in, the number of calls it is inside of,
the text it has printed, and a clock.

An expression runs in `Eval` and can end in a `Stop`: an error, or the fuel running out.  A
statement runs in `Exec`, where a `return` can end it as well (`Unwind`).  Two combinators change
the state for a while and restore it however the inner run ends: `inFrame` and `insideCall`.
-/

namespace LoxLang

/-! ### Time -/

/-- A clock: its readings in order, and how many have been taken. -/
structure Clock where
  reading : Nat → Float
  ticks : Nat

namespace Clock

/-- A clock that starts at a number of microseconds and advances by one with each reading. -/
def startingAt (start : Nat) : Clock := ⟨fun n => Float.ofScientific (start + n) true 6, 0⟩

end Clock

/-! ### The state -/

/-- The state of a running program. -/
structure Machine where
  heap : Heap
  /-- The frame of the scope that runs. -/
  scope : FrameId
  /-- The calls in progress. -/
  depth : Nat
  sink : Sink
  clock : Clock

/-- The most calls that may be in progress. -/
def maxCallDepth : Nat := 1000

/-- A machine before it has run anything. -/
def Machine.initial (limit? : Option Nat) (clock : Clock) : Machine :=
  ⟨.initial, globalFrame, 0, .empty limit?, clock⟩

/-- An error that ends a run. -/
inductive RunError where
  /-- A fault at a token on the given line. -/
  | fault (line : Nat) (f : RuntimeFault)
  /-- The sink takes no more text. -/
  | sinkFull
  deriving DecidableEq, Repr

/-- Why an expression has no value. -/
inductive Stop where
  | failed (e : RunError)
  /-- The fuel ran out before the end. -/
  | exhausted

/-- Why a statement ends early. -/
inductive Unwind where
  | stopped (s : Stop)
  /-- A `return` on its way to the call that it ends. -/
  | returned (v : Value)

/-- A run that yields a value. -/
abbrev Eval := EStateM Stop Machine

/-- A run that a `return` can end. -/
abbrev Exec := EStateM Unwind Machine

namespace Eval

variable {α : Type}

/-- Ends the run with a fault at a token. -/
def failAt (t : Token) (f : RuntimeFault) : Eval α := throw (.failed (.fault t.line f))

/-- Out of fuel. -/
def exhaust : Eval α := throw .exhausted

/-- The result of an operator, its fault placed at a token. -/
def liftFault (t : Token) : Except RuntimeFault α → Eval α
  | .ok a => pure a
  | .error f => failAt t f

/-- The value of an optional result, or else a fault at a token. -/
def orFail (t : Token) (f : RuntimeFault) : Option α → Eval α
  | some a => pure a
  | none => failAt t f

/-- The run as part of a statement. -/
def toExec (x : Eval α) : Exec α := fun m =>
  match x m with
  | .ok a m => .ok a m
  | .error s m => .error (.stopped s) m

instance : MonadLift Eval Exec := ⟨toExec⟩

/-- Changes the heap, and yields what the change gives. -/
def onHeap (f : Heap → α × Heap) : Eval α := fun m =>
  let ⟨heap, scope, depth, sink, clock⟩ := m
  let (a, heap) := f heap
  .ok a ⟨heap, scope, depth, sink, clock⟩

/-- Runs `x` as part of one more call. -/
def insideCall (x : Eval α) : Eval α := fun m =>
  match x { m with depth := m.depth + 1 } with
  | .ok a m => .ok a { m with depth := m.depth - 1 }
  | .error s m => .error s { m with depth := m.depth - 1 }

/-- The next reading of the clock. -/
def readClock : Eval Float := fun m =>
  let now := m.clock.reading m.clock.ticks
  .ok now { m with clock := { m.clock with ticks := m.clock.ticks + 1 } }

/-- Prints a text and ends the line. -/
def printLine (text : String) : Eval Unit := fun m =>
  let bytes := (text.push '\n').toUTF8
  let fits := m.sink.fits bytes
  let m := { m with sink := m.sink.write bytes }
  if fits then .ok () m else .error (.failed .sinkFull) m

end Eval

namespace Exec

variable {α : Type}

/-- Runs `x` in the given frame, and goes back to the frame before, however `x` ends. -/
def inFrame (frame : FrameId) (x : Exec α) : Exec α := fun m =>
  let before := m.scope
  match x { m with scope := frame } with
  | .ok a m => .ok a { m with scope := before }
  | .error u m => .error u { m with scope := before }

/-- However a run inside a frame ends, the frame before is the frame that runs. -/
theorem inFrame_scope (frame : FrameId) (x : Exec α) (m : Machine) :
    match inFrame frame x m with
    | .ok _ m' => m'.scope = m.scope
    | .error _ m' => m'.scope = m.scope := by
  unfold inFrame
  cases x { m with scope := frame } <;> rfl

/-- Runs `x` up to its end or to a `return`, and yields the returned value if there is one. -/
def catchReturn (x : Exec Unit) : Eval (Option Value) := fun m =>
  match x m with
  | .ok () m => .ok none m
  | .error (.returned v) m => .ok (some v) m
  | .error (.stopped s) m => .error s m

end Exec

end LoxLang
