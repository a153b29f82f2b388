import LoxLang.Bindings
import LoxLang.Machine

/-!
# Evaluation

How expressions and statements run.  Both take fuel, which every step into a part of the tree, every
turn of a loop and every call uses up by one; a run that needs more ends `exhausted`, and more fuel
never changes a run that ended otherwise.

A name is read and assigned through the binding of its occurrence: at the distance that the table
gives, or else among the global variables.

* `eval` and `exec` run an expression and a statement;
* `call` runs whatever is called, inside one more call (`dispatch`);
* `execBlock` runs statements in a frame of their own;
* `interpret` runs a program at the global scope.
-/

namespace LoxLang

/-- The value of a literal. -/
def Literal.value : Literal → Value
  | nil => .nil
  | bool b => .bool b
  | number x => .number x
  | string s => .string s

namespace Evaluation

open Eval Exec

/-! ### Variables -/

/-- Where the search for a variable starts and how far out it goes: at the bound distance from the
frame that runs, or in the global frame. -/
def place (b : Bindings) (m : Machine) (id : NodeId) : FrameId × Nat :=
  match b.distance? id with
  | some distance => (m.scope, distance)
  | none => (globalFrame, 0)

/-- The frame that has the variable an occurrence stands for. -/
def holder? (b : Bindings) (m : Machine) (id : NodeId) (name : String) : Option FrameId :=
  let (frame, distance) := place b m id
  m.heap.frames.holder? frame distance name

/-- The value of the variable an occurrence stands for. -/
def readVariable (b : Bindings) (id : NodeId) (name : Token) : Eval Value := fun m =>
  let (frame, distance) := place b m id
  match m.heap.frames.getAt? frame distance name.lexeme with
  | some v => .ok v m
  | none => failAt name (.undefinedVariable name.lexeme) m

/-- Assigns to the variable an occurrence stands for. -/
def assignVariable (b : Bindings) (id : NodeId) (name : Token) (v : Value) : Eval Unit := fun m =>
  match holder? b m id name.lexeme with
  | some frame => onHeap (fun h => ((), h.define frame name.lexeme v)) m
  | none => failAt name (.undefinedVariable name.lexeme) m

/-- Gives a variable of the frame that runs a value. -/
def defineVariable (name : Token) (v : Value) : Eval Unit := fun m =>
  let frame := m.scope
  onHeap (fun h => ((), h.define frame name.lexeme v)) m

/-! ### Making values -/

/-- A new frame around which lies the given one. -/
def newFrame (vars : NameMap Value) (enclosing : FrameId) : Eval FrameId :=
  onHeap (·.addFrame ⟨vars, some enclosing⟩)

/-- A new function. -/
def newFunction (c : Closure) : Eval Value := onHeap fun h =>
  let (id, h) := h.addFunction c
  (.functionRef id, h)

/-- A new class whose methods run in the given frame. -/
def newClass (name : Token) (methods : List (Function NodeId)) (frame : FrameId) : Eval Value :=
  onHeap fun h =>
    let closures := methods.map fun d => (d.name.lexeme, ⟨d, frame, d.isInitializer⟩)
    let (id, h) := h.addClass ⟨name.lexeme, .ofList closures⟩
    (.classRef id, h)

/-! ### Properties -/

/-- A property of an instance; a method is bound to it anew each time. -/
def readProperty (i : InstanceId) (name : Token) : Eval Value := do
  match ← orFail name (.undefinedProperty name.lexeme) ((← get).heap.property? i name.lexeme) with
  | .field v => return v
  | .method c => newFunction (← onHeap (·.bind c i))

/-- Gives a field of an instance a value. -/
def assignField (i : InstanceId) (name : Token) (v : Value) : Eval Unit :=
  onHeap fun h => ((), h.setField i name.lexeme v)

/-! ### Calls -/

/-- Refuses a call beyond the greatest depth. -/
def checkDepth (paren : Token) : Eval Unit := do
  if maxCallDepth ≤ (← get).depth then failAt paren .tooManyCalls

/-- Refuses a call with a wrong number of arguments. -/
def checkArity (paren : Token) (expected got : Nat) : Eval Unit :=
  if expected = got then pure () else failAt paren (.wrongArity expected got)

/-- The native function applied to arguments. -/
def callNative : Native → Eval Value
  | .clock => .number <$> readClock

/-- The variables of a call: each parameter with its argument. -/
def parameterVars (decl : Function NodeId) (args : List Value) : NameMap Value :=
  .ofList ((decl.params.map (·.lexeme)).zip args)

/-- What a call yields after its body: an initializer its instance, any other function what was
returned, or `nil`. -/
def callResult (c : Closure) (returned? : Option Value) : Eval Value := do
  if c.isInitializer then
    return ((← get).heap.frames.getHere? c.frame thisName).getD .nil
  else
    return returned?.getD .nil

/-! ### Running -/

mutual

/-- The value of an expression. -/
def eval (b : Bindings) : (fuel : Nat) → Expr NodeId → Eval Value
  | 0, _ => exhaust
  | fuel + 1, e => match e with
    | .literal l => pure l.value
    | .group inner => eval b fuel inner
    | .unary op operand => do
      let v ← eval b fuel operand
      liftFault op (Operators.applyUnary op v)
    | .binary left op right => do
      let l ← eval b fuel left
      let r ← eval b fuel right
      liftFault op (Operators.applyBinary op l r)
    | .logical left op right => do
      let l ← eval b fuel left
      if l.isTruthy == op.is .orKw then pure l else eval b fuel right
    | .var id name => readVariable b id name
    | .thisRef id keyword => readVariable b id keyword
    | .assign id name value => do
      let v ← eval b fuel value
      assignVariable b id name v
      pure v
    | .call callee paren args => do
      let f ← eval b fuel callee
      let vs ← evalEach b fuel args
      call b fuel f paren vs
    | .get object name => do
      match ← eval b fuel object with
      | .instanceRef i => readProperty i name
      | _ => failAt name .propertyOfNonInstance
    | .set object name value => do
      match ← eval b fuel object with
      | .instanceRef i => do
        let v ← eval b fuel value
        assignField i name v
        pure v
      | _ => failAt name .fieldOfNonInstance

/-- The values of expressions from left to right. -/
def evalEach (b : Bindings) : (fuel : Nat) → List (Expr NodeId) → Eval (List Value)
  | 0, _ => exhaust
  | _ + 1, [] => pure []
  | fuel + 1, e :: es => do
    let v ← eval b fuel e
    let vs ← evalEach b fuel es
    pure (v :: vs)

/-- What calling a value with arguments yields. -/
def call (b : Bindings) : (fuel : Nat) → Value → Token → List Value → Eval Value
  | 0, _, _, _ => exhaust
  | fuel + 1, callee, paren, args => do
    checkDepth paren
    insideCall (dispatch b fuel callee paren args)

/-- What a value does once its call is in progress. -/
def dispatch (b : Bindings) : (fuel : Nat) → Value → Token → List Value → Eval Value
  | 0, _, _, _ => exhaust
  | fuel + 1, callee, paren, args => match callee with
    | .native n => do
      checkArity paren n.arity args.length
      callNative n
    | .functionRef id => do
      match (← get).heap.functions[id]? with
      | some c => do
        checkArity paren c.decl.arity args.length
        apply b fuel c args
      | none => failAt paren .uncallable
    | .classRef id => do
      let initializer? := (← get).heap.method? id initializerName
      checkArity paren ((initializer?.map (·.decl.arity)).getD 0) args.length
      let i ← onHeap (·.addInstance ⟨id, ∅⟩)
      match initializer? with
      | some c => do
        let bound ← onHeap (·.bind c i)
        let _ ← apply b fuel bound args
        pure (.instanceRef i)
      | none => pure (.instanceRef i)
    | _ => failAt paren .uncallable

/-- Runs the body of a function in a new frame for its parameters. -/
def apply (b : Bindings) : (fuel : Nat) → Closure → List Value → Eval Value
  | 0, _, _ => exhaust
  | fuel + 1, c, args => do
    let frame ← newFrame (parameterVars c.decl args) c.frame
    let returned? ← catchReturn (execBlock b fuel frame c.decl.body)
    callResult c returned?

/-- Runs a statement. -/
def exec (b : Bindings) : (fuel : Nat) → Stmt NodeId → Exec Unit
  | 0, _ => (exhaust : Eval Unit)
  | fuel + 1, s => match s with
    | .expr e => do
      let _ ← eval b fuel e
    | .print e => do
      let v ← eval b fuel e
      let heap := (← get).heap
      printLine (heap.display v)
    | .var name value? => do
      let v ← match value? with
        | some e => eval b fuel e
        | none => pure .nil
      defineVariable name v
    | .block body => do
      let frame ← newFrame ∅ (← get).scope
      execBlock b fuel frame body
    | .ifThen condition thenBranch => do
      let c ← eval b fuel condition
      if c.isTruthy then exec b fuel thenBranch else pure ()
    | .ifElse condition thenBranch elseBranch => do
      let c ← eval b fuel condition
      if c.isTruthy then exec b fuel thenBranch else exec b fuel elseBranch
    | .whileLoop condition body => loop b fuel condition body
    | .function decl => do
      let f ← newFunction ⟨decl, (← get).scope, false⟩
      defineVariable decl.name f
    | .ret _ value? => do
      let v ← match value? with
        | some e => eval b fuel e
        | none => pure .nil
      throw (.returned v)
    | .classDecl name methods => do
      let c ← newClass name methods (← get).scope
      defineVariable name c

/-- Runs the body of a loop as long as its condition holds. -/
def loop (b : Bindings) : (fuel : Nat) → Expr NodeId → Stmt NodeId → Exec Unit
  | 0, _, _ => (exhaust : Eval Unit)
  | fuel + 1, condition, body => do
    let c ← eval b fuel condition
    if c.isTruthy then
      exec b fuel body
      loop b fuel condition body
    else
      pure ()

/-- Runs statements in the given frame, and goes back to the frame before. -/
def execBlock (b : Bindings) : (fuel : Nat) → FrameId → List (Stmt NodeId) → Exec Unit
  | 0, _, _ => (exhaust : Eval Unit)
  | fuel + 1, frame, body => inFrame frame (execEach b fuel body)

/-- Runs statements from first to last. -/
def execEach (b : Bindings) : (fuel : Nat) → List (Stmt NodeId) → Exec Unit
  | 0, _ => (exhaust : Eval Unit)
  | _ + 1, [] => pure ()
  | fuel + 1, s :: ss => do
    exec b fuel s
    execEach b fuel ss

end

/-- Runs a program at the global scope.  A `return` that no call catches ends it quietly. -/
def interpret (b : Bindings) (fuel : Nat) (program : List (Stmt NodeId)) : Eval Unit := do
  modify fun m => { m with scope := globalFrame, depth := 0 }
  let _ ← catchReturn (execEach b fuel program)

end Evaluation

end LoxLang
