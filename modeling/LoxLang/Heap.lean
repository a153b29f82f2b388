import LoxLang.Frames
import LoxLang.Text.Quoted
import LoxLang.Tree.Label

/-!
# The heap

What the references of a program refer to.  Frames, functions, classes and instances are numbered
in the order in which they were made, and nothing is ever removed.

* A function is a declaration together with the frame in which it was made; binding a method to an
  instance puts a frame with `this` between the two (`Heap.bind`).
* `Heap.property?` looks a property up: the fields of an instance come before the methods of its
  class.
* `Heap.display` is the text of a value as `print` writes it, and `Heap.inspect` a form of it that
  shows the type of numbers, booleans and strings.
-/

namespace LoxLang

/-- A function or method with the frame it runs in. -/
structure Closure where
  decl : Function NodeId
  frame : FrameId
  /-- The function is the initializer of a class. -/
  isInitializer : Bool

/-- A class with its methods, which are not yet bound to an instance. -/
structure Class where
  name : String
  methods : NameMap Closure

/-- An instance: its class and the fields it has been given. -/
structure Instance where
  classId : ClassId
  fields : NameMap Value

/-- Everything that references refer to. -/
structure Heap where
  frames : Frames
  functions : Array Closure
  classes : Array Class
  instances : Array Instance

/-- What looking up a property of an instance finds. -/
inductive Property where
  | field (v : Value)
  | method (c : Closure)

/-- The frame of the global variables. -/
def globalFrame : FrameId := 0

/-- The name under which a method finds its instance. -/
def thisName : String := "this"

namespace Heap

/-- The heap of a new machine: the global frame with the native functions. -/
def initial : Heap where
  frames := Frames.empty.push
    ⟨NameMap.ofList (Native.all.map fun n => (n.name, .native n)), none⟩
  functions := #[]
  classes := #[]
  instances := #[]

/-! ### Making things -/

/-- A new frame. -/
def addFrame (h : Heap) (f : Frame) : FrameId × Heap :=
  (h.frames.next, { h with frames := h.frames.push f })

/-- A new function. -/
def addFunction (h : Heap) (c : Closure) : FunctionId × Heap :=
  (h.functions.size, { h with functions := h.functions.push c })

/-- A new class. -/
def addClass (h : Heap) (c : Class) : ClassId × Heap :=
  (h.classes.size, { h with classes := h.classes.push c })

/-- A new instance. -/
def addInstance (h : Heap) (i : Instance) : InstanceId × Heap :=
  (h.instances.size, { h with instances := h.instances.push i })

/-- The method bound to an instance: it runs in a new frame that has `this`. -/
def bind (h : Heap) (method : Closure) (i : InstanceId) : Closure × Heap :=
  let vars := NameMap.empty.insert thisName (.instanceRef i)
  let (frame, h) := h.addFrame ⟨vars, some method.frame⟩
  ({ method with frame }, h)

/-! ### Variables and fields -/

/-- Gives a variable of a frame a value. -/
def define (h : Heap) (frame : FrameId) (name : String) (v : Value) : Heap :=
  { h with frames := h.frames.define frame name v }

/-- Gives a field of an instance a value. -/
def setField (h : Heap) (i : InstanceId) (name : String) (v : Value) : Heap :=
  { h with
    instances := h.instances.modify i fun o => { o with fields := o.fields.insert name v } }

/-- The method of a class under a name. -/
def method? (h : Heap) (c : ClassId) (name : String) : Option Closure :=
  h.classes[c]?.bind (·.methods.get? name)

/-- The property of an instance: a field, or else a method of its class. -/
def property? (h : Heap) (i : InstanceId) (name : String) : Option Property :=
  h.instances[i]?.bind fun o =>
    match o.fields.get? name with
    | some v => some (.field v)
    | none => (h.method? o.classId name).map .method

/-! ### Texts -/

/-- The name of a class. -/
def className (h : Heap) (c : ClassId) : String := (h.classes[c]?.map (·.name)).getD ""

/-- The name of a function. -/
def functionName (h : Heap) (f : FunctionId) : String :=
  (h.functions[f]?.map (·.decl.name.lexeme)).getD ""

/-- The text of a value. -/
def display (h : Heap) : Value → String
  | .nil => "nil"
  | .bool b => if b then "true" else "false"
  | .number x => Number.display x
  | .string s => s
  | .native _ => "<native fn>"
  | .functionRef f => "<fn " ++ h.functionName f ++ ">"
  | .classRef c => "<class " ++ h.className c ++ ">"
  | .instanceRef i =>
    ((h.instances[i]?.map fun o => h.className o.classId).getD "") ++ " instance"

/-- The text of a value with the type of numbers, booleans and strings shown; strings are quoted. -/
def inspect (h : Heap) : Value → String
  | .bool b => "Bool(" ++ (if b then "true" else "false") ++ ")"
  | .number x => "Number(" ++ Number.plain x ++ ")"
  | .string s => "String(" ++ Text.quoted s ++ ")"
  | v => h.display v

end Heap

end LoxLang
