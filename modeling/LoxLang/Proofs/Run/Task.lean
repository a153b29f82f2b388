import LoxLang.Evaluation

/-!
# The parts of a run

A `Task` is what the evaluator can be asked to do, and `Starts b t m step t' m'` says that task `t`,
run from the machine `m`, starts the task `t'` as one of its parts, and that the machine is `m'` at
that moment.  There is one rule for each place where the evaluator calls itself; its premises say how
the parts before have ended.

`During b t m trail t' m'` goes from part to part: at some moment of the run of `t` from `m`, the task
`t'` starts on the machine `m'`.  The trail has the steps from `t` to `t'`, the last one first, and
these are the tasks in progress at that moment.
-/

namespace LoxLang

namespace Evaluation

open Eval

/-- What the evaluator can be asked to do. -/
inductive Task where
  | eval (e : Expr NodeId)
  | evalEach (es : List (Expr NodeId))
  | call (callee : Value) (paren : Token) (args : List Value)
  | dispatch (callee : Value) (paren : Token) (args : List Value)
  | apply (c : Closure) (args : List Value)
  | exec (s : Stmt NodeId)
  | loop (condition : Expr NodeId) (body : Stmt NodeId)
  | execBlock (frame : FrameId) (body : List (Stmt NodeId))
  | execEach (ss : List (Stmt NodeId))

/-- How a task leads to one of its parts. -/
inductive Step where
  /-- To a part of the tree, by its place among the parts in the order in which the scopes are
  checked. -/
  | part (i : Nat)
  /-- To the same part of the tree. -/
  | same
  /-- Into a call. -/
  | call
  /-- To the body of the function with the label. -/
  | body (label : NodeId)
  deriving DecidableEq

/-- The machine at the end of a run, however it ends. -/
def finalMachine {ε α : Type} : EStateM.Result ε Machine α → Machine
  | .ok _ m => m
  | .error _ m => m

/-- The machine after a task, however it ends. -/
def Task.after (b : Bindings) (fuel : Nat) (m : Machine) : Task → Machine
  | .eval e => finalMachine (Evaluation.eval b fuel e m)
  | .evalEach es => finalMachine (Evaluation.evalEach b fuel es m)
  | .call callee paren args => finalMachine (Evaluation.call b fuel callee paren args m)
  | .dispatch callee paren args => finalMachine (Evaluation.dispatch b fuel callee paren args m)
  | .apply c args => finalMachine (Evaluation.apply b fuel c args m)
  | .exec s => finalMachine (Evaluation.exec b fuel s m)
  | .loop condition body => finalMachine (Evaluation.loop b fuel condition body m)
  | .execBlock frame body => finalMachine (Evaluation.execBlock b fuel frame body m)
  | .execEach ss => finalMachine (Evaluation.execEach b fuel ss m)

/-- A run that ends with a value, given enough fuel. -/
def Returns {ε α : Type} (run : Nat → EStateM ε Machine α) (m : Machine) (a : α) (m' : Machine) :
    Prop := ∃ fuel, run fuel m = .ok a m'

section

variable (b : Bindings)

/-- A task starts a part of it, on the machine of that moment. -/
inductive Starts : Task → Machine → Step → Task → Machine → Prop where
  -- expressions
  | group {inner m} : Starts (.eval (.group inner)) m (.part 0) (.eval inner) m
  | unary {op operand m} : Starts (.eval (.unary op operand)) m (.part 0) (.eval operand) m
  | binaryLeft {left op right m} :
    Starts (.eval (.binary left op right)) m (.part 0) (.eval left) m
  | binaryRight {left op right m l m'} :
    Returns (eval b · left) m l m' →
    Starts (.eval (.binary left op right)) m (.part 1) (.eval right) m'
  | logicalLeft {left op right m} :
    Starts (.eval (.logical left op right)) m (.part 0) (.eval left) m
  | logicalRight {left op right m l m'} :
    Returns (eval b · left) m l m' → (l.isTruthy == op.is .orKw) = false →
    Starts (.eval (.logical left op right)) m (.part 1) (.eval right) m'
  | assigned {id name value m} : Starts (.eval (.assign id name value)) m (.part 0) (.eval value) m
  | callee {callee paren args m} :
    Starts (.eval (.call callee paren args)) m (.part 0) (.eval callee) m
  | arguments {callee paren args m f m'} :
    Returns (eval b · callee) m f m' →
    Starts (.eval (.call callee paren args)) m (.part 1) (.evalEach args) m'
  | called {callee paren args m f m' vs m''} :
    Returns (eval b · callee) m f m' → Returns (evalEach b · args) m' vs m'' →
    Starts (.eval (.call callee paren args)) m .same (.call f paren vs) m''
  | object {object name m} : Starts (.eval (.get object name)) m (.part 0) (.eval object) m
  | setObject {object name value m} :
    Starts (.eval (.set object name value)) m (.part 1) (.eval object) m
  | setValue {object name value m i m'} :
    Returns (eval b · object) m (.instanceRef i) m' →
    Starts (.eval (.set object name value)) m (.part 0) (.eval value) m'
  | first {e es m} : Starts (.evalEach (e :: es)) m (.part 0) (.eval e) m
  | others {e es m v m'} :
    Returns (eval b · e) m v m' → Starts (.evalEach (e :: es)) m (.part 1) (.evalEach es) m'
  -- calls
  | entered {callee paren args m} :
    m.depth < maxCallDepth →
    Starts (.call callee paren args) m .call (.dispatch callee paren args)
      { m with depth := m.depth + 1 }
  | function {id paren args m c} :
    m.heap.functions[id]? = some c → c.decl.arity = args.length →
    Starts (.dispatch (.functionRef id) paren args) m .same (.apply c args) m
  | initializer {id paren args m c i m' bound m''} :
    m.heap.method? id initializerName = some c → c.decl.arity = args.length →
    onHeap (·.addInstance ⟨id, ∅⟩) m = .ok i m' → onHeap (·.bind c i) m' = .ok bound m'' →
    Starts (.dispatch (.classRef id) paren args) m .same (.apply bound args) m''
  | functionBody {c args m frame m'} :
    newFrame (parameterVars c.decl args) c.frame m = .ok frame m' →
    Starts (.apply c args) m (.body c.decl.label) (.execBlock frame c.decl.body) m'
  -- statements
  | expression {e m} : Starts (.exec (.expr e)) m (.part 0) (.eval e) m
  | printed {e m} : Starts (.exec (.print e)) m (.part 0) (.eval e) m
  | varInitializer {name e m} : Starts (.exec (.var name (some e))) m (.part 0) (.eval e) m
  | block {body m frame m'} :
    newFrame ∅ m.scope m = .ok frame m' →
    Starts (.exec (.block body)) m .same (.execBlock frame body) m'
  | condition {condition s m} : Starts (.exec (.ifThen condition s)) m (.part 0) (.eval condition) m
  | branch {condition s m c m'} :
    Returns (eval b · condition) m c m' → c.isTruthy = true →
    Starts (.exec (.ifThen condition s)) m (.part 1) (.exec s) m'
  | elseCondition {condition s s' m} :
    Starts (.exec (.ifElse condition s s')) m (.part 0) (.eval condition) m
  | thenBranch {condition s s' m c m'} :
    Returns (eval b · condition) m c m' → c.isTruthy = true →
    Starts (.exec (.ifElse condition s s')) m (.part 1) (.exec s) m'
  | elseBranch {condition s s' m c m'} :
    Returns (eval b · condition) m c m' → c.isTruthy = false →
    Starts (.exec (.ifElse condition s s')) m (.part 2) (.exec s') m'
  | whileLoop {condition body m} :
    Starts (.exec (.whileLoop condition body)) m .same (.loop condition body) m
  | returned {keyword e m} : Starts (.exec (.ret keyword (some e))) m (.part 0) (.eval e) m
  | loopCondition {condition body m} :
    Starts (.loop condition body) m (.part 0) (.eval condition) m
  | loopBody {condition body m c m'} :
    Returns (eval b · condition) m c m' → c.isTruthy = true →
    Starts (.loop condition body) m (.part 1) (.exec body) m'
  | again {condition body m c m' m''} :
    Returns (eval b · condition) m c m' → c.isTruthy = true →
    Returns (exec b · body) m' () m'' →
    Starts (.loop condition body) m .same (.loop condition body) m''
  | statements {frame body m} :
    Starts (.execBlock frame body) m (.part 0) (.execEach body) { m with scope := frame }
  | firstStatement {s ss m} : Starts (.execEach (s :: ss)) m (.part 0) (.exec s) m
  | otherStatements {s ss m m'} :
    Returns (exec b · s) m () m' → Starts (.execEach (s :: ss)) m (.part 1) (.execEach ss) m'

/-- At some moment of the run of `t` from `m`, the part at the end of the trail starts. -/
inductive During (t : Task) (m : Machine) : List Step → Task → Machine → Prop where
  | start : During t m [] t m
  | part {trail t' m' step t'' m''} :
    During t m trail t' m' → Starts b t' m' step t'' m'' → During t m (step :: trail) t'' m''

end

/-- A moment of the run of a part is a moment of the run of the whole. -/
theorem During.of_part {b : Bindings} {t t' t'' : Task} {m m' m'' : Machine} {step : Step}
    {trail : List Step} (hstarts : Starts b t m step t' m') (h : During b t' m' trail t'' m'') :
    ∃ trail, During b t m trail t'' m'' := by
  induction h with
  | start => exact ⟨_, During.start.part hstarts⟩
  | part _ hlast ih =>
    obtain ⟨trail, ih⟩ := ih
    exact ⟨_, ih.part hlast⟩

/-- The calls in progress at the end of a trail. -/
def callsIn (trail : List Step) : Nat := trail.count .call

end Evaluation

end LoxLang
