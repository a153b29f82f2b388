import LoxLang.Proofs.Run.Task
import Mathlib.Tactic.SplitIfs

/-!
# Relations that every run keeps

A relation between machines is `Stable` if it holds over each single change that a run can make, and
over a run inside a call or a frame if it holds over the inner run.  A stable relation holds between
the machine before a task and the machine after it, however the task ends (`Stable.after`).
-/

namespace LoxLang

namespace Evaluation

open Eval Exec

/-- The machine with another heap. -/
def withHeap (m : Machine) (heap : Heap) : Machine := { m with heap }

/-- A relation that each single change of the machine keeps, and that a run inside a call or a frame
keeps if what runs there does. -/
structure Stable (R : Machine → Machine → Prop) : Prop where
  refl : ∀ m, R m m
  trans : ∀ {m m' m''}, R m m' → R m' m'' → R m m''
  addFrame : ∀ m f, R m (withHeap m (m.heap.addFrame f).2)
  addFunction : ∀ m c, R m (withHeap m (m.heap.addFunction c).2)
  addClass : ∀ m c, R m (withHeap m (m.heap.addClass c).2)
  addInstance : ∀ m i, R m (withHeap m (m.heap.addInstance i).2)
  define : ∀ m frame name v, R m (withHeap m (m.heap.define frame name v))
  setField : ∀ m i name v, R m (withHeap m (m.heap.setField i name v))
  print : ∀ m bytes, R m { m with sink := m.sink.write bytes }
  tick : ∀ m, R m { m with clock := { m.clock with ticks := m.clock.ticks + 1 } }
  inCall : ∀ {m m'}, R { m with depth := m.depth + 1 } m' → R m { m' with depth := m'.depth - 1 }
  inFrame : ∀ {m frame m'}, R { m with scope := frame } m' → R m { m' with scope := m.scope }

section

variable {R : Machine → Machine → Prop} {ε α β : Type}

/-- The relation holds between the machines before and after a run. -/
def Keeps (R : Machine → Machine → Prop) (x : EStateM ε Machine α) : Prop :=
  ∀ m, R m (finalMachine (x m))

theorem Keeps.ite {c : Prop} [Decidable c] {x y : EStateM ε Machine α} (hx : Keeps R x)
    (hy : Keeps R y) : Keeps R (if c then x else y) := by
  split_ifs
  · exact hx
  · exact hy

theorem Keeps.toExec {x : Eval α} (hx : Keeps R x) : Keeps R (Eval.toExec x) := by
  intro m
  have hm := hx m
  rw [Eval.toExec]
  cases hr : x m with
  | ok a m' => rw [hr] at hm; exact hm
  | error s m' => rw [hr] at hm; exact hm

theorem Keeps.catchReturn {x : Exec Unit} (hx : Keeps R x) : Keeps R (Exec.catchReturn x) := by
  intro m
  have hm := hx m
  rw [Exec.catchReturn]
  cases hr : x m with
  | ok a m' => rw [hr] at hm; exact hm
  | error u m' =>
    rw [hr] at hm
    cases u with
    | stopped s => exact hm
    | returned v => exact hm

/-- A relation that a run keeps holds over it if it ends with a value. -/
theorem Returns.keeps {run : Nat → EStateM ε Machine α} {m m' : Machine} {a : α}
    (h : Returns run m a m') (hrun : ∀ fuel, Keeps R (run fuel)) : R m m' := by
  obtain ⟨fuel, hfuel⟩ := h
  have hm := hrun fuel m
  rw [hfuel] at hm
  exact hm

namespace Stable

variable (h : Stable R)

include h

theorem pure (a : α) : Keeps R (Pure.pure a : EStateM ε Machine α) := h.refl

theorem throw (e : ε) : Keeps R (MonadExcept.throw e : EStateM ε Machine α) := h.refl

theorem get : Keeps R (MonadState.get : EStateM ε Machine Machine) := h.refl

theorem bind {x : EStateM ε Machine α} {f : α → EStateM ε Machine β} (hx : Keeps R x)
    (hf : ∀ a, Keeps R (f a)) : Keeps R (x >>= f) := by
  intro m
  have hm := hx m
  change R m (finalMachine (EStateM.bind x f m))
  rw [EStateM.bind]
  cases hr : x m with
  | ok a m' => rw [hr] at hm; exact h.trans hm (hf a m')
  | error e m' => rw [hr] at hm; exact hm

theorem failAt (t : Token) (f : RuntimeFault) : Keeps R (failAt t f : Eval α) := h.refl

theorem liftFault (t : Token) (r : Except RuntimeFault α) : Keeps R (liftFault t r) := by
  cases r with
  | ok a => exact h.refl
  | error f => exact h.refl

theorem orFail (t : Token) (f : RuntimeFault) (o : Option α) : Keeps R (orFail t f o) := by
  cases o with
  | none => exact h.refl
  | some a => exact h.refl

theorem insideCall {x : Eval α} (hx : Keeps R x) : Keeps R (insideCall x) := by
  intro m
  have hm := hx { m with depth := m.depth + 1 }
  rw [Eval.insideCall]
  cases hr : x { m with depth := m.depth + 1 } with
  | ok a m' => rw [hr] at hm; exact h.inCall hm
  | error s m' => rw [hr] at hm; exact h.inCall hm

theorem keeps_inFrame {x : Exec α} (hx : Keeps R x) (frame : FrameId) :
    Keeps R (Exec.inFrame frame x) := by
  intro m
  have hm := hx { m with scope := frame }
  rw [Exec.inFrame]
  cases hr : x { m with scope := frame } with
  | ok a m' => rw [hr] at hm; exact h.inFrame hm
  | error u m' => rw [hr] at hm; exact h.inFrame hm

/-! The single changes of the evaluator. -/

theorem readVariable (b : Bindings) (id : NodeId) (name : Token) :
    Keeps R (readVariable b id name) := by
  intro m
  unfold Evaluation.readVariable
  dsimp only
  split
  · exact h.refl m
  · exact h.refl m

theorem assignVariable (b : Bindings) (id : NodeId) (name : Token) (v : Value) :
    Keeps R (assignVariable b id name v) := by
  intro m
  unfold Evaluation.assignVariable
  split
  · exact h.define m _ _ _
  · exact h.refl m

theorem defineVariable (name : Token) (v : Value) : Keeps R (defineVariable name v) := fun m =>
  h.define m m.scope name.lexeme v

theorem newFrame (vars : NameMap Value) (enclosing : FrameId) : Keeps R (newFrame vars enclosing) :=
  fun m => h.addFrame m _

theorem newFunction (c : Closure) : Keeps R (newFunction c) := fun m => h.addFunction m c

theorem newClass (name : Token) (methods : List (Function NodeId)) (frame : FrameId) :
    Keeps R (newClass name methods frame) := fun m => h.addClass m _

theorem bindMethod (c : Closure) (i : InstanceId) : Keeps R (onHeap (·.bind c i)) :=
  fun m => h.addFrame m _

theorem readProperty (i : InstanceId) (name : Token) : Keeps R (readProperty i name) := by
  refine h.bind h.get fun m => h.bind (h.orFail _ _ _) fun p => ?_
  cases p with
  | field v => exact h.pure v
  | method c => exact h.bind (h.bindMethod c i) h.newFunction

theorem assignField (i : InstanceId) (name : Token) (v : Value) : Keeps R (assignField i name v) :=
  fun m => h.setField m i name.lexeme v

theorem checkDepth (paren : Token) : Keeps R (checkDepth paren) :=
  h.bind h.get fun _ => (h.failAt _ _).ite (h.pure ())

theorem checkArity (paren : Token) (expected got : Nat) : Keeps R (checkArity paren expected got) :=
  (h.pure ()).ite (h.failAt _ _)

theorem callNative (n : Native) : Keeps R (callNative n) := by
  cases n with
  | clock => exact fun m => h.tick m

theorem callResult (c : Closure) (returned? : Option Value) : Keeps R (callResult c returned?) :=
  (h.bind h.get fun _ => h.pure _).ite (h.pure _)

theorem printLine (text : String) : Keeps R (printLine text) := by
  intro m
  have hprint := h.print m (text.push '\n').toUTF8
  rw [Eval.printLine]
  split_ifs
  · exact hprint
  · exact hprint

/-! ### Tasks -/

/-- Whatever is evaluated with some fuel keeps the relation. -/
structure KeepsAll (R : Machine → Machine → Prop) (b : Bindings) (fuel : Nat) : Prop where
  eval : ∀ e, Keeps R (Evaluation.eval b fuel e)
  evalEach : ∀ es, Keeps R (Evaluation.evalEach b fuel es)
  call : ∀ callee paren args, Keeps R (Evaluation.call b fuel callee paren args)
  dispatch : ∀ callee paren args, Keeps R (Evaluation.dispatch b fuel callee paren args)
  apply : ∀ c args, Keeps R (Evaluation.apply b fuel c args)
  exec : ∀ s, Keeps R (Evaluation.exec b fuel s)
  loop : ∀ condition body, Keeps R (Evaluation.loop b fuel condition body)
  execBlock : ∀ frame body, Keeps R (Evaluation.execBlock b fuel frame body)
  execEach : ∀ ss, Keeps R (Evaluation.execEach b fuel ss)

theorem keeps_eval {b : Bindings} {fuel : Nat} (ih : KeepsAll R b fuel) (e : Expr NodeId) :
    Keeps R (eval b (fuel + 1) e) := by
  cases e with
  | literal l => exact h.pure _
  | group inner => exact ih.eval inner
  | unary op operand => exact h.bind (ih.eval operand) fun v => h.liftFault _ _
  | binary left op right =>
    exact h.bind (ih.eval left) fun l => h.bind (ih.eval right) fun r => h.liftFault _ _
  | logical left op right => exact h.bind (ih.eval left) fun l => (h.pure l).ite (ih.eval right)
  | var id name => exact h.readVariable b id name
  | assign id name value =>
    exact h.bind (ih.eval value) fun v => h.bind (h.assignVariable b id name v) fun _ => h.pure v
  | call callee paren args =>
    exact h.bind (ih.eval callee) fun f => h.bind (ih.evalEach args) fun vs => ih.call f paren vs
  | get object name =>
    refine h.bind (ih.eval object) fun o => ?_
    cases o with
    | instanceRef i => exact h.readProperty i name
    | _ => exact h.failAt _ _
  | set object name value =>
    refine h.bind (ih.eval object) fun o => ?_
    cases o with
    | instanceRef i =>
      exact h.bind (ih.eval value) fun v => h.bind (h.assignField i name v) fun _ => h.pure v
    | _ => exact h.failAt _ _
  | thisRef id keyword => exact h.readVariable b id keyword

theorem keeps_dispatch {b : Bindings} {fuel : Nat} (ih : KeepsAll R b fuel) (callee : Value)
    (paren : Token) (args : List Value) : Keeps R (dispatch b (fuel + 1) callee paren args) := by
  cases callee with
  | native n => exact h.bind (h.checkArity _ _ _) fun _ => h.callNative n
  | functionRef id =>
    refine h.bind h.get fun m => ?_
    split
    · exact h.bind (h.checkArity _ _ _) fun _ => ih.apply _ args
    · exact h.failAt _ _
  | classRef id =>
    refine h.bind h.get fun m => h.bind (h.checkArity _ _ _) fun _ => ?_
    refine h.bind (fun m => h.addInstance m _) fun i => ?_
    split
    · exact h.bind (h.bindMethod _ i) fun bound => h.bind (ih.apply bound args) fun _ => h.pure _
    · exact h.pure _
  | _ => exact h.failAt _ _

/-- An expression that may be missing, as part of a statement that goes on with its value. -/
theorem keeps_optional {b : Bindings} {fuel : Nat} (ih : KeepsAll R b fuel)
    (value? : Option (Expr NodeId)) (f : Value → Exec Unit) (hf : ∀ v, Keeps R (f v)) :
    Keeps R (do
      let v ← match value? with
        | some e => (eval b fuel e : Exec Value)
        | none => Pure.pure Value.nil
      f v) := by
  cases value? with
  | none => exact h.bind (h.pure Value.nil) hf
  | some e => exact h.bind (ih.eval e).toExec hf

theorem keeps_exec {b : Bindings} {fuel : Nat} (ih : KeepsAll R b fuel) (s : Stmt NodeId) :
    Keeps R (exec b (fuel + 1) s) := by
  cases s with
  | expr e => exact h.bind (ih.eval e).toExec fun _ => h.pure ()
  | print e => exact h.bind (ih.eval e).toExec fun v => h.bind h.get fun m => (h.printLine _).toExec
  | var name value? => exact h.keeps_optional ih value? _ fun v => (h.defineVariable name v).toExec
  | block body =>
    exact h.bind h.get fun m => h.bind (h.newFrame _ _).toExec fun frame => ih.execBlock frame body
  | ifThen condition s =>
    exact h.bind (ih.eval condition).toExec fun c => (ih.exec s).ite (h.pure ())
  | ifElse condition s s' =>
    exact h.bind (ih.eval condition).toExec fun c => (ih.exec s).ite (ih.exec s')
  | whileLoop condition body => exact ih.loop condition body
  | function decl =>
    exact h.bind h.get fun m => h.bind (h.newFunction _).toExec fun f =>
      (h.defineVariable _ f).toExec
  | ret keyword value? => exact h.keeps_optional ih value? _ fun v => h.throw _
  | classDecl name methods =>
    exact h.bind h.get fun m => h.bind (h.newClass _ _ _).toExec fun c =>
      (h.defineVariable name c).toExec

/-- A stable relation is kept by whatever is evaluated. -/
theorem keepsAll (b : Bindings) (fuel : Nat) : KeepsAll R b fuel := by
  induction fuel with
  | zero =>
    constructor
    all_goals intros; exact h.refl
  | succ fuel ih =>
    constructor
    case eval => exact h.keeps_eval ih
    case evalEach =>
      rintro (_ | ⟨e, es⟩)
      · exact h.pure []
      · exact h.bind (ih.eval e) fun v => h.bind (ih.evalEach es) fun vs => h.pure _
    case call =>
      intro callee paren args
      exact h.bind (h.checkDepth paren) fun _ => h.insideCall (ih.dispatch callee paren args)
    case dispatch => exact h.keeps_dispatch ih
    case apply =>
      intro c args
      exact h.bind (h.newFrame _ _) fun frame =>
        h.bind (ih.execBlock frame c.decl.body).catchReturn fun r => h.callResult c r
    case exec => exact h.keeps_exec ih
    case loop =>
      intro condition body
      exact h.bind (ih.eval condition).toExec fun c =>
        (h.bind (ih.exec body) fun _ => ih.loop condition body).ite (h.pure ())
    case execBlock =>
      intro frame body
      exact h.keeps_inFrame (ih.execEach body) frame
    case execEach =>
      rintro (_ | ⟨s, ss⟩)
      · exact h.pure ()
      · exact h.bind (ih.exec s) fun _ => ih.execEach ss

/-- A stable relation holds between the machines before and after a task. -/
theorem after (b : Bindings) (fuel : Nat) (m : Machine) (t : Task) : R m (t.after b fuel m) := by
  have hall := h.keepsAll b fuel
  cases t with
  | eval e => exact hall.eval e m
  | evalEach es => exact hall.evalEach es m
  | call callee paren args => exact hall.call callee paren args m
  | dispatch callee paren args => exact hall.dispatch callee paren args m
  | apply c args => exact hall.apply c args m
  | exec s => exact hall.exec s m
  | loop condition body => exact hall.loop condition body m
  | execBlock frame body => exact hall.execBlock frame body m
  | execEach ss => exact hall.execEach ss m

/-! ### Relations between heaps -/

variable {Q : Heap → Heap → Prop} {b : Bindings} {t t' : Task} {m m' : Machine}

omit h

/-- A relation between heaps that is stable holds when a task starts a part of it. -/
theorem starts (hQ : Stable fun m m' => Q m.heap m'.heap) {step : Step}
    (hstarts : Starts b t m step t' m') : Q m.heap m'.heap := by
  have heval {e : Expr NodeId} {m m' : Machine} {v : Value} (he : Returns (eval b · e) m v m') :
      Q m.heap m'.heap := he.keeps fun fuel => (hQ.keepsAll b fuel).eval e
  have hevalEach {es : List (Expr NodeId)} {m m' : Machine} {vs : List Value}
      (hes : Returns (evalEach b · es) m vs m') : Q m.heap m'.heap :=
    hes.keeps fun fuel => (hQ.keepsAll b fuel).evalEach es
  have hexec {s : Stmt NodeId} {m m' : Machine} (hs : Returns (exec b · s) m () m') :
      Q m.heap m'.heap := hs.keeps fun fuel => (hQ.keepsAll b fuel).exec s
  -- what has run before the part starts
  cases hstarts with
  | binaryRight h | logicalRight h | arguments h | setValue h | others h | branch h | thenBranch h
    | elseBranch h | loopBody h => exact heval h
  | called h h' => exact hQ.trans (heval h) (hevalEach h')
  | initializer _ _ h h' =>
    cases h
    cases h'
    exact hQ.trans (hQ.addInstance m _) (hQ.addFrame (withHeap m (m.heap.addInstance _).2) _)
  | functionBody h | block h => cases h; exact hQ.addFrame m _
  | again h _ h' => exact hQ.trans (heval h) (hexec h')
  | otherStatements h => exact hexec h
  | _ => exact hQ.refl m

/-- A relation between heaps that is stable holds at every moment of a run. -/
theorem during (hQ : Stable fun m m' => Q m.heap m'.heap) {trail : List Step}
    (hduring : During b t m trail t' m') : Q m.heap m'.heap := by
  induction hduring with
  | start => exact hQ.refl m
  | part _ hstarts ih => exact hQ.trans ih (hQ.starts hstarts)

end Stable

end

end Evaluation

end LoxLang
