import LoxLang.Proofs.Run.Discipline

/-!
# Invariants along a run

An `Invariant b I G` says what a task needs in order to start (`I`), and what every task leaves behind
on the heap (`G`), however it ends.  Each rule of `Starts` has to give what the part needs from what
the task needs, provided that the parts before it have left the heap as they should; and each change
of the heap has to keep what is left behind.

From this follows what every task leaves behind (`Invariant.after`) and that whatever starts at some
moment of a run has what it needs (`Invariant.during`).
-/

namespace LoxLang

namespace Evaluation

open Eval Exec

/-- A property that is no field is a method of the class. -/
theorem method?_of_property? {h : Heap} {i : InstanceId} {name : String} {c : Closure}
    (hproperty : h.property? i name = some (.method c)) :
    ∃ o, h.instances[i]? = some o ∧ h.method? o.classId name = some c := by
  rw [Heap.property?, Option.bind_eq_some_iff] at hproperty
  obtain ⟨o, ho, hproperty⟩ := hproperty
  split at hproperty
  · cases hproperty
  · obtain ⟨c', hc, heq⟩ := Option.map_eq_some_iff.1 hproperty
    obtain rfl := Property.method.inj heq
    exact ⟨o, ho, hc⟩

/-- What lies around the frame that the task makes, if it makes one at once. -/
def Task.around? (m : Machine) : Task → Option FrameId
  | .apply c _ => some c.frame
  | .exec (.block _) => some m.scope
  | _ => none

/-- What tasks need to start, and what they leave behind on the heap. -/
structure Invariant (b : Bindings) (I : Task → Machine → Prop) (G : Heap → Prop) : Prop where
  heap : ∀ {t m}, I t m → G m.heap
  part : ∀ {t m step t' m'}, I t m → Starts b t m step t' m' → G m'.heap → I t' m'
  addFrame : ∀ {t m around} vars, I t m → t.around? m = some around →
    G (m.heap.addFrame ⟨vars, some around⟩).2
  bindMethod : ∀ {h id name c} i, G h → h.method? id name = some c → G (h.bind c i).2
  addInstance : ∀ {h} i, G h → G (h.addInstance i).2
  setField : ∀ {h} i name v, G h → G (h.setField i name v)
  declare : ∀ {name value? m h} v, I (.exec (.var name value?)) m → G h →
    G (h.define m.scope name.lexeme v)
  assign : ∀ {id name value m h frame} v, I (.eval (.assign id name value)) m → G h →
    h.frames.has frame name.lexeme = true → G (h.define frame name.lexeme v)
  bound : ∀ {object name m i m' c}, I (.eval (.get object name)) m →
    Returns (eval b · object) m (.instanceRef i) m' → G m'.heap →
    m'.heap.property? i name.lexeme = some (.method c) →
    G ((m'.heap.bind c i).2.addFunction (m'.heap.bind c i).1).2
  function : ∀ {decl m}, I (.exec (.function decl)) m →
    G ((m.heap.addFunction ⟨decl, m.scope, false⟩).2.define m.scope decl.name.lexeme
      (.functionRef m.heap.functions.size))
  classDecl : ∀ {name methods m}, I (.exec (.classDecl name methods)) m →
    G ((m.heap.addClass ⟨name.lexeme, .ofList (methods.map fun d =>
      (d.name.lexeme, ⟨d, m.scope, d.isInitializer⟩))⟩).2.define m.scope name.lexeme
      (.classRef m.heap.classes.size))

section

variable {G : Heap → Prop} {ε α β : Type} {m : Machine}

/-- The run leaves a heap that satisfies `G`, however it ends. -/
def Leaves (G : Heap → Prop) (x : EStateM ε Machine α) (m : Machine) : Prop :=
  G (finalMachine (x m)).heap

theorem Returns.leaves {run : Nat → EStateM ε Machine α} {a : α} {m' : Machine}
    (h : Returns run m a m') (hrun : ∀ fuel, Leaves G (run fuel) m) : G m'.heap := by
  obtain ⟨fuel, hfuel⟩ := h
  have hm := hrun fuel
  rw [Leaves, hfuel] at hm
  exact hm

theorem leaves_bind {x : EStateM ε Machine α} {f : α → EStateM ε Machine β} (hx : Leaves G x m)
    (hf : ∀ a m', x m = .ok a m' → G m'.heap → Leaves G (f a) m') : Leaves G (x >>= f) m := by
  change G (finalMachine (EStateM.bind x f m)).heap
  rw [Leaves] at hx
  rw [EStateM.bind]
  cases hr : x m with
  | ok a m' => rw [hr] at hx; exact hf a m' hr hx
  | error e m' => rw [hr] at hx; exact hx

theorem leaves_get_bind {f : Machine → EStateM ε Machine β} (hf : Leaves G (f m) m) :
    Leaves G (MonadState.get >>= f) m := hf

theorem Leaves.toExec {x : Eval α} (hx : Leaves G x m) : Leaves G (toExec x) m := by
  rw [Leaves, Eval.toExec]
  rw [Leaves] at hx
  cases hr : x m with
  | ok a m' => rw [hr] at hx; exact hx
  | error s m' => rw [hr] at hx; exact hx

theorem toExec_ok {x : Eval α} {a : α} {m' : Machine} (h : toExec x m = .ok a m') :
    x m = .ok a m' := by
  rw [Eval.toExec] at h
  cases hr : x m with
  | ok a' m'' => rw [hr] at h; cases h; rfl
  | error s m'' => rw [hr] at h; cases h

theorem bind_ok {x : EStateM ε Machine α} {f : α → EStateM ε Machine β} {a : β}
    {m' : Machine} (h : (x >>= f) m = .ok a m') : ∃ c m₁, x m = .ok c m₁ ∧ f c m₁ = .ok a m' := by
  change EStateM.bind x f m = _ at h
  rw [EStateM.bind] at h
  cases hx : x m with
  | ok c m₁ => rw [hx] at h; exact ⟨c, m₁, rfl, h⟩
  | error e m₁ => rw [hx] at h; cases h

/-- A run of an expression inside a statement. -/
theorem leaves_lift_bind {x : Eval α} {f : α → Exec β} (hx : Leaves G x m)
    (hf : ∀ a m', x m = .ok a m' → G m'.heap → Leaves G (f a) m') :
    Leaves G (toExec x >>= f) m :=
  leaves_bind hx.toExec fun a m' h => hf a m' (toExec_ok h)

theorem Leaves.insideCall {x : Eval α} (hx : Leaves G x { m with depth := m.depth + 1 }) :
    Leaves G (insideCall x) m := by
  rw [Leaves, Eval.insideCall]
  rw [Leaves] at hx
  cases hr : x { m with depth := m.depth + 1 } with
  | ok a m' => rw [hr] at hx; exact hx
  | error s m' => rw [hr] at hx; exact hx

theorem Leaves.inFrame {x : Exec α} {frame : FrameId} (hx : Leaves G x { m with scope := frame }) :
    Leaves G (inFrame frame x) m := by
  rw [Leaves, Exec.inFrame]
  rw [Leaves] at hx
  cases hr : x { m with scope := frame } with
  | ok a m' => rw [hr] at hx; exact hx
  | error u m' => rw [hr] at hx; exact hx

theorem Leaves.catchReturn {x : Exec Unit} (hx : Leaves G x m) : Leaves G (catchReturn x) m := by
  rw [Leaves, Exec.catchReturn]
  rw [Leaves] at hx
  cases hr : x m with
  | ok a m' => rw [hr] at hx; exact hx
  | error u m' =>
    rw [hr] at hx
    cases u with
    | stopped s => exact hx
    | returned v => exact hx

theorem Leaves.ite {c : Prop} [Decidable c] {x y : EStateM ε Machine α} (hx : c → Leaves G x m)
    (hy : ¬c → Leaves G y m) : Leaves G (if c then x else y) m := by
  split_ifs with hc
  · exact hx hc
  · exact hy hc

/-! Runs that leave the heap alone. -/

variable (hG : G m.heap)

include hG

theorem leaves_liftFault (t : Token) (r : Except RuntimeFault α) : Leaves G (liftFault t r) m := by
  cases r with
  | ok a => exact hG
  | error f => exact hG

theorem leaves_readVariable (b : Bindings) (id : NodeId) (name : Token) :
    Leaves G (readVariable b id name) m := by
  unfold Leaves readVariable
  dsimp only
  split
  · exact hG
  · exact hG

theorem leaves_checkArity (paren : Token) (expected got : Nat) :
    Leaves G (checkArity paren expected got) m := .ite (fun _ => hG) fun _ => hG

theorem leaves_callNative (n : Native) : Leaves G (callNative n) m := by
  cases n with
  | clock => exact hG

theorem leaves_callResult (c : Closure) (returned? : Option Value) :
    Leaves G (callResult c returned?) m := .ite (fun _ => hG) fun _ => hG

theorem leaves_printLine (text : String) : Leaves G (printLine text) m := by
  rw [Leaves, printLine]
  split_ifs
  · exact hG
  · exact hG

end

theorem checkArity_ok {paren : Token} {expected got : Nat} {m m' : Machine}
    (h : checkArity paren expected got m = .ok () m') : m' = m ∧ expected = got := by
  unfold checkArity at h
  split_ifs at h with heq
  · cases h; exact ⟨rfl, heq⟩
  · cases h

theorem checkDepth_ok {paren : Token} {m m' : Machine} (h : checkDepth paren m = .ok () m') :
    m' = m ∧ m.depth < maxCallDepth := by
  change (if maxCallDepth ≤ m.depth then failAt paren .tooManyCalls else pure ()) m = _ at h
  split_ifs at h with hm
  · cases h
  · cases h; exact ⟨rfl, by omega⟩

/-! ### What tasks leave behind -/

/-- Whatever may start leaves what it should behind, with this much fuel. -/
structure LeavesAll (b : Bindings) (I : Task → Machine → Prop) (G : Heap → Prop) (fuel : Nat) :
    Prop where
  eval : ∀ {e m}, I (.eval e) m → Leaves G (Evaluation.eval b fuel e) m
  evalEach : ∀ {es m}, I (.evalEach es) m → Leaves G (Evaluation.evalEach b fuel es) m
  call : ∀ {callee paren args m}, I (.call callee paren args) m →
    Leaves G (Evaluation.call b fuel callee paren args) m
  dispatch : ∀ {callee paren args m}, I (.dispatch callee paren args) m →
    Leaves G (Evaluation.dispatch b fuel callee paren args) m
  apply : ∀ {c args m}, I (.apply c args) m → Leaves G (Evaluation.apply b fuel c args) m
  exec : ∀ {s m}, I (.exec s) m → Leaves G (Evaluation.exec b fuel s) m
  loop : ∀ {condition body m}, I (.loop condition body) m →
    Leaves G (Evaluation.loop b fuel condition body) m
  execBlock : ∀ {frame body m}, I (.execBlock frame body) m →
    Leaves G (Evaluation.execBlock b fuel frame body) m
  execEach : ∀ {ss m}, I (.execEach ss) m → Leaves G (Evaluation.execEach b fuel ss) m

/-- An expression that may be missing, as part of a statement that goes on with its value. -/
theorem leaves_optional {b : Bindings} {I : Task → Machine → Prop} {G : Heap → Prop} {fuel : Nat}
    {m : Machine} (ih : LeavesAll b I G fuel) {value? : Option (Expr NodeId)}
    {f : Value → Exec Unit} (hG : G m.heap)
    (hvalue : ∀ e, value? = some e → I (.eval e) m)
    (hf : ∀ v m', m'.scope = m.scope → G m'.heap → Leaves G (f v) m') :
    Leaves G (do
      let v ← match value? with
        | some e => (eval b fuel e : Exec Value)
        | none => pure Value.nil
      f v) m := by
  cases value? with
  | none => exact hf _ _ rfl hG
  | some e =>
    refine leaves_lift_bind (ih.eval (hvalue e rfl)) fun v m' hv hG' => hf v m' ?_ hG'
    exact scope_of_eval ⟨fuel, hv⟩

namespace Invariant

variable {b : Bindings} {I : Task → Machine → Prop} {G : Heap → Prop} {fuel : Nat} {m : Machine}
  (inv : Invariant b I G)

include inv

theorem leaves_assignVariable {id : NodeId} {name : Token} {value : Expr NodeId} {m' : Machine}
    (h : I (.eval (.assign id name value)) m) (hG : G m'.heap) (v : Value) :
    Leaves G (assignVariable b id name v) m' := by
  unfold Leaves assignVariable
  split
  · next hholder =>
    exact inv.assign _ h hG (Frames.holder?_eq_some_iff.1 hholder).2
  · exact hG

theorem leaves_newFrame {t : Task} (h : I t m) (vars : NameMap Value) {around : FrameId}
    (haround : t.around? m = some around) : Leaves G (newFrame vars around) m :=
  inv.addFrame vars h haround

theorem leaves_bind_method (hG : G m.heap) {id : ClassId} {name : String} {c : Closure}
    (hc : m.heap.method? id name = some c) (i : InstanceId) :
    Leaves G (onHeap (·.bind c i)) m := inv.bindMethod i hG hc

theorem leaves_readProperty {object : Expr NodeId} {name : Token} {i : InstanceId} {m' : Machine}
    (h : I (.eval (.get object name)) m) (ho : Returns (eval b · object) m (.instanceRef i) m')
    (hG : G m'.heap) : Leaves G (readProperty i name) m' := by
  refine leaves_get_bind ?_
  cases hp : m'.heap.property? i name.lexeme with
  | none => exact hG
  | some p =>
    cases p with
    | field v => exact hG
    | method c => exact inv.bound h ho hG hp

theorem leaves_eval (ih : LeavesAll b I G fuel) {e : Expr NodeId} (h : I (.eval e) m) :
    Leaves G (eval b (fuel + 1) e) m := by
  have hG := inv.heap h
  cases e with
  | literal l => exact hG
  | group inner => exact ih.eval (inv.part h .group hG)
  | unary op operand =>
    exact leaves_bind (ih.eval (inv.part h .unary hG)) fun v m' _ hG' => leaves_liftFault hG' _ _
  | binary left op right =>
    refine leaves_bind (ih.eval (inv.part h .binaryLeft hG)) fun l m' hl hG' => ?_
    refine leaves_bind (ih.eval (inv.part h (.binaryRight ⟨fuel, hl⟩) hG')) fun r m'' _ hG'' => ?_
    exact leaves_liftFault hG'' _ _
  | logical left op right =>
    refine leaves_bind (ih.eval (inv.part h .logicalLeft hG)) fun l m' hl hG' => ?_
    refine .ite (fun _ => hG') fun hc => ?_
    exact ih.eval (inv.part h (.logicalRight ⟨fuel, hl⟩ (by simpa using hc)) hG')
  | var id name => exact leaves_readVariable hG b id name
  | assign id name value =>
    refine leaves_bind (ih.eval (inv.part h .assigned hG)) fun v m' _ hG' => ?_
    exact leaves_bind (inv.leaves_assignVariable h hG' v) fun _ m'' _ hG'' => hG''
  | call callee paren args =>
    refine leaves_bind (ih.eval (inv.part h .callee hG)) fun f m' hf hG' => ?_
    refine leaves_bind (ih.evalEach (inv.part h (.arguments ⟨fuel, hf⟩) hG')) fun vs m'' hvs hG'' => ?_
    exact ih.call (inv.part h (.called ⟨fuel, hf⟩ ⟨fuel, hvs⟩) hG'')
  | get object name =>
    refine leaves_bind (ih.eval (inv.part h .object hG)) fun o m' ho hG' => ?_
    cases o with
    | instanceRef i => exact inv.leaves_readProperty h ⟨fuel, ho⟩ hG'
    | _ => exact hG'
  | set object name value =>
    refine leaves_bind (ih.eval (inv.part h .setObject hG)) fun o m' ho hG' => ?_
    cases o with
    | instanceRef i =>
      refine leaves_bind (ih.eval (inv.part h (.setValue ⟨fuel, ho⟩) hG')) fun v m'' _ hG'' => ?_
      exact inv.setField _ _ _ hG''
    | _ => exact hG'
  | thisRef id keyword => exact leaves_readVariable hG b id keyword

theorem leaves_dispatch (ih : LeavesAll b I G fuel) {callee : Value} {paren : Token}
    {args : List Value} (h : I (.dispatch callee paren args) m) :
    Leaves G (dispatch b (fuel + 1) callee paren args) m := by
  have hG := inv.heap h
  cases callee with
  | native n =>
    refine leaves_bind (leaves_checkArity hG _ _ _) fun _ m' _ hG' => ?_
    exact leaves_callNative hG' n
  | functionRef id =>
    refine leaves_get_bind ?_
    split
    · next c hc =>
      refine leaves_bind (leaves_checkArity hG _ _ _) fun _ m' hm' hG' => ?_
      obtain ⟨rfl, harity⟩ := checkArity_ok hm'
      exact ih.apply (inv.part h (.function hc harity) hG)
    · exact hG
  | classRef id =>
    refine leaves_get_bind (leaves_bind (leaves_checkArity hG _ _ _) fun _ m' hm' hG' => ?_)
    -- the instance is made before its initializer runs, and stays if this fails
    obtain ⟨rfl, harity⟩ := checkArity_ok hm'
    refine leaves_bind (inv.addInstance _ hG) fun i m₁ hi hG₁ => ?_
    split
    · next c hc =>
      have hmethod : m₁.heap.method? id initializerName = some c := by cases hi; exact hc
      refine leaves_bind (inv.leaves_bind_method hG₁ hmethod i) fun bound m₂ hbound hG₂ => ?_
      rw [hc] at harity
      refine leaves_bind (ih.apply (inv.part h (.initializer hc harity hi hbound) hG₂)) ?_
      exact fun _ m₃ _ hG₃ => hG₃
    · exact hG₁
  | _ => exact hG

theorem leaves_exec (ih : LeavesAll b I G fuel) {s : Stmt NodeId} (h : I (.exec s) m) :
    Leaves G (exec b (fuel + 1) s) m := by
  have hG := inv.heap h
  cases s with
  | expr e => exact leaves_lift_bind (ih.eval (inv.part h .expression hG)) fun _ m' _ hG' => hG'
  | print e =>
    refine leaves_lift_bind (ih.eval (inv.part h .printed hG)) fun v m' _ hG' => ?_
    exact leaves_get_bind (leaves_printLine hG' _).toExec
  | var name value? =>
    refine leaves_optional ih hG (fun e he => ?_) fun v m' hscope hG' => ?_
    · subst he
      exact inv.part h .varInitializer hG
    · have hdefine := inv.declare v h hG'
      rw [← hscope] at hdefine
      exact Leaves.toExec (x := defineVariable name v) hdefine
  | block body =>
    refine leaves_get_bind ?_
    refine leaves_lift_bind (inv.leaves_newFrame h _ rfl) fun frame m' hframe hG' => ?_
    exact ih.execBlock (inv.part h (.block hframe) hG')
  | ifThen condition s =>
    refine leaves_lift_bind (ih.eval (inv.part h .condition hG)) fun c m' hc hG' => ?_
    exact .ite (fun ht => ih.exec (inv.part h (.branch ⟨fuel, hc⟩ ht) hG')) fun _ => hG'
  | ifElse condition s s' =>
    refine leaves_lift_bind (ih.eval (inv.part h .elseCondition hG)) fun c m' hc hG' => ?_
    refine .ite (fun ht => ih.exec (inv.part h (.thenBranch ⟨fuel, hc⟩ ht) hG')) fun ht => ?_
    exact ih.exec (inv.part h (.elseBranch ⟨fuel, hc⟩ (by simpa using ht)) hG')
  | whileLoop condition body => exact ih.loop (inv.part h .whileLoop hG)
  | function decl => exact inv.function h
  | ret keyword value? =>
    refine leaves_optional ih hG (fun e he => ?_) fun v m' _ hG' => hG'
    subst he
    exact inv.part h .returned hG
  | classDecl name methods => exact inv.classDecl h

theorem leavesAll (fuel : Nat) : LeavesAll b I G fuel := by
  induction fuel with
  | zero =>
    constructor
    -- without fuel nothing happens to the heap
    all_goals intros; exact inv.heap ‹_›
  | succ fuel ih =>
    constructor
    case eval => exact inv.leaves_eval ih
    case evalEach =>
      rintro (_ | ⟨e, es⟩) m h
      · exact inv.heap h
      · have hG := inv.heap h
        refine leaves_bind (ih.eval (inv.part h .first hG)) fun v m' hv hG' => ?_
        refine leaves_bind (ih.evalEach (inv.part h (.others ⟨fuel, hv⟩) hG')) ?_
        exact fun vs m'' _ hG'' => hG''
    case call =>
      intro callee paren args m h
      have hG := inv.heap h
      refine leaves_bind (leaves_get_bind (.ite (fun _ => hG) fun _ => hG)) fun _ m' hm' _ => ?_
      obtain ⟨rfl, hdepth⟩ := checkDepth_ok hm'
      exact (ih.dispatch (inv.part h (.entered hdepth) hG)).insideCall
    case dispatch => exact inv.leaves_dispatch ih
    case apply =>
      intro c args m h
      refine leaves_bind (inv.leaves_newFrame h _ rfl) fun frame m' hframe hG' => ?_
      refine leaves_bind (ih.execBlock (inv.part h (.functionBody hframe) hG')).catchReturn ?_
      exact fun r m'' _ hG'' => leaves_callResult hG'' c r
    case exec => exact inv.leaves_exec ih
    case loop =>
      intro condition body m h
      have hG := inv.heap h
      refine leaves_lift_bind (ih.eval (inv.part h .loopCondition hG)) fun c m' hc hG' => ?_
      refine .ite (fun ht => ?_) fun _ => hG'
      refine leaves_bind (ih.exec (inv.part h (.loopBody ⟨fuel, hc⟩ ht) hG')) fun _ m'' hb hG'' => ?_
      exact ih.loop (inv.part h (.again ⟨fuel, hc⟩ ht ⟨fuel, hb⟩) hG'')
    case execBlock =>
      intro frame body m h
      have hG := inv.heap h
      exact (ih.execEach (inv.part h .statements hG)).inFrame
    case execEach =>
      rintro (_ | ⟨s, ss⟩) m h
      · exact inv.heap h
      · refine leaves_bind (ih.exec (inv.part h .firstStatement (inv.heap h))) fun _ m' hs hG' => ?_
        exact ih.execEach (inv.part h (.otherStatements ⟨fuel, hs⟩) hG')

/-- Whatever may start leaves what it should behind. -/
theorem after {t : Task} (h : I t m) (fuel : Nat) : G (t.after b fuel m).heap := by
  have hall := inv.leavesAll fuel
  cases t with
  | eval e => exact hall.eval h
  | evalEach es => exact hall.evalEach h
  | call callee paren args => exact hall.call h
  | dispatch callee paren args => exact hall.dispatch h
  | apply c args => exact hall.apply h
  | exec s => exact hall.exec h
  | loop condition body => exact hall.loop h
  | execBlock frame body => exact hall.execBlock h
  | execEach ss => exact hall.execEach h

/-! ### What starts during a run -/

theorem heap_of_eval {e : Expr NodeId} {v : Value} {m' : Machine} (h : I (.eval e) m)
    (hv : Returns (eval b · e) m v m') : G m'.heap :=
  hv.leaves fun fuel => (inv.leavesAll fuel).eval h

theorem heap_of_evalEach {es : List (Expr NodeId)} {vs : List Value} {m' : Machine}
    (h : I (.evalEach es) m) (hvs : Returns (evalEach b · es) m vs m') : G m'.heap :=
  hvs.leaves fun fuel => (inv.leavesAll fuel).evalEach h

theorem heap_of_exec {s : Stmt NodeId} {m' : Machine} (h : I (.exec s) m)
    (hs : Returns (exec b · s) m () m') : G m'.heap :=
  hs.leaves fun fuel => (inv.leavesAll fuel).exec h

/-- The parts before a part leave behind what they should. -/
theorem heap_of_starts {t t' : Task} {step : Step} {m' : Machine} (h : I t m)
    (hstarts : Starts b t m step t' m') : G m'.heap := by
  have hG := inv.heap h
  -- the part runs on the machine that the parts before it have left
  cases hstarts with
  | binaryRight hl => exact inv.heap_of_eval (inv.part h .binaryLeft hG) hl
  | logicalRight hl => exact inv.heap_of_eval (inv.part h .logicalLeft hG) hl
  | arguments hf => exact inv.heap_of_eval (inv.part h .callee hG) hf
  | called hf hvs =>
    have hG' := inv.heap_of_eval (inv.part h .callee hG) hf
    exact inv.heap_of_evalEach (inv.part h (.arguments hf) hG') hvs
  | setValue ho => exact inv.heap_of_eval (inv.part h .setObject hG) ho
  | others hv => exact inv.heap_of_eval (inv.part h .first hG) hv
  | initializer hc _ hi hbound =>
    cases hi
    cases hbound
    exact inv.bindMethod _ (inv.addInstance _ hG) hc
  | functionBody hframe => cases hframe; exact inv.addFrame _ h rfl
  | block hframe => cases hframe; exact inv.addFrame _ h rfl
  | branch hc => exact inv.heap_of_eval (inv.part h .condition hG) hc
  | thenBranch hc | elseBranch hc => exact inv.heap_of_eval (inv.part h .elseCondition hG) hc
  | loopBody hc => exact inv.heap_of_eval (inv.part h .loopCondition hG) hc
  | again hc ht hb =>
    have hG' := inv.heap_of_eval (inv.part h .loopCondition hG) hc
    exact inv.heap_of_exec (inv.part h (.loopBody hc ht) hG') hb
  | otherStatements hs => exact inv.heap_of_exec (inv.part h .firstStatement hG) hs
  | _ => exact hG

/-- Whatever starts at some moment of a run has what it needs. -/
theorem during {t t' : Task} {trail : List Step} {m' : Machine} (h : I t m)
    (hduring : During b t m trail t' m') : I t' m' := by
  -- along the trail: what starts next finds what the last part needs
  induction hduring with
  | start => exact h
  | part _ hstarts ih => exact inv.part ih hstarts (inv.heap_of_starts ih hstarts)

end Invariant

end Evaluation

end LoxLang
