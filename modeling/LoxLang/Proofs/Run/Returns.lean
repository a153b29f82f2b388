import Mathlib
import LoxLang.Proofs.Run.Ensures
import LoxLang.Proofs.Run.Invariant
import LoxLang.Proofs.Scope.Programs

/-!
# Returns

A statement that the scope check has found no fault in ends with a `return` only where its body allows
one: not at the top level of a program, and in an initializer only without a value (`Body.Permits`,
`returnsAll`).

This says something about calls because every closure on the heap was checked as the kind of body that
it runs as (`WellChecked`): the methods called `init` are initializers for the check and for the
evaluator alike, and nothing else is.  So no `return` leaves a program, and none takes a value out of an
initializer (`returns_stay_inside`).
-/

namespace LoxLang

open Scoping Evaluation Eval Exec

/-- A `return` in such a body may carry the value. -/
def Scoping.Body.Permits : Body → Value → Prop
  | .topLevel, _ => False
  | .function, _ => True
  | .initializer, v => v = .nil

namespace Evaluation

/-! ### Statements that end with a return -/

/-- If the run ends with a `return`, the body permits it. -/
def ReturnsWithin {α : Type} (body : Body) (x : Exec α) : Prop :=
  Ensures (fun _ => True) (fun _ => True) (Unwind.Carries body.Permits) x

/-- An expression does not return. -/
theorem returnsWithin_toExec {α : Type} {body : Body} (x : Eval α) :
    ReturnsWithin body (toExec x) := by
  refine Ensures.toExec (F := fun _ => True) fun m _ => ?_
  cases x m <;> exact ⟨trivial, trivial⟩

/-- What has been checked without a fault returns only as its body permits, with this much fuel. -/
structure ReturnsAll (b : Bindings) (fuel : Nat) : Prop where
  exec : ∀ {s ctx scopes}, (Visit.mk (.stmt s) ctx scopes).report.errors = [] →
    ReturnsWithin ctx.body (exec b fuel s)
  loop : ∀ {condition s ctx scopes},
    (Visit.mk (.stmt (.whileLoop condition s)) ctx scopes).report.errors = [] →
    ReturnsWithin ctx.body (loop b fuel condition s)
  execBlock : ∀ {ss ctx scopes}, (Visit.mk (.stmts ss) ctx scopes).report.errors = [] →
    ∀ frame, ReturnsWithin ctx.body (execBlock b fuel frame ss)
  execEach : ∀ {ss ctx scopes}, (Visit.mk (.stmts ss) ctx scopes).report.errors = [] →
    ReturnsWithin ctx.body (execEach b fuel ss)

/-- The check refuses a `return` outside of functions, and one with a value in an initializer. -/
theorem permits_of_ret {keyword : Token} {value? : Option (Expr NodeId)} {ctx : Context}
    {scopes : Scopes} (h : (Visit.mk (.stmt (.ret keyword value?)) ctx scopes).report.errors = [])
    (v : Value) (hv : value? = none → v = .nil) : ctx.body.Permits v := by
  simp only [Visit.report, Code.pass, stmt, Pass.append_apply, List.append_eq_nil_iff] at h
  obtain ⟨⟨htop, hvalue⟩, -⟩ := h
  obtain ⟨body, inClass⟩ := ctx
  cases body with
  | topLevel => simp [Pass.faultIf, Pass.fault] at htop
  | function => trivial
  | initializer =>
    cases value? with
    | none => exact hv rfl
    | some e => simp [Pass.faultIf, Pass.fault] at hvalue

section

variable {b : Bindings} {fuel : Nat}

theorem returns_exec (ih : ReturnsAll b fuel) {s : Stmt NodeId} {ctx : Context} {scopes : Scopes}
    (h : (Visit.mk (.stmt s) ctx scopes).report.errors = []) :
    ReturnsWithin ctx.body (exec b (fuel + 1) s) := by
  cases s with
  | expr e => exact .bind (returnsWithin_toExec _) fun _ _ => .pure trivial
  | print e =>
    refine .bind (returnsWithin_toExec _) fun v _ => .get_bind fun _ _ => ?_
    exact returnsWithin_toExec _
  | var name value? =>
    cases value? with
    | none => exact returnsWithin_toExec (defineVariable name .nil)
    | some e => exact .bind (returnsWithin_toExec _) fun _ _ => returnsWithin_toExec _
  | block body =>
    refine .get_bind fun _ _ => .bind (returnsWithin_toExec _) fun frame _ => ?_
    exact ih.execBlock (Visit.errors_of_mem h (List.mem_singleton.2 rfl)) frame
  | ifThen condition s =>
    refine .bind (returnsWithin_toExec _) fun _ _ => .ite ?_ (.pure trivial)
    exact ih.exec (Visit.errors_of_mem h (List.mem_of_getElem? (i := 1) rfl))
  | ifElse condition s s' =>
    refine .bind (returnsWithin_toExec _) fun _ _ => .ite ?_ ?_
    · exact ih.exec (Visit.errors_of_mem h (List.mem_of_getElem? (i := 1) rfl))
    · exact ih.exec (Visit.errors_of_mem h (List.mem_of_getElem? (i := 2) rfl))
  | whileLoop condition body => exact ih.loop h
  | function decl =>
    refine .get_bind fun _ _ => .bind (returnsWithin_toExec _) fun _ _ => ?_
    exact returnsWithin_toExec _
  -- the only statement that raises a return by itself
  | ret keyword value? =>
    cases value? with
    | none => exact .throw (permits_of_ret h .nil fun _ => rfl)
    | some e => exact .bind (returnsWithin_toExec _) fun v _ => .throw (permits_of_ret h v nofun)
  | classDecl name methods =>
    refine .get_bind fun _ _ => .bind (returnsWithin_toExec _) fun _ _ => ?_
    exact returnsWithin_toExec _

theorem returnsAll (b : Bindings) (fuel : Nat) : ReturnsAll b fuel := by
  induction fuel with
  | zero =>
    constructor
    all_goals intros; exact returnsWithin_toExec exhaust
  | succ fuel ih =>
    constructor
    case exec => exact returns_exec ih
    case loop =>
      intro condition s ctx scopes h
      have hbody := Visit.errors_of_mem h (List.mem_of_getElem? (i := 1) rfl)
      refine .bind (returnsWithin_toExec _) fun _ _ => .ite ?_ (.pure trivial)
      exact .bind (ih.exec hbody) fun _ _ => ih.loop h
    case execBlock =>
      exact fun h frame => .inFrame (ih.execEach h) (fun _ _ => trivial) fun _ _ _ _ => trivial
    case execEach =>
      rintro (_ | ⟨s, ss⟩) ctx scopes h
      · exact .pure trivial
      · have hfirst := Visit.errors_of_mem h (List.mem_of_getElem? (i := 0) rfl)
        have hrest := Visit.errors_of_mem h (List.mem_of_getElem? (i := 1) rfl)
        exact .bind (ih.exec hfirst) fun _ _ => ih.execEach hrest

end

end Evaluation

/-! ### Closures -/

/-- The check has found no fault in the declaration of the closure, which it took for an initializer
if and only if the closure is one. -/
def Closure.Checked (c : Closure) : Prop :=
  ∃ kind ctx scopes, (Visit.mk (.function kind c.decl) ctx scopes).report.errors = [] ∧
    (c.isInitializer = true ↔ kind = .initializer)

/-- All closures are checked, and the initializers of classes are the methods called `init`. -/
structure WellChecked (h : Heap) : Prop where
  functions : ∀ {id : FunctionId} {c : Closure}, h.functions[id]? = some c → c.Checked
  methods : ∀ {id : ClassId} {name : String} {c : Closure}, h.method? id name = some c →
    c.Checked ∧ (c.isInitializer = true ↔ name = initializerName)

/-- The check has found no fault in what the task is about. -/
def Evaluation.Task.Checked : Task → Prop
  | .apply c _ => c.Checked
  | .exec s => ∃ ctx scopes, (Visit.mk (.stmt s) ctx scopes).report.errors = []
  | .loop condition body =>
    ∃ ctx scopes, (Visit.mk (.stmt (.whileLoop condition body)) ctx scopes).report.errors = []
  | .execBlock _ ss => ∃ ctx scopes, (Visit.mk (.stmts ss) ctx scopes).report.errors = []
  | .execEach ss => ∃ ctx scopes, (Visit.mk (.stmts ss) ctx scopes).report.errors = []
  | .eval _ | .evalEach _ | .call _ _ _ | .dispatch _ _ _ => True

theorem Evaluation.Task.Checked.starts {b : Bindings} {t t' : Task} {m m' : Machine} {step : Step}
    (ht : t.Checked) (hm : WellChecked m.heap) (hstarts : Starts b t m step t' m') : t'.Checked := by
  cases hstarts with
  | function hc => exact hm.functions hc
  | initializer hc _ hi hbound =>
    cases hi
    cases hbound
    exact (hm.methods hc).1
  | functionBody =>
    obtain ⟨kind, ctx, scopes, h, -⟩ := ht
    exact ⟨_, _, Visit.errors_of_mem h (List.mem_of_getElem? (i := 0) rfl)⟩
  | block =>
    obtain ⟨ctx, scopes, h⟩ := ht
    exact ⟨_, _, Visit.errors_of_mem h (List.mem_of_getElem? (i := 0) rfl)⟩
  | branch | thenBranch | loopBody =>
    obtain ⟨ctx, scopes, h⟩ := ht
    exact ⟨_, _, Visit.errors_of_mem h (List.mem_of_getElem? (i := 1) rfl)⟩
  | elseBranch =>
    obtain ⟨ctx, scopes, h⟩ := ht
    exact ⟨_, _, Visit.errors_of_mem h (List.mem_of_getElem? (i := 2) rfl)⟩
  | firstStatement =>
    obtain ⟨ctx, scopes, h⟩ := ht
    exact ⟨_, _, Visit.errors_of_mem h (List.mem_of_getElem? (i := 0) rfl)⟩
  | otherStatements =>
    obtain ⟨ctx, scopes, h⟩ := ht
    exact ⟨_, _, Visit.errors_of_mem h (List.mem_of_getElem? (i := 1) rfl)⟩
  | whileLoop | again | statements => exact ht
  | _ => trivial

theorem WellChecked.addFunction {h : Heap} (hh : WellChecked h) {c : Closure}
    (hc : c.Checked) : WellChecked (h.addFunction c).2 where
  functions := by
    intro id c' hc'
    simp only [Heap.addFunction, Array.getElem?_push] at hc'
    split at hc'
    · obtain rfl := Option.some.inj hc'
      exact hc
    · exact hh.functions hc'
  methods := hh.methods

theorem WellChecked.addClass {h : Heap} (hh : WellChecked h) {cls : Class}
    (hcls : ∀ name c, cls.methods.get? name = some c →
      c.Checked ∧ (c.isInitializer = true ↔ name = initializerName)) :
    WellChecked (h.addClass cls).2 where
  functions := hh.functions
  methods hc := (method?_addClass hc).elim (hcls _ _) hh.methods

/-- Checked tasks leave checked closures behind. -/
theorem checked_invariant (b : Bindings) :
    Invariant b (fun t m => t.Checked ∧ WellChecked m.heap) WellChecked where
  heap h := h.2
  part h hstarts hG := ⟨h.1.starts h.2 hstarts, hG⟩
  addFrame _ h _ := ⟨h.2.functions, h.2.methods⟩
  bindMethod _ h _ := ⟨h.functions, h.methods⟩
  addInstance _ h := ⟨h.functions, h.methods⟩
  setField _ _ _ h := ⟨h.functions, h.methods⟩
  declare _ _ h := ⟨h.functions, h.methods⟩
  assign _ _ h _ := ⟨h.functions, h.methods⟩
  bound := by
    intro object name m i m' c _ _ hh hproperty
    obtain ⟨o, -, hc⟩ := method?_of_property? hproperty
    -- a bound method is its method in a frame of its own
    have hbound : WellChecked (m'.heap.bind c i).2 := ⟨hh.functions, hh.methods⟩
    exact hbound.addFunction (hh.methods hc).1
  function := by
    rintro decl m ⟨⟨ctx, scopes, h⟩, hh⟩
    have hdecl := Visit.errors_of_mem h (List.mem_of_getElem? (i := 0) rfl)
    have hadd := hh.addFunction (c := ⟨decl, m.scope, false⟩)
      ⟨.function, _, _, hdecl, by simp⟩
    exact ⟨hadd.functions, hadd.methods⟩
  classDecl := by
    rintro name ms m ⟨⟨ctx, scopes, h⟩, hh⟩
    have hmethods := Visit.errors_of_mem h (List.mem_of_getElem? (i := 0) rfl)
    have hadd : WellChecked (m.heap.addClass ⟨name.lexeme, .ofList (ms.map fun d =>
        (d.name.lexeme, ⟨d, m.scope, d.isInitializer⟩))⟩).2 := by
      refine hh.addClass fun n c hc => ?_
      obtain ⟨d, hd, heq⟩ := List.mem_map.1 (NameMap.mem_of_get?_ofList hc)
      obtain ⟨rfl, rfl⟩ := Prod.mk.inj heq
      have hdecl := Visit.method_of_methods (P := fun v => v.report.errors = [])
        Visit.errors_of_mem hmethods hd
      exact ⟨⟨methodKind d, _, _, hdecl, by simp [methodKind]⟩, by simp [FunDecl.isInitializer]⟩
    exact ⟨hadd.functions, hadd.methods⟩

theorem wellChecked_initial : WellChecked .initial where
  functions h := by simp [Heap.initial] at h
  methods h := by simp [Heap.method?, Heap.initial] at h

theorem wellChecked_run (s : Session) (fuel : Nat) (source : String)
    (hs : WellChecked s.machine.heap) : WellChecked (s.run fuel source).2.machine.heap := by
  cases h : s.accepts source with
  | true =>
    rw [Session.run_of_accepts h]
    exact (checked_invariant _).after (t := .execEach (s.program source)) (m := s.ready)
      ⟨⟨_, _, Session.check_program h⟩, hs⟩ fuel
  | false =>
    obtain ⟨bindings, -, hrun⟩ := Session.run_of_not_accepts h fuel
    rw [hrun]
    exact hs

/-! ### Calls -/

/-- The call of the closure on the machine ends with a `return` of the value. -/
def Catches (b : Bindings) (c : Closure) (args : List Value) (m : Machine) (v : Value) : Prop :=
  ∃ fuel frame m' m'', newFrame (parameterVars c.decl args) c.frame m = .ok frame m' ∧
    execBlock b fuel frame c.decl.body m' = .error (.returned v) m''

theorem Closure.Checked.nil_of_catches {c : Closure} (hc : c.Checked)
    (hinit : c.isInitializer = true) {b : Bindings} {args : List Value} {m : Machine} {v : Value}
    (h : Catches b c args m v) : v = .nil := by
  obtain ⟨kind, ctx, scopes, hdecl, hkind⟩ := hc
  obtain ⟨fuel, frame, m', m'', -, hreturned⟩ := h
  obtain rfl := hkind.1 hinit
  have hbody := Visit.errors_of_mem hdecl (List.mem_of_getElem? (i := 0) rfl)
  exact (((returnsAll b fuel).execBlock hbody frame).error trivial hreturned).1

/-- While an accepted source runs, in a session of any earlier runs, no `return` reaches the top level.
The initializer of a class is the method called `init`.  Whatever is called has been checked as what it
is, an initializer or not, and a `return` that ends the call of an initializer carries `nil`. -/
theorem returns_stay_inside (limit? : Option Nat) (clock : Clock) (steps : List (Nat × String))
    (source : String) (s : Session) (hs : s = (Session.start limit? clock).runAll steps)
    (haccepts : s.accepts source = true) :
    (∀ fuel v m, execEach (s.bindingsFor source) fuel (s.program source) s.ready ≠
      .error (.returned v) m) ∧
    ∀ trail t m,
      During (s.bindingsFor source) (.execEach (s.program source)) s.ready trail t m →
      (∀ id name c, m.heap.method? id name = some c →
        (c.isInitializer = true ↔ name = initializerName)) ∧
      ∀ c args, t = .apply c args → c.Checked ∧
        (c.isInitializer = true → ∀ v, Catches (s.bindingsFor source) c args m v → v = .nil) := by
  have hprogram := Session.check_program haccepts
  have hheap : WellChecked s.machine.heap :=
    hs ▸ Session.runAll_induction wellChecked_run wellChecked_initial steps
  constructor
  · intro fuel v m h
    -- the body of a program permits no value at all
    have hreturns : ReturnsWithin Context.program.body _ :=
      (returnsAll (s.bindingsFor source) fuel).execEach hprogram
    exact (hreturns.error trivial h).1
  · intro trail t m hduring
    obtain ⟨ht, hm⟩ := (checked_invariant _).during (t := .execEach _) (m := s.ready)
      ⟨⟨_, _, hprogram⟩, hheap⟩ hduring
    refine ⟨fun id name c hc => (hm.methods hc).2, ?_⟩
    rintro c args rfl
    exact ⟨ht, fun hinit v hcatches => Closure.Checked.nil_of_catches ht hinit hcatches⟩

/-- A class whose initializer returns, and a call of the class. -/
def returningInitializer : List (Stmt NodeId) :=
  let className : Token := ⟨.symbol .identifier, "A", 1⟩
  [.classDecl className
      [⟨0, ⟨.symbol .identifier, "init", 1⟩, [], [.ret ⟨.symbol .returnKw, "return", 1⟩ none]⟩],
    .expr (.call (.var 1 className) ⟨.symbol .rightParen, ")", 1⟩ [])]

theorem catches_returningInitializer {b : Bindings} (hglobal : b.distance? 1 = none) (clock : Clock) :
    ∃ trail c m, During b (.execEach returningInitializer) (Session.start none clock).ready trail
      (.apply c []) m ∧ c.isInitializer = true ∧ Catches b c [] m .nil := by
  have hread (m : Machine) (h : m.heap.frames.getHere? globalFrame "A" = some (.classRef 0)) :
      eval b 1 (.var 1 ⟨.symbol .identifier, "A", 1⟩) m = .ok (.classRef 0) m := by
    have hhas : m.heap.frames.has globalFrame "A" = true := Frames.has_iff.2 ⟨_, h⟩
    simp [eval, readVariable, place, hglobal, Frames.getAt?, Frames.holder?, Frames.ancestor?, hhas,
      Option.filter, h]
  have hduring : During b (.execEach returningInitializer) (Session.start none clock).ready _
      (.apply _ []) _ :=
    (((((During.start.part (.otherStatements ⟨1, rfl⟩)).part .firstStatement).part .expression).part
      (.called ⟨1, hread _ rfl⟩ ⟨1, rfl⟩)).part (.entered (show 0 < maxCallDepth by decide))).part
      (.initializer rfl rfl rfl rfl)
  exact ⟨_, _, _, hduring, rfl, 3, _, _, _, rfl, rfl⟩

/-- The `return` in the initializer of a class that is called carries `nil`. -/
theorem initializer_returns_nil :
    let s := Session.start none (.startingAt 0)
    let source := "class A \x7b init() \x7b return; \x7d \x7d A();"
    ∃ trail c m v,
      During (s.bindingsFor source) (.execEach (s.program source)) s.ready trail (.apply c []) m ∧
        c.isInitializer = true ∧ Catches (s.bindingsFor source) c [] m v ∧ v = .nil := by
  intro s source
  have hprogram : s.program source = returningInitializer := by cbv
  have hglobal : (s.bindingsFor source).distance? 1 = none := by decide +kernel
  obtain ⟨trail, c, m, hduring, hinit, hcatches⟩ :=
    catches_returningInitializer hglobal (.startingAt 0)
  rw [← hprogram] at hduring
  obtain ⟨-, hruns⟩ := returns_stay_inside none (.startingAt 0) [] source s rfl (by decide +kernel)
  obtain ⟨-, hcalls⟩ := hruns trail _ m hduring
  exact ⟨trail, c, m, .nil, hduring, hinit, hcatches, (hcalls c [] rfl).2 hinit .nil hcatches⟩

end LoxLang
