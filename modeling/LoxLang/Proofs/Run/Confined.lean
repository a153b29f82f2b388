import LoxLang.Proofs.Heap.Reach
import LoxLang.Proofs.Run.Ensures
import LoxLang.Proofs.Run.Task

/-!
# What a run can touch

A run keeps to what it can reach: the frame that runs and the global frame, the values it is given, and
whatever is reachable from these or made by the run itself.  If the heap is confined to a set of nodes
with all of this, it stays so, and every value that the run yields belongs to the set (`confinesAll`).

So nothing else changes, the result gives no access to anything else, and at no moment of the run
anything else is within reach of what runs then (`touches_only_reachable`).
-/

namespace LoxLang

namespace Evaluation

open Eval Exec

/-! ### Values that refer to nothing -/

theorem in_of_node?_eq_none {S : Node → Prop} {v : Value} (h : v.node? = none) : v.In S :=
  fun n hn => by rw [h] at hn; cases hn

theorem node?_literal (l : Literal) : l.value.node? = none := by cases l <;> rfl

theorem node?_applyUnary {op : Token} {v v' : Value} (h : Operators.applyUnary op v = .ok v') :
    v'.node? = none := by
  unfold Operators.applyUnary at h
  split at h
  · split at h <;> cases h
    rfl
  · cases h
    rfl
  · cases h

theorem node?_add {l r v : Value} (h : Operators.add l r = .ok v) : v.node? = none := by
  unfold Operators.add at h
  split at h <;> cases h <;> rfl

theorem node?_applyBinary {op : Token} {l r v : Value} (h : Operators.applyBinary op l r = .ok v) :
    v.node? = none := by
  unfold Operators.applyBinary at h
  split at h
  case h_1 => exact node?_add h
  case h_9 | h_10 => cases h; rfl
  case h_11 => cases h
  all_goals
    cases hn : Operators.numbers op l r with
    | error e => rw [hn] at h; cases h
    | ok ab => rw [hn] at h; cases h; rfl

/-! ### Single steps -/

/-- The machine runs in the frame, on a confined heap. -/
structure Held (S : Node → Prop) (h₀ : Heap) (frame : FrameId) (m : Machine) : Prop where
  scope : m.scope = frame
  heap : Heap.Confined S h₀ m.heap

/-- All of the values refer to nodes of the set. -/
def AllIn (S : Node → Prop) (vs : List Value) : Prop := ∀ v ∈ vs, v.In S

section

variable {S : Node → Prop} {h₀ : Heap} {b : Bindings} {frame : FrameId}

theorem Held.depth {m : Machine} (hm : Held S h₀ frame m) (depth : Nat) :
    Held S h₀ frame { m with depth } := ⟨hm.scope, hm.heap⟩

/-- A search for a variable starts in the set. -/
theorem Held.place {m : Machine} (hm : Held S h₀ frame m) (hglobal : S (.frame globalFrame))
    (hframe : S (.frame frame)) (id : NodeId) : S (.frame (place b m id).1) := by
  unfold Evaluation.place
  split
  · rw [hm.scope]
    exact hframe
  · exact hglobal

/-- A change of the heap that keeps it confined. -/
theorem held_onHeap {α : Type} {A : α → Prop} {f : Heap → α × Heap}
    (hf : ∀ h, Heap.Confined S h₀ h → A (f h).1 ∧ Heap.Confined S h₀ (f h).2) :
    Ensures (Held S h₀ frame) A (fun _ => True) (onHeap f) :=
  .onHeap fun m hm => ⟨(hf m.heap hm.heap).1, hm.scope, (hf m.heap hm.heap).2⟩

theorem held_readVariable (hglobal : S (.frame globalFrame)) (hframe : S (.frame frame))
    (id : NodeId) (name : Token) :
    Ensures (Held S h₀ frame) (Value.In S) (fun _ => True) (readVariable b id name) := by
  intro m hm
  unfold readVariable
  dsimp only
  cases hv : m.heap.frames.getAt? (place b m id).1 (place b m id).2 name.lexeme with
  | none => exact ⟨trivial, hm⟩
  | some v => exact ⟨hm.heap.getAt (hm.place hglobal hframe id) hv, hm⟩

theorem held_assignVariable (hglobal : S (.frame globalFrame)) (hframe : S (.frame frame))
    (id : NodeId) (name : Token) {v : Value} (hv : v.In S) :
    Ensures (Held S h₀ frame) (fun _ => True) (fun _ => True) (assignVariable b id name v) := by
  intro m hm
  unfold assignVariable
  cases ha : holder? b m id name.lexeme with
  | none => exact ⟨trivial, hm⟩
  | some a =>
    have hholder := hm.heap.holder (hm.place hglobal hframe id) ha
    exact ⟨trivial, hm.scope, hm.heap.define hholder name.lexeme hv⟩

theorem held_defineVariable (hframe : S (.frame frame)) (name : Token) {v : Value} (hv : v.In S) :
    Ensures (Held S h₀ frame) (fun _ => True) (fun _ => True) (defineVariable name v) :=
  fun _ hm => ⟨trivial, hm.scope, hm.heap.define (hm.scope ▸ hframe) name.lexeme hv⟩

theorem held_newFrame {vars : NameMap Value} (hvars : ∀ name v, vars.get? name = some v → v.In S)
    {around : FrameId} (haround : S (.frame around)) :
    Ensures (Held S h₀ frame) (fun id => S (.frame id)) (fun _ => True) (newFrame vars around) :=
  held_onHeap fun _ hh => ⟨hh.frame_next, hh.addFrame hvars fun _ ha => Option.some.inj ha ▸ haround⟩

theorem held_newFunction {c : Closure} (hc : S (.frame c.frame)) :
    Ensures (Held S h₀ frame) (Value.In S) (fun _ => True) (newFunction c) :=
  held_onHeap fun _ hh =>
    ⟨fun _ hn => Option.some.inj hn ▸ hh.function_size, hh.addFunction hc⟩

theorem held_newClass (name : Token) (methods : List (Function NodeId)) {around : FrameId}
    (haround : S (.frame around)) :
    Ensures (Held S h₀ frame) (Value.In S) (fun _ => True) (newClass name methods around) := by
  refine held_onHeap fun h hh => ⟨fun _ hn => Option.some.inj hn ▸ hh.cls_size, ?_⟩
  refine hh.addClass fun n c hc => ?_
  obtain ⟨d, -, heq⟩ := List.mem_map.1 (NameMap.mem_of_get?_ofList hc)
  obtain ⟨-, rfl⟩ := Prod.mk.inj heq
  exact haround

theorem held_bind {c : Closure} (hc : S (.frame c.frame)) {i : InstanceId} (hi : S (.object i)) :
    Ensures (Held S h₀ frame) (fun c => S (.frame c.frame)) (fun _ => True) (onHeap (·.bind c i)) :=
  held_onHeap fun _ hh => ⟨(hh.bind hc hi).2, (hh.bind hc hi).1⟩

theorem held_readProperty {i : InstanceId} (hi : S (.object i)) (name : Token) :
    Ensures (Held S h₀ frame) (Value.In S) (fun _ => True) (readProperty i name) := by
  refine .get_bind fun m hm => ?_
  refine .bind (A := Property.In S) (.orFail (fun _ => trivial) _ _ fun p hp => ?_) fun p hp => ?_
  · exact hm.heap.property hi hp
  · cases p with
    | field v => exact .pure hp
    | method c => exact .bind (held_bind hp hi) fun _ hbound => held_newFunction hbound

theorem held_assignField {i : InstanceId} (hi : S (.object i)) (name : Token) {v : Value}
    (hv : v.In S) :
    Ensures (Held S h₀ frame) (fun _ => True) (fun _ => True) (assignField i name v) :=
  held_onHeap fun _ hh => ⟨trivial, hh.setField hi name.lexeme hv⟩

theorem held_checkArity (paren : Token) (expected got : Nat) :
    Ensures (Held S h₀ frame) (fun _ => True) (fun _ => True) (checkArity paren expected got) :=
  .ite (.pure trivial) (.failAt (fun _ => trivial) _ _)

theorem held_callNative (n : Native) :
    Ensures (Held S h₀ frame) (Value.In S) (fun _ => True) (callNative n) := by
  cases n
  exact fun _ hm => ⟨in_of_node?_eq_none rfl, hm.scope, hm.heap⟩

theorem held_callResult {c : Closure} (hc : S (.frame c.frame)) {returned? : Option Value}
    (hreturned : ∀ v, returned? = some v → v.In S) :
    Ensures (Held S h₀ frame) (Value.In S) (fun _ => True) (callResult c returned?) := by
  refine .ite (.get_bind fun m hm => .pure ?_) (.pure ?_)
  · cases hv : m.heap.frames.getHere? c.frame thisName with
    | none => exact in_of_node?_eq_none rfl
    | some v => exact hm.heap.getHere hc hv
  · cases returned? with
    | none => exact in_of_node?_eq_none rfl
    | some v => exact hreturned v rfl

theorem held_printLine (text : String) :
    Ensures (Held S h₀ frame) (fun _ => True) (fun _ => True) (printLine text) := by
  intro m hm
  rw [printLine]
  dsimp only
  split_ifs
  · exact ⟨trivial, hm.scope, hm.heap⟩
  · exact ⟨trivial, hm.scope, hm.heap⟩

/-- The variables of a call have the arguments as values. -/
theorem in_of_parameterVars {decl : Function NodeId} {args : List Value} (hargs : AllIn S args)
    {name : String} {v : Value} (hv : (parameterVars decl args).get? name = some v) : v.In S :=
  hargs v (List.of_mem_zip (NameMap.mem_of_get?_ofList hv)).2

end

/-! ### Whole runs -/

/-- Whatever runs within a set of nodes stays within it, with this much fuel.  Calls do not need the
frame that runs to be in the set. -/
structure ConfinesAll (S : Node → Prop) (h₀ : Heap) (b : Bindings) (fuel : Nat) : Prop where
  eval : ∀ {frame}, S (.frame frame) → ∀ e,
    Ensures (Held S h₀ frame) (Value.In S) (fun _ => True) (eval b fuel e)
  evalEach : ∀ {frame}, S (.frame frame) → ∀ es,
    Ensures (Held S h₀ frame) (AllIn S) (fun _ => True) (evalEach b fuel es)
  call : ∀ {frame callee args}, callee.In S → ∀ paren, AllIn S args →
    Ensures (Held S h₀ frame) (Value.In S) (fun _ => True) (call b fuel callee paren args)
  dispatch : ∀ {frame callee args}, callee.In S → ∀ paren, AllIn S args →
    Ensures (Held S h₀ frame) (Value.In S) (fun _ => True) (dispatch b fuel callee paren args)
  apply : ∀ {frame args} {c : Closure}, S (.frame c.frame) → AllIn S args →
    Ensures (Held S h₀ frame) (Value.In S) (fun _ => True) (apply b fuel c args)
  exec : ∀ {frame}, S (.frame frame) → ∀ s,
    Ensures (Held S h₀ frame) (fun _ => True) (Unwind.Carries (Value.In S)) (exec b fuel s)
  loop : ∀ {frame}, S (.frame frame) → ∀ condition body,
    Ensures (Held S h₀ frame) (fun _ => True) (Unwind.Carries (Value.In S))
      (loop b fuel condition body)
  execBlock : ∀ {frame inner}, S (.frame inner) → ∀ ss,
    Ensures (Held S h₀ frame) (fun _ => True) (Unwind.Carries (Value.In S))
      (execBlock b fuel inner ss)
  execEach : ∀ {frame}, S (.frame frame) → ∀ ss,
    Ensures (Held S h₀ frame) (fun _ => True) (Unwind.Carries (Value.In S)) (execEach b fuel ss)

section

variable {S : Node → Prop} {h₀ : Heap} {b : Bindings} {fuel : Nat} {frame : FrameId}

theorem confines_eval (hglobal : S (.frame globalFrame)) (ih : ConfinesAll S h₀ b fuel)
    (hframe : S (.frame frame)) (e : Expr NodeId) :
    Ensures (Held S h₀ frame) (Value.In S) (fun _ => True) (eval b (fuel + 1) e) := by
  -- values without a node are in every set
  cases e with
  | literal l => exact .pure (in_of_node?_eq_none (node?_literal l))
  | group inner => exact ih.eval hframe inner
  | unary op operand =>
    refine .bind (ih.eval hframe operand) fun v _ => ?_
    exact .liftFault (fun _ => trivial) op fun v' hv' => in_of_node?_eq_none (node?_applyUnary hv')
  | binary left op right =>
    refine .bind (ih.eval hframe left) fun l _ => .bind (ih.eval hframe right) fun r _ => ?_
    exact .liftFault (fun _ => trivial) op fun v hv => in_of_node?_eq_none (node?_applyBinary hv)
  | logical left op right =>
    refine .bind (ih.eval hframe left) fun l hl => ?_
    exact .ite (.pure hl) (ih.eval hframe right)
  | var id name => exact held_readVariable hglobal hframe id name
  | thisRef id keyword => exact held_readVariable hglobal hframe id keyword
  | assign id name value =>
    refine .bind (ih.eval hframe value) fun v hv => ?_
    exact .bind (held_assignVariable hglobal hframe id name hv) fun _ _ => .pure hv
  | call callee paren args =>
    refine .bind (ih.eval hframe callee) fun f hf => ?_
    exact .bind (ih.evalEach hframe args) fun vs hvs => ih.call hf paren hvs
  | get object name =>
    refine .bind (ih.eval hframe object) fun o ho => ?_
    cases o with
    | instanceRef i => exact held_readProperty (ho _ rfl) name
    | _ => exact .failAt (fun _ => trivial) _ _
  | set object name value =>
    refine .bind (ih.eval hframe object) fun o ho => ?_
    cases o with
    | instanceRef i =>
      refine .bind (ih.eval hframe value) fun v hv => ?_
      exact .bind (held_assignField (ho _ rfl) name hv) fun _ _ => .pure hv
    | _ => exact .failAt (fun _ => trivial) _ _

theorem confines_dispatch (ih : ConfinesAll S h₀ b fuel) {callee : Value} (hcallee : callee.In S)
    (paren : Token) {args : List Value} (hargs : AllIn S args) :
    Ensures (Held S h₀ frame) (Value.In S) (fun _ => True)
      (dispatch b (fuel + 1) callee paren args) := by
  cases callee with
  | native n => exact .bind (held_checkArity _ _ _) fun _ _ => held_callNative n
  | functionRef id =>
    refine .get_bind fun m hm => ?_
    cases hc : m.heap.functions[id]? with
    | none => exact .failAt (fun _ => trivial) _ _
    | some c =>
      have hframe : S (.frame c.frame) := hm.heap.closed (hcallee _ rfl) (.closure hc)
      exact .bind (held_checkArity _ _ _) fun _ _ => ih.apply hframe hargs
  -- the instance is fresh, and its class and the frame of the initializer are reached from the callee
  | classRef id =>
    refine .get_bind fun m hm => .bind (held_checkArity _ _ _) fun _ _ => ?_
    refine .bind (A := fun i => S (.object i)) (held_onHeap fun h hh =>
      ⟨hh.object_size, hh.addInstance (hcallee _ rfl)⟩) fun i hi => ?_
    have hinstance : (Value.instanceRef i).In S := fun _ hn => Option.some.inj hn ▸ hi
    cases hc : m.heap.method? id initializerName with
    | none => exact .pure hinstance
    | some c =>
      have hframe : S (.frame c.frame) := hm.heap.closed (hcallee _ rfl) (.method hc)
      refine .bind (held_bind hframe hi) fun bound hbound => ?_
      exact .bind (ih.apply hbound hargs) fun _ _ => .pure hinstance
  | _ => exact .failAt (fun _ => trivial) _ _

theorem confines_exec (ih : ConfinesAll S h₀ b fuel) (hframe : S (.frame frame)) (s : Stmt NodeId) :
    Ensures (Held S h₀ frame) (fun _ => True) (Unwind.Carries (Value.In S))
      (exec b (fuel + 1) s) := by
  have hnil : Value.nil.In S := in_of_node?_eq_none rfl
  cases s with
  | expr e => exact .lift_bind (ih.eval hframe e) fun _ _ => .pure trivial
  | print e =>
    refine .lift_bind (ih.eval hframe e) fun v _ => .get_bind fun m _ => ?_
    exact (held_printLine _).toExec
  | var name value? =>
    cases value? with
    | none => exact (held_defineVariable hframe name hnil).toExec
    | some e =>
      exact .lift_bind (ih.eval hframe e) fun v hv => (held_defineVariable hframe name hv).toExec
  | block body =>
    refine .get_bind fun m hm => ?_
    refine .lift_bind (held_newFrame nofun (hm.scope ▸ hframe)) fun inner hinner => ?_
    exact ih.execBlock hinner body
  | ifThen condition s =>
    refine .lift_bind (ih.eval hframe condition) fun c _ => ?_
    exact .ite (ih.exec hframe s) (.pure trivial)
  | ifElse condition s s' =>
    refine .lift_bind (ih.eval hframe condition) fun c _ => ?_
    exact .ite (ih.exec hframe s) (ih.exec hframe s')
  | whileLoop condition body => exact ih.loop hframe condition body
  | function decl =>
    refine .get_bind fun m hm => ?_
    refine .lift_bind (held_newFunction (hm.scope ▸ hframe)) fun f hf => ?_
    exact (held_defineVariable hframe decl.name hf).toExec
  | ret keyword value? =>
    cases value? with
    | none => exact .throw hnil
    | some e => exact .lift_bind (ih.eval hframe e) fun v hv => .throw hv
  | classDecl name methods =>
    refine .get_bind fun m hm => ?_
    refine .lift_bind (held_newClass name methods (hm.scope ▸ hframe)) fun c hc => ?_
    exact (held_defineVariable hframe name hc).toExec

theorem confinesAll (hglobal : S (.frame globalFrame)) (fuel : Nat) : ConfinesAll S h₀ b fuel := by
  induction fuel with
  | zero =>
    constructor
    case exec | loop | execBlock | execEach => intros; exact .throw trivial
    all_goals intros; exact .throw trivial
  | succ fuel ih =>
    constructor
    case eval => exact fun hframe e => confines_eval hglobal ih hframe e
    case evalEach =>
      rintro frame hframe (_ | ⟨e, es⟩)
      · exact .pure nofun
      · refine .bind (ih.eval hframe e) fun v hv => .bind (ih.evalEach hframe es) fun vs hvs => ?_
        exact .pure (List.forall_mem_cons.2 ⟨hv, hvs⟩)
    case call =>
      intro frame callee args hcallee paren hargs
      refine .bind (A := fun _ => True) (.get_bind fun m hm => ?_) fun _ _ => ?_
      · exact .ite (.failAt (fun _ => trivial) _ _) (.pure trivial)
      · exact .insideCall (ih.dispatch hcallee paren hargs) fun m depth hm => hm.depth depth
    case dispatch => exact fun hcallee paren hargs => confines_dispatch ih hcallee paren hargs
    case apply =>
      intro frame args c hc hargs
      refine .bind (held_newFrame (fun _ _ hv => in_of_parameterVars hargs hv) hc) fun inner hinner => ?_
      exact .bind (ih.execBlock hinner c.decl.body).catchReturn fun r? hr => held_callResult hc hr
    case exec => exact fun hframe s => confines_exec ih hframe s
    case loop =>
      intro frame hframe condition body
      refine .lift_bind (ih.eval hframe condition) fun c _ => .ite ?_ (.pure trivial)
      exact .bind (ih.exec hframe body) fun _ _ => ih.loop hframe condition body
    case execBlock =>
      intro frame inner hinner ss
      refine .inFrame (ih.execEach hinner ss) (fun m hm => ⟨rfl, hm.heap⟩) fun m m' hm hm' => ?_
      exact ⟨hm.scope, hm'.heap⟩
    case execEach =>
      rintro frame hframe (_ | ⟨s, ss⟩)
      · exact .pure trivial
      · exact .bind (ih.exec hframe s) fun _ _ => ih.execEach hframe ss

end

/-! ### Tasks -/

/-- Where a task gets at the heap: the global frame, the frame that runs, the values it is given.  A
call does not use the frame that runs. -/
def Task.roots : Task → Machine → Node → Prop
  | .eval _, m | .evalEach _, m | .exec _, m | .loop _ _, m | .execEach _, m =>
    fun n => n = .frame globalFrame ∨ n = .frame m.scope
  | .call callee _ args, _ | .dispatch callee _ args, _ =>
    fun n => n = .frame globalFrame ∨ ∃ v ∈ callee :: args, v.node? = some n
  | .apply c args, _ =>
    fun n => n = .frame globalFrame ∨ n = .frame c.frame ∨ ∃ v ∈ args, v.node? = some n
  | .execBlock frame _, _ => fun n => n = .frame globalFrame ∨ n = .frame frame

/-- The task ends with the value, or with a `return` of the value. -/
def Task.Yields (b : Bindings) (fuel : Nat) (m : Machine) : Task → Value → Prop
  | .eval e, v => ∃ m', Evaluation.eval b fuel e m = .ok v m'
  | .evalEach es, v => ∃ vs m', Evaluation.evalEach b fuel es m = .ok vs m' ∧ v ∈ vs
  | .call callee paren args, v => ∃ m', Evaluation.call b fuel callee paren args m = .ok v m'
  | .dispatch callee paren args, v =>
    ∃ m', Evaluation.dispatch b fuel callee paren args m = .ok v m'
  | .apply c args, v => ∃ m', Evaluation.apply b fuel c args m = .ok v m'
  | .exec s, v => ∃ m', Evaluation.exec b fuel s m = .error (.returned v) m'
  | .loop condition body, v =>
    ∃ m', Evaluation.loop b fuel condition body m = .error (.returned v) m'
  | .execBlock frame ss, v => ∃ m', Evaluation.execBlock b fuel frame ss m = .error (.returned v) m'
  | .execEach ss, v => ∃ m', Evaluation.execEach b fuel ss m = .error (.returned v) m'

/-- The task runs within the set. -/
structure Within (S : Node → Prop) (h₀ : Heap) (t : Task) (m : Machine) : Prop where
  heap : Heap.Confined S h₀ m.heap
  roots : ∀ n, t.roots m n → S n

section

variable {S : Node → Prop} {h₀ : Heap} {b : Bindings} {t t' : Task} {m m' : Machine}

theorem allIn_of_roots {vs : List Value} (h : ∀ n, (∃ v ∈ vs, v.node? = some n) → S n) :
    AllIn S vs := fun v hv n hn => h n ⟨v, hv, hn⟩

theorem Ensures.after {ε α : Type} {A : α → Prop} {E : ε → Prop} {frame : FrameId}
    {x : EStateM ε Machine α} (hx : Ensures (Held S h₀ frame) A E x) (hm : Held S h₀ frame m) :
    Heap.Confined S h₀ (finalMachine (x m)).heap := by
  cases hr : x m with
  | ok a m' => exact (hx.ok hm hr).2.heap
  | error e m' => exact (hx.error hm hr).2.heap

theorem Within.held (h : Within S h₀ t m) : Held S h₀ m.scope m := ⟨rfl, h.heap⟩

theorem Within.global (h : Within S h₀ t m) : S (.frame globalFrame) := by
  refine h.roots _ ?_
  cases t <;> exact .inl rfl

/-- A task within the set leaves the heap confined, and yields values of the set. -/
theorem Within.after (h : Within S h₀ t m) (fuel : Nat) :
    Heap.Confined S h₀ (t.after b fuel m).heap ∧ ∀ v, t.Yields b fuel m v → v.In S := by
  have hall : ConfinesAll S h₀ b fuel := confinesAll h.global fuel
  have hm := h.held
  -- each kind of task has its own roots, of which the run uses what it needs
  cases t with
  | eval e =>
    have hx := hall.eval (h.roots _ (.inr rfl)) e
    exact ⟨hx.after hm, fun v ⟨_, hv⟩ => (hx.ok hm hv).1⟩
  | evalEach es =>
    have hx := hall.evalEach (h.roots _ (.inr rfl)) es
    exact ⟨hx.after hm, fun v ⟨_, _, hvs, hv⟩ => (hx.ok hm hvs).1 v hv⟩
  | call callee paren args =>
    obtain ⟨hcallee, hargs⟩ := List.forall_mem_cons.1
      (allIn_of_roots fun n hn => h.roots n (.inr hn))
    have hx : Ensures (Held S h₀ m.scope) _ _ _ := hall.call hcallee paren hargs
    exact ⟨hx.after hm, fun v ⟨_, hv⟩ => (hx.ok hm hv).1⟩
  | dispatch callee paren args =>
    obtain ⟨hcallee, hargs⟩ := List.forall_mem_cons.1
      (allIn_of_roots fun n hn => h.roots n (.inr hn))
    have hx : Ensures (Held S h₀ m.scope) _ _ _ := hall.dispatch hcallee paren hargs
    exact ⟨hx.after hm, fun v ⟨_, hv⟩ => (hx.ok hm hv).1⟩
  | apply c args =>
    have hargs : AllIn S args := allIn_of_roots fun n hn => h.roots n (.inr (.inr hn))
    have hx : Ensures (Held S h₀ m.scope) _ _ _ :=
      hall.apply (h.roots _ (.inr (.inl rfl))) hargs
    exact ⟨hx.after hm, fun v ⟨_, hv⟩ => (hx.ok hm hv).1⟩
  | exec s =>
    have hx := hall.exec (h.roots _ (.inr rfl)) s
    exact ⟨hx.after hm, fun v ⟨_, hv⟩ => (hx.error hm hv).1⟩
  | loop condition body =>
    have hx := hall.loop (h.roots _ (.inr rfl)) condition body
    exact ⟨hx.after hm, fun v ⟨_, hv⟩ => (hx.error hm hv).1⟩
  | execBlock frame ss =>
    have hx : Ensures (Held S h₀ m.scope) _ _ _ := hall.execBlock (h.roots _ (.inr rfl)) ss
    exact ⟨hx.after hm, fun v ⟨_, hv⟩ => (hx.error hm hv).1⟩
  | execEach ss =>
    have hx := hall.execEach (h.roots _ (.inr rfl)) ss
    exact ⟨hx.after hm, fun v ⟨_, hv⟩ => (hx.error hm hv).1⟩

theorem Returns.held {ε α : Type} {A : α → Prop} {E : ε → Prop} {frame : FrameId}
    {run : Nat → EStateM ε Machine α} {a : α} (h : Returns run m a m') (hm : Held S h₀ frame m)
    (hrun : ∀ fuel, Ensures (Held S h₀ frame) A E (run fuel)) : A a ∧ Held S h₀ frame m' := by
  obtain ⟨fuel, hfuel⟩ := h
  exact (hrun fuel).ok hm hfuel

theorem two_roots {frame frame' : FrameId} (hframe : S (.frame frame)) (hframe' : S (.frame frame')) :
    ∀ n, n = .frame frame ∨ n = .frame frame' → S n := by
  rintro n (rfl | rfl)
  · exact hframe
  · exact hframe'

theorem roots_of_allIn {vs : List Value} {frame : FrameId} (hframe : S (.frame frame))
    (hvs : AllIn S vs) : ∀ n, (n = .frame frame ∨ ∃ v ∈ vs, v.node? = some n) → S n := by
  rintro n (rfl | ⟨v, hv, hn⟩)
  · exact hframe
  · exact hvs v hv n hn

theorem apply_roots {c : Closure} {args : List Value} (hglobal : S (.frame globalFrame))
    (hc : S (.frame c.frame)) (hargs : ∀ n, (∃ v ∈ args, v.node? = some n) → S n) :
    ∀ n, (Task.apply c args).roots m n → S n := by
  rintro n (rfl | rfl | hn)
  · exact hglobal
  · exact hc
  · exact hargs n hn

/-- What a task within the set starts is within the set. -/
theorem Within.starts {step : Step} (h : Within S h₀ t m) (hstarts : Starts b t m step t' m') :
    Within S h₀ t' m' := by
  have hg := h.global
  have hall (fuel : Nat) : ConfinesAll S h₀ b fuel := confinesAll hg fuel
  have hm := h.held
  -- the parts after an expression run in the same frame
  have after_eval {e : Expr NodeId} {v : Value} {m₁ : Machine} (hframe : S (.frame m.scope))
      (hv : Returns (eval b · e) m v m₁) : v.In S ∧ Held S h₀ m.scope m₁ :=
    hv.held hm fun fuel => (hall fuel).eval hframe e
  cases hstarts with
  | group | unary | binaryLeft | logicalLeft | assigned | callee | object | setObject | first
    | expression | printed | varInitializer | condition | elseCondition | whileLoop | returned
    | loopCondition | firstStatement => exact ⟨h.heap, h.roots⟩
  | binaryRight hv | logicalRight hv | arguments hv | setValue hv | others hv | branch hv
    | thenBranch hv | elseBranch hv | loopBody hv =>
    have hframe := h.roots _ (.inr rfl)
    obtain ⟨-, hm₁⟩ := after_eval hframe hv
    exact ⟨hm₁.heap, two_roots hg (hm₁.scope ▸ hframe)⟩
  | called hf hvs =>
    have hframe := h.roots _ (.inr rfl)
    obtain ⟨hf, hm₁⟩ := after_eval hframe hf
    obtain ⟨hvs, hm₂⟩ := hvs.held hm₁ fun fuel => (hall fuel).evalEach hframe _
    exact ⟨hm₂.heap, roots_of_allIn hg (List.forall_mem_cons.2 ⟨hf, hvs⟩)⟩
  | entered => exact ⟨h.heap, h.roots⟩
  | function hc =>
    have hframe := h.heap.closed (h.roots _ (.inr ⟨_, List.mem_cons_self, rfl⟩)) (.closure hc)
    refine ⟨h.heap, apply_roots hg hframe ?_⟩
    exact fun n ⟨v, hv, hn⟩ => h.roots n (.inr ⟨v, List.mem_cons_of_mem _ hv, hn⟩)
  | initializer hc _ hi hbound =>
    cases hi
    cases hbound
    have hclass := h.roots _ (.inr ⟨_, List.mem_cons_self, rfl⟩)
    have hframe := h.heap.closed hclass (.method hc)
    have hinstance := h.heap.addInstance hclass
    obtain ⟨hheap, hbound⟩ := hinstance.bind hframe h.heap.object_size
    refine ⟨hheap, apply_roots hg hbound ?_⟩
    exact fun n ⟨v, hv, hn⟩ => h.roots n (.inr ⟨v, List.mem_cons_of_mem _ hv, hn⟩)
  | functionBody hframe =>
    have hargs : AllIn S _ := allIn_of_roots fun n hn => h.roots n (.inr (.inr hn))
    obtain ⟨hinner, hm₁⟩ := (held_newFrame (fun _ _ hv => in_of_parameterVars hargs hv)
      (h.roots _ (.inr (.inl rfl)))).ok hm hframe
    exact ⟨hm₁.heap, two_roots hg hinner⟩
  | block hframe =>
    obtain ⟨hinner, hm₁⟩ := (held_newFrame nofun (h.roots _ (.inr rfl))).ok hm hframe
    exact ⟨hm₁.heap, two_roots hg hinner⟩
  | again hv _ hs =>
    have hframe := h.roots _ (.inr rfl)
    obtain ⟨-, hm₁⟩ := after_eval hframe hv
    obtain ⟨-, hm₂⟩ := hs.held hm₁ fun fuel => (hall fuel).exec hframe _
    exact ⟨hm₂.heap, two_roots hg (hm₂.scope ▸ hframe)⟩
  | statements => exact ⟨h.heap, h.roots⟩
  | otherStatements hs =>
    have hframe := h.roots _ (.inr rfl)
    obtain ⟨-, hm₁⟩ := hs.held hm fun fuel => (hall fuel).exec hframe _
    exact ⟨hm₁.heap, two_roots hg (hm₁.scope ▸ hframe)⟩

/-- Whatever a run comes to is within the set in which it began. -/
theorem Within.during {trail : List Step} (h : Within S h₀ t m)
    (hduring : During b t m trail t' m') : Within S h₀ t' m' := by
  induction hduring with
  | start => exact h
  | part _ hstarts ih => exact ih.starts hstarts

end

/-- A run touches only what it can reach, from any machine and with any table of distances, however
it ends.  What was there before and could not be reached from the roots of the task is unchanged
afterwards, and whatever can be reached from a value that the task yields could be reached from the
roots or has been made by the run.  At each moment of the run the same is true: nothing else has
changed, and what is running then can reach nothing else.  In particular the call of a closure neither
sees nor changes the variables of another closure, unless its own frame, an argument or a global
variable leads to the frame of the other one. -/
theorem touches_only_reachable (b : Bindings) (m : Machine) (t : Task) :
    (∀ fuel,
      (∀ n, m.heap.Has n → ¬m.heap.Reachable (t.roots m) n →
        m.heap.SameAt (t.after b fuel m).heap n) ∧
      ∀ v, t.Yields b fuel m v →
        ∀ n, (t.after b fuel m).heap.Reachable (fun root => v.node? = some root) n →
          m.heap.Reachable (t.roots m) n ∨ ¬m.heap.Has n) ∧
    ∀ trail t' m', During b t m trail t' m' →
      (∀ n, m.heap.Has n → ¬m.heap.Reachable (t.roots m) n → m.heap.SameAt m'.heap n) ∧
      ∀ n, m'.heap.Reachable (t'.roots m') n → m.heap.Reachable (t.roots m) n ∨ ¬m.heap.Has n := by
  -- what can be reached, and all that is not there yet
  have hstart : Within (fun n => m.heap.Reachable (t.roots m) n ∨ ¬m.heap.Has n) m.heap t m :=
    ⟨.start _ _, fun n hn => .inl (.root hn)⟩
  have unchanged {h : Heap}
      (hh : Heap.Confined (fun n => m.heap.Reachable (t.roots m) n ∨ ¬m.heap.Has n) m.heap h)
      (n : Node) (hhas : m.heap.Has n) (hn : ¬m.heap.Reachable (t.roots m) n) :
      m.heap.SameAt h n := hh.unchanged n fun hor => hor.elim hn fun hnot => hnot hhas
  refine ⟨fun fuel => ?_, fun trail t' m' hduring => ?_⟩
  · obtain ⟨hheap, hyields⟩ := hstart.after (b := b) fuel
    refine ⟨unchanged hheap, fun v hv n hn => ?_⟩
    exact hn.mem_of_closed hheap.closed (hyields v hv)
  · have hwithin := hstart.during hduring
    exact ⟨unchanged hwithin.heap, fun n hn => hn.mem_of_closed hwithin.heap.closed hwithin.roots⟩

end Evaluation

end LoxLang
