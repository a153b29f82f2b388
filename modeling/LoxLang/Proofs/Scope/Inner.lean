import LoxLang.Proofs.Run.Discipline
import LoxLang.Proofs.Run.Ends
import LoxLang.Proofs.Scope.Mirror
import LoxLang.Proofs.Tree.Numbering

/-!
# Expressions in an inner scope

An expression looks at the frame that runs for nothing but the names in it: calls run in frames of their
own (`unscoped_call`).  So an expression in a frame has the value and the effects that a copy of it has in
the frame around it, if the names of the copy lie one scope less far out (`eval_inner`).
-/

namespace LoxLang

/-- The expression with other labels. -/
def Expr.copy (f : NodeId → NodeId) (e : Expr NodeId) : Expr NodeId :=
  (e.relabel fun id => (pure (f id) : Id NodeId)).run

/-- The expressions with other labels. -/
def Expr.copyEach (f : NodeId → NodeId) (es : List (Expr NodeId)) : List (Expr NodeId) :=
  (Expr.relabelEach (fun id => (pure (f id) : Id NodeId)) es).run

namespace Evaluation

open Eval Exec

/-! ### Runs that do not look at the frame -/

/-- The run does the same in every frame. -/
def Unscoped {ε α : Type} (x : EStateM ε Machine α) : Prop :=
  ∀ m frame, x { m with scope := frame } = inScope frame (x m)

namespace Unscoped

variable {ε α β : Type}

theorem pure (a : α) : Unscoped (Pure.pure a : EStateM ε Machine α) := fun _ _ => rfl

theorem throw (e : ε) : Unscoped (MonadExcept.throw e : EStateM ε Machine α) := fun _ _ => rfl

theorem bind {x : EStateM ε Machine α} {f : α → EStateM ε Machine β} (hx : Unscoped x)
    (hf : ∀ a, Unscoped (f a)) : Unscoped (x >>= f) := by
  intro m frame
  have hx := hx m frame
  cases hm : x m with
  | ok a m₁ =>
    rw [hm] at hx
    rw [bind_of_ok hx, bind_of_ok hm]
    exact hf a m₁ frame
  | error e m₁ =>
    rw [hm] at hx
    rw [bind_of_error hx, bind_of_error hm]
    rfl

/-- What goes on with the state, but not with its frame. -/
theorem get_bind {k : Machine → EStateM ε Machine α} (hk : ∀ m, Unscoped (k m))
    (hsame : ∀ m frame, k { m with scope := frame } = k m) : Unscoped (MonadState.get >>= k) := by
  intro m frame
  change k { m with scope := frame } { m with scope := frame } = inScope frame (k m m)
  rw [hsame]
  exact hk m m frame

theorem onHeap (f : Heap → α × Heap) : Unscoped (onHeap f) := fun _ _ => rfl

theorem failAt (t : Token) (f : RuntimeFault) : Unscoped (failAt t f : Eval α) := throw _

theorem liftFault (t : Token) (r : Except RuntimeFault α) : Unscoped (liftFault t r) := by
  cases r with
  | ok a => exact pure a
  | error f => exact failAt t f

theorem orFail (t : Token) (f : RuntimeFault) (o : Option α) : Unscoped (orFail t f o) := by
  cases o with
  | none => exact failAt t f
  | some a => exact pure a

theorem insideCall {x : Eval α} (hx : Unscoped x) : Unscoped (insideCall x) := by
  intro m frame
  have hx := hx { m with depth := m.depth + 1 } frame
  rw [Eval.insideCall, Eval.insideCall, hx]
  cases x { m with depth := m.depth + 1 } <;> rfl

theorem catchReturn {x : Exec Unit} (hx : Unscoped x) : Unscoped (catchReturn x) := by
  intro m frame
  rw [Exec.catchReturn, Exec.catchReturn, hx m frame]
  cases x m with
  | ok a m₁ => rfl
  | error u m₁ => cases u <;> rfl

/-- Whatever runs in a frame of its own does not look at the frame before. -/
theorem inFrame (frame : FrameId) (x : Exec α) : Unscoped (inFrame frame x) := by
  intro m before
  rw [inFrame_apply, inFrame_apply, inScope_inScope]

end Unscoped

theorem unscoped_readProperty (i : InstanceId) (name : Token) : Unscoped (readProperty i name) := by
  refine .get_bind (fun m => (Unscoped.orFail _ _ _).bind fun property => ?_) fun _ _ => rfl
  cases property with
  | field v => exact .pure v
  | method c => exact (Unscoped.onHeap _).bind fun bound => .onHeap _

theorem unscoped_checkArity (paren : Token) (expected got : Nat) :
    Unscoped (checkArity paren expected got) := by
  rw [checkArity]
  split
  · exact .pure _
  · exact .failAt _ _

theorem unscoped_execBlock (b : Bindings) (fuel : Nat) (frame : FrameId) (body : List (Stmt NodeId)) :
    Unscoped (execBlock b fuel frame body) := by
  cases fuel with
  | zero => exact .throw _
  | succ fuel => exact .inFrame _ _

theorem unscoped_apply (b : Bindings) (fuel : Nat) (c : Closure) (args : List Value) :
    Unscoped (apply b fuel c args) := by
  cases fuel with
  | zero => exact .throw _
  | succ fuel =>
    refine (Unscoped.onHeap _).bind fun frame =>
      (unscoped_execBlock b fuel frame c.decl.body).catchReturn.bind fun returned? => ?_
    rw [callResult]
    split
    · exact .get_bind (fun _ => .pure _) fun _ _ => rfl
    · exact .pure _

theorem unscoped_dispatch (b : Bindings) (fuel : Nat) (callee : Value) (paren : Token)
    (args : List Value) : Unscoped (dispatch b fuel callee paren args) := by
  cases fuel with
  | zero => exact .throw _
  | succ fuel =>
    cases callee with
    | native n =>
      refine (unscoped_checkArity _ _ _).bind fun _ => ?_
      cases n
      exact fun _ _ => rfl
    | functionRef id =>
      refine .get_bind (fun m => ?_) fun _ _ => rfl
      cases m.heap.functions[id]? with
      | none => exact .failAt _ _
      | some c => exact (unscoped_checkArity _ _ _).bind fun _ => unscoped_apply b fuel c args
    | classRef id =>
      refine .get_bind (fun m => (unscoped_checkArity _ _ _).bind fun _ =>
        (Unscoped.onHeap _).bind fun i => ?_) fun _ _ => rfl
      cases m.heap.method? id initializerName with
      | none => exact .pure _
      | some c =>
        exact (Unscoped.onHeap _).bind fun bound =>
          (unscoped_apply b fuel bound args).bind fun _ => .pure _
    | _ => exact .failAt _ _

/-- A call does the same from every frame. -/
theorem unscoped_call (b : Bindings) (fuel : Nat) (callee : Value) (paren : Token)
    (args : List Value) : Unscoped (call b fuel callee paren args) := by
  cases fuel with
  | zero => exact .throw _
  | succ fuel =>
    refine Unscoped.bind (.get_bind (fun m => ?_) fun _ _ => rfl) fun _ =>
      (unscoped_dispatch b fuel callee paren args).insideCall
    split
    · exact .failAt _ _
    · exact .pure _

/-! ### Runs in the frame around -/

/-- In the inner frame the first run does what the second one does in the outer frame around it. -/
def Mimics {ε α : Type} (inner outer : FrameId) (x y : EStateM ε Machine α) : Prop :=
  ∀ m : Machine, m.heap.frames.enclosing? inner = some outer →
    x { m with scope := inner } = inScope inner (y { m with scope := outer })

section

variable {ε α β : Type} {inner outer : FrameId}

theorem Unscoped.mimics {x : EStateM ε Machine α} (hx : Unscoped x) : Mimics inner outer x x := by
  intro m _
  rw [hx m inner, hx m outer, inScope_inScope]

namespace Mimics

theorem bind {x y : EStateM ε Machine α} {f g : α → EStateM ε Machine β} (hx : Mimics inner outer x y)
    (hplace : Keeps SamePlace y) (hgrows : Keeps Grows y) (hf : ∀ a, Mimics inner outer (f a) (g a)) :
    Mimics inner outer (x >>= f) (y >>= g) := by
  intro m hm
  have hx := hx m hm
  have hplace := hplace { m with scope := outer }
  have hgrows := hgrows { m with scope := outer }
  cases hy : y { m with scope := outer } with
  | ok a m₁ =>
    rw [hy] at hx hplace hgrows
    rw [bind_of_ok hx, bind_of_ok hy, hf a m₁ (hgrows.enclosing hm)]
    have hscope : { m₁ with scope := outer } = m₁ := by rw [← show m₁.scope = outer from hplace.1]
    rw [hscope]
  | error e m₁ =>
    rw [hy] at hx
    rw [bind_of_error hx, bind_of_error hy]
    rfl

theorem ite {c : Prop} [Decidable c] {x y x' y' : EStateM ε Machine α} (hx : Mimics inner outer x y)
    (hx' : Mimics inner outer x' y') : Mimics inner outer (if c then x else x') (if c then y else y') := by
  split
  · exact hx
  · exact hx'

end Mimics

theorem Mimics.toExec {x y : Eval α} (h : Mimics inner outer x y) :
    Mimics inner outer (toExec x) (toExec y) := by
  intro m hm
  rw [Eval.toExec, Eval.toExec, h m hm]
  cases y { m with scope := outer } <;> rfl

/-- What is one scope further out from the inner frame. -/
theorem ancestor_inner {fs : Frames} (h : fs.enclosing? inner = some outer) (distance : Nat) :
    fs.ancestor? inner (distance + 1) = fs.ancestor? outer distance := by
  rw [Frames.ancestor?, h, Option.bind_some]

variable {b : Bindings} {id id' : NodeId}

/-- Both occurrences of a name are found in the same frame. -/
theorem holder?_inner (hid : b.distance? id = (b.distance? id').map (· + 1)) {m : Machine}
    (hm : m.heap.frames.enclosing? inner = some outer) (name : String) :
    holder? b { m with scope := inner } id name = holder? b { m with scope := outer } id' name := by
  rw [holder?, holder?, place, place, hid]
  cases b.distance? id' with
  | none => rfl
  | some d => simp only [Option.map_some, Frames.holder?, ancestor_inner hm]

theorem mimics_readVariable (hid : b.distance? id = (b.distance? id').map (· + 1)) (name : Token) :
    Mimics inner outer (readVariable b id name) (readVariable b id' name) := by
  have hread (id : NodeId) (m : Machine) : readVariable b id name m =
      ((holder? b m id name.lexeme).bind (m.heap.frames.getHere? · name.lexeme)).elim
        (failAt name (.undefinedVariable name.lexeme) m) (.ok · m) := by
    simp only [readVariable, Frames.getAt?, holder?]
    split <;> simp [*]
  intro m hm
  rw [hread, hread, holder?_inner hid hm]
  cases (holder? b { m with scope := outer } id' name.lexeme).bind
    (m.heap.frames.getHere? · name.lexeme) <;> rfl

theorem mimics_assignVariable (hid : b.distance? id = (b.distance? id').map (· + 1)) (name : Token)
    (v : Value) :
    Mimics inner outer (assignVariable b id name v) (assignVariable b id' name v) := by
  intro m hm
  rw [assignVariable, assignVariable, holder?_inner hid hm]
  cases holder? b { m with scope := outer } id' name.lexeme <;> rfl

/-- The labels lie one scope further out than the ones that are put in their place. -/
def OneFurther (b : Bindings) (f : NodeId → NodeId) (labels : List NodeId) : Prop :=
  ∀ id ∈ labels, b.distance? id = (b.distance? (f id)).map (· + 1)

theorem OneFurther.left {f : NodeId → NodeId} {labels labels' : List NodeId}
    (h : OneFurther b f (labels ++ labels')) : OneFurther b f labels :=
  fun id hid => h id (List.mem_append_left _ hid)

theorem OneFurther.right {f : NodeId → NodeId} {labels labels' : List NodeId}
    (h : OneFurther b f (labels ++ labels')) : OneFurther b f labels' :=
  fun id hid => h id (List.mem_append_right _ hid)

/-- An expression in the inner frame does what a copy of it does in the outer frame, if its names lie one
scope further out than those of the copy. -/
theorem eval_inner {f : NodeId → NodeId} (fuel : Nat) :
    (∀ e : Expr NodeId, OneFurther b f e.labels →
      Mimics inner outer (eval b fuel e) (eval b fuel (e.copy f))) ∧
    ∀ es : List (Expr NodeId), OneFurther b f (Expr.labelsEach es) →
      Mimics inner outer (evalEach b fuel es) (evalEach b fuel (Expr.copyEach f es)) := by
  induction fuel with
  | zero => exact ⟨fun _ _ => (Unscoped.throw _).mimics, fun _ _ => (Unscoped.throw _).mimics⟩
  | succ fuel ih =>
    obtain ⟨ih, ihEach⟩ := ih
    have keepsPlace := (samePlace_stable.keepsAll b fuel)
    have keepsGrows := (grows_stable.keepsAll b fuel)
    constructor
    · intro e h
      cases e with
      | literal value => exact (Unscoped.pure _).mimics
      | group operand => exact ih operand h
      | unary op operand =>
        exact (ih operand h).bind (keepsPlace.eval _) (keepsGrows.eval _) fun v =>
          (Unscoped.liftFault _ _).mimics
      | binary left op right =>
        exact (ih left h.left).bind (keepsPlace.eval _) (keepsGrows.eval _) fun l =>
          (ih right h.right).bind (keepsPlace.eval _) (keepsGrows.eval _) fun r =>
            (Unscoped.liftFault _ _).mimics
      | logical left op right =>
        exact (ih left h.left).bind (keepsPlace.eval _) (keepsGrows.eval _) fun l =>
          .ite (Unscoped.pure _).mimics (ih right h.right)
      | var id name => exact mimics_readVariable (h id List.mem_cons_self) name
      | thisRef id keyword => exact mimics_readVariable (h id List.mem_cons_self) keyword
      | assign id name value =>
        exact (ih value fun id hid => h id (List.mem_cons_of_mem _ hid)).bind (keepsPlace.eval _)
          (keepsGrows.eval _) fun v =>
          (mimics_assignVariable (h id List.mem_cons_self) name v).bind
            (samePlace_stable.assignVariable _ _ _ _) (grows_stable.assignVariable _ _ _ _) fun _ =>
            (Unscoped.pure _).mimics
      | call callee paren args =>
        exact (ih callee h.left).bind (keepsPlace.eval _) (keepsGrows.eval _) fun c =>
          (ihEach args h.right).bind (keepsPlace.evalEach _) (keepsGrows.evalEach _) fun vs =>
            (unscoped_call b fuel c paren vs).mimics
      | get object name =>
        refine (ih object h).bind (keepsPlace.eval _) (keepsGrows.eval _) fun o => ?_
        cases o with
        | instanceRef i => exact (unscoped_readProperty i name).mimics
        | _ => exact (Unscoped.failAt _ _).mimics
      | set object name value =>
        refine (ih object h.left).bind (keepsPlace.eval _) (keepsGrows.eval _) fun o => ?_
        cases o with
        | instanceRef i =>
          exact (ih value h.right).bind (keepsPlace.eval _) (keepsGrows.eval _) fun v =>
            ((Unscoped.onHeap _).bind fun _ => Unscoped.pure _).mimics
        | _ => exact (Unscoped.failAt _ _).mimics
    · intro es h
      cases es with
      | nil => exact (Unscoped.pure _).mimics
      | cons e es =>
        exact (ih e h.left).bind (keepsPlace.eval _) (keepsGrows.eval _) fun v =>
          (ihEach es h.right).bind (keepsPlace.evalEach _) (keepsGrows.evalEach _) fun vs =>
            (Unscoped.pure _).mimics

/-- So does the statement that evaluates it. -/
theorem exec_expr_inner {f : NodeId → NodeId} {e : Expr NodeId} (h : OneFurther b f e.labels)
    (fuel : Nat) : Mimics inner outer (exec b fuel (.expr e)) (exec b fuel (.expr (e.copy f))) := by
  cases fuel with
  | zero => exact (Unscoped.throw _).mimics
  | succ fuel =>
    exact ((eval_inner fuel).1 e h).toExec.bind ((samePlace_stable.keepsAll b fuel).eval _).toExec
      ((grows_stable.keepsAll b fuel).eval _).toExec fun _ => (Unscoped.pure _).mimics

end

end Evaluation

end LoxLang
