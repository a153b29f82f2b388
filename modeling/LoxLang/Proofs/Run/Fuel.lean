import LoxLang.Evaluation
import Mathlib.Tactic.SplitIfs

/-!
# More fuel

What ends with one amount of fuel ends in the same way with more of it: one step more by induction on the
fuel (`extendsAll`), and from it any number of steps (`Extends.of_le`).  The first of two lists of
statements uses up one unit of fuel for each statement, and the second one runs with the rest
(`execEach_append`).
-/

namespace LoxLang

namespace Evaluation

open Eval Exec

/-- The second run ends as the first one, unless that gave up with `out`. -/
def Extends {ε α : Type} (out : ε) (x y : EStateM ε Machine α) : Prop :=
  ∀ m, (∃ m', x m = .error out m') ∨ y m = x m

namespace Extends

variable {ε α β : Type} {out : ε} {x y : EStateM ε Machine α}

theorem refl (x : EStateM ε Machine α) : Extends out x x := fun _ => .inr rfl

theorem trans {z : EStateM ε Machine α} (h : Extends out x y) (h' : Extends out y z) :
    Extends out x z := by
  intro m
  rcases h m with hm | hm
  · exact .inl hm
  · rw [← hm]
    exact h' m

/-- What has not given up is how the run ends with more fuel. -/
theorem eq_of_ne {m : Machine} (h : Extends out x y) (hm : ∀ m', x m ≠ .error out m') : y m = x m :=
  (h m).resolve_left fun ⟨m', hm'⟩ => hm m' hm'

/-- What one more unit of fuel extends, any more fuel does. -/
theorem of_le {run : Nat → EStateM ε Machine α}
    (hrun : ∀ fuel, Extends out (run fuel) (run (fuel + 1))) {fuel fuel' : Nat}
    (h : fuel ≤ fuel') : Extends out (run fuel) (run fuel') := by
  induction h with
  | refl => exact .refl _
  | step _ ih => exact ih.trans (hrun _)

/-- Giving up is extended by everything. -/
theorem throw (y : EStateM ε Machine α) : Extends out (MonadExcept.throw out) y :=
  fun m => .inl ⟨m, rfl⟩

theorem bind {f g : α → EStateM ε Machine β} (hx : Extends out x y)
    (hf : ∀ a, Extends out (f a) (g a)) : Extends out (x >>= f) (y >>= g) := by
  intro m
  change (∃ m', EStateM.bind x f m = _) ∨ EStateM.bind y g m = EStateM.bind x f m
  rw [EStateM.bind, EStateM.bind]
  rcases hx m with ⟨m', hm⟩ | hm
  · rw [hm]
    exact .inl ⟨m', rfl⟩
  · rw [hm]
    cases x m with
    | ok a m' => exact hf a m'
    | error e m' => exact .inr rfl

theorem ite {c : Prop} [Decidable c] {x' y' : EStateM ε Machine α} (hx : Extends out x y)
    (hx' : Extends out x' y') : Extends out (if c then x else x') (if c then y else y') := by
  split_ifs
  · exact hx
  · exact hx'

theorem toExec {x y : Eval α} (h : Extends .exhausted x y) :
    Extends (.stopped .exhausted) (toExec x) (toExec y) := by
  intro m
  rw [Eval.toExec, Eval.toExec]
  rcases h m with ⟨m', hm⟩ | hm
  · rw [hm]
    exact .inl ⟨m', rfl⟩
  · rw [hm]
    exact .inr rfl

theorem catchReturn {x y : Exec Unit} (h : Extends (.stopped .exhausted) x y) :
    Extends .exhausted (catchReturn x) (catchReturn y) := by
  intro m
  rw [Exec.catchReturn, Exec.catchReturn]
  rcases h m with ⟨m', hm⟩ | hm
  · rw [hm]
    exact .inl ⟨m', rfl⟩
  · rw [hm]
    exact .inr rfl

theorem insideCall {x y : Eval α} (h : Extends .exhausted x y) :
    Extends .exhausted (insideCall x) (insideCall y) := by
  intro m
  rw [Eval.insideCall, Eval.insideCall]
  rcases h { m with depth := m.depth + 1 } with ⟨m', hm⟩ | hm
  · rw [hm]
    exact .inl ⟨_, rfl⟩
  · rw [hm]
    exact .inr rfl

theorem inFrame {x y : Exec α} (frame : FrameId) (h : Extends (.stopped .exhausted) x y) :
    Extends (.stopped .exhausted) (inFrame frame x) (inFrame frame y) := by
  intro m
  rw [Exec.inFrame, Exec.inFrame]
  rcases h { m with scope := frame } with ⟨m', hm⟩ | hm
  · rw [hm]
    exact .inl ⟨_, rfl⟩
  · rw [hm]
    exact .inr rfl

end Extends

/-! ### The evaluator -/

/-- Whatever ends with the given fuel ends in the same way with one more. -/
structure ExtendsAll (b : Bindings) (fuel : Nat) : Prop where
  eval : ∀ e, Extends .exhausted (eval b fuel e) (eval b (fuel + 1) e)
  evalEach : ∀ es, Extends .exhausted (evalEach b fuel es) (evalEach b (fuel + 1) es)
  call : ∀ callee paren args,
    Extends .exhausted (call b fuel callee paren args) (call b (fuel + 1) callee paren args)
  dispatch : ∀ callee paren args,
    Extends .exhausted (dispatch b fuel callee paren args) (dispatch b (fuel + 1) callee paren args)
  apply : ∀ c args, Extends .exhausted (apply b fuel c args) (apply b (fuel + 1) c args)
  exec : ∀ s, Extends (.stopped .exhausted) (exec b fuel s) (exec b (fuel + 1) s)
  loop : ∀ e s, Extends (.stopped .exhausted) (loop b fuel e s) (loop b (fuel + 1) e s)
  execBlock : ∀ frame ss,
    Extends (.stopped .exhausted) (execBlock b fuel frame ss) (execBlock b (fuel + 1) frame ss)
  execEach : ∀ ss, Extends (.stopped .exhausted) (execEach b fuel ss) (execEach b (fuel + 1) ss)

section

variable {b : Bindings} {fuel : Nat}

open Extends

theorem extends_eval (ih : ExtendsAll b fuel) (e : Expr NodeId) :
    Extends .exhausted (eval b (fuel + 1) e) (eval b (fuel + 2) e) := by
  -- what comes after a part that was exhausted does not matter
  cases e with
  | literal value => exact refl _
  | group inner => exact ih.eval inner
  | unary op operand => exact (ih.eval operand).bind fun v => refl _
  | binary left op right => exact (ih.eval left).bind fun l => (ih.eval right).bind fun r => refl _
  | logical left op right => exact (ih.eval left).bind fun l => ite (refl _) (ih.eval right)
  | var id name => exact refl _
  | thisRef id keyword => exact refl _
  | assign id name value => exact (ih.eval value).bind fun v => refl _
  | call callee paren args =>
    exact (ih.eval callee).bind fun f => (ih.evalEach args).bind fun vs => ih.call f paren vs
  | get object name => exact (ih.eval object).bind fun o => refl _
  | set object name value =>
    refine (ih.eval object).bind fun o => ?_
    cases o with
    | instanceRef i => exact (ih.eval value).bind fun v => refl _
    | _ => exact refl _

theorem extends_dispatch (ih : ExtendsAll b fuel) (callee : Value) (paren : Token)
    (args : List Value) :
    Extends .exhausted (dispatch b (fuel + 1) callee paren args)
      (dispatch b (fuel + 2) callee paren args) := by
  cases callee with
  | functionRef id =>
    refine (refl get).bind fun m => ?_
    cases m.heap.functions[id]? with
    | none => exact refl _
    | some c => exact (refl _).bind fun _ => ih.apply c args
  | classRef id =>
    refine (refl get).bind fun m => (refl _).bind fun _ => (refl _).bind fun i => ?_
    cases m.heap.method? id initializerName with
    | none => exact refl _
    | some c => exact (refl _).bind fun bound => (ih.apply bound args).bind fun _ => refl _
  | _ => exact refl _

theorem extends_exec (ih : ExtendsAll b fuel) (s : Stmt NodeId) :
    Extends (.stopped .exhausted) (exec b (fuel + 1) s) (exec b (fuel + 2) s) := by
  cases s with
  | expr e => exact (ih.eval e).toExec.bind fun _ => refl _
  | print e => exact (ih.eval e).toExec.bind fun _ => refl _
  | var name value? =>
    cases value? with
    | none => exact refl _
    | some e => exact (ih.eval e).toExec.bind fun v => refl _
  | block body => exact (refl get).bind fun m => (refl _).bind fun frame => ih.execBlock frame body
  | ifThen condition s => exact (ih.eval condition).toExec.bind fun c => ite (ih.exec s) (refl _)
  | ifElse condition s t =>
    exact (ih.eval condition).toExec.bind fun c => ite (ih.exec s) (ih.exec t)
  | whileLoop condition body => exact ih.loop condition body
  | function decl => exact refl _
  | ret keyword value? =>
    cases value? with
    | none => exact refl _
    | some e => exact (ih.eval e).toExec.bind fun v => refl _
  | classDecl name methods => exact refl _

theorem extendsAll (b : Bindings) (fuel : Nat) : ExtendsAll b fuel := by
  induction fuel with
  | zero =>
    constructor <;> intros <;> exact throw _
  | succ fuel ih =>
    constructor
    case eval => exact extends_eval ih
    case evalEach =>
      intro es
      cases es with
      | nil => exact refl _
      | cons e es => exact (ih.eval e).bind fun v => (ih.evalEach es).bind fun vs => refl _
    case call =>
      exact fun callee paren args => (refl _).bind fun _ => (ih.dispatch callee paren args).insideCall
    case dispatch => exact extends_dispatch ih
    case apply =>
      exact fun c args => (refl _).bind fun frame =>
        (ih.execBlock frame c.decl.body).catchReturn.bind fun r => refl _
    case exec => exact extends_exec ih
    case loop =>
      exact fun e s => (ih.eval e).toExec.bind fun c =>
        ite ((ih.exec s).bind fun _ => ih.loop e s) (refl _)
    case execBlock => exact fun frame ss => (ih.execEach ss).inFrame frame
    case execEach =>
      intro ss
      cases ss with
      | nil => exact refl _
      | cons s ss => exact (ih.exec s).bind fun _ => ih.execEach ss

end

/-! ### Lists of statements -/

theorem bind_of_ok {ε α β : Type} {x : EStateM ε Machine α} {m m' : Machine} {a : α}
    (h : x m = .ok a m') (f : α → EStateM ε Machine β) : (x >>= f) m = f a m' := by
  change EStateM.bind x f m = _
  rw [EStateM.bind, h]

theorem bind_of_error {ε α β : Type} {x : EStateM ε Machine α} {m m' : Machine} {e : ε}
    (h : x m = .error e m') (f : α → EStateM ε Machine β) : (x >>= f) m = .error e m' := by
  change EStateM.bind x f m = _
  rw [EStateM.bind, h]

theorem execEach_extend_of_le (b : Bindings) {fuel fuel' : Nat} (h : fuel ≤ fuel')
    (ss : List (Stmt NodeId)) :
    Extends (.stopped .exhausted) (execEach b fuel ss) (execEach b fuel' ss) :=
  .of_le (fun fuel => (extendsAll b fuel).execEach ss) h

/-- Statements end as the first ones and after them the others end. -/
theorem execEach_append (b : Bindings) (fuel : Nat) (ss ss' : List (Stmt NodeId)) :
    execEach b (fuel + ss.length) (ss ++ ss') =
      execEach b (fuel + ss.length) ss >>= fun _ => execEach b fuel ss' := by
  -- each of the first statements takes one unit of the fuel
  induction ss with
  | nil => cases fuel <;> rfl
  | cons s ss ih =>
    change (exec b (fuel + ss.length) s >>= fun _ => execEach b (fuel + ss.length) (ss ++ ss')) =
      (exec b (fuel + ss.length) s >>= fun _ => execEach b (fuel + ss.length) ss) >>= fun _ =>
        execEach b fuel ss'
    rw [bind_assoc]
    simp only [ih]

end Evaluation

end LoxLang
