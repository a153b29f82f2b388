import LoxLang.Proofs.Property.Records

/-!
# Every run records its log

Where a log tells of the heap, whatever runs from there records what happens in it (`recordsAll`).  The
proof follows the evaluator, and has one case for each form of the tree.
-/

namespace LoxLang

namespace Evaluation

open Eval Exec

/-- Whatever runs records its log, with this much fuel. -/
structure RecordsAll (b : Bindings) (fuel : Nat) : Prop where
  eval : ∀ {log m}, Recorded log m → ∀ e,
    Records log m.heap Refers Whatever (eval b fuel e m) (accesses b fuel (.eval e) m)
  evalEach : ∀ {log m}, Recorded log m → ∀ es,
    Records log m.heap ReferAll Whatever (evalEach b fuel es m) (accesses b fuel (.evalEach es) m)
  call : ∀ {log m callee args}, Recorded log m → Refers callee m.heap → ∀ paren, ReferAll args m.heap →
    Records log m.heap Refers Whatever (call b fuel callee paren args m)
      (accesses b fuel (.call callee paren args) m)
  dispatch : ∀ {log m callee args}, Recorded log m → Refers callee m.heap → ∀ paren,
    ReferAll args m.heap → Records log m.heap Refers Whatever (dispatch b fuel callee paren args m)
      (accesses b fuel (.dispatch callee paren args) m)
  apply : ∀ {log m args} {c : Closure}, Recorded log m → m.heap.Has (.frame c.frame) →
    ReferAll args m.heap → Records log m.heap Refers Whatever (apply b fuel c args m)
      (accesses b fuel (.apply c args) m)
  exec : ∀ {log m}, Recorded log m → ∀ s,
    Records log m.heap Whatever ReturnRefers (exec b fuel s m) (accesses b fuel (.exec s) m)
  loop : ∀ {log m}, Recorded log m → ∀ condition body,
    Records log m.heap Whatever ReturnRefers (loop b fuel condition body m)
      (accesses b fuel (.loop condition body) m)
  execBlock : ∀ {log m frame}, Recorded log m → m.heap.Has (.frame frame) → ∀ ss,
    Records log m.heap Whatever ReturnRefers (execBlock b fuel frame ss m)
      (accesses b fuel (.execBlock frame ss) m)
  execEach : ∀ {log m}, Recorded log m → ∀ ss,
    Records log m.heap Whatever ReturnRefers (execEach b fuel ss m)
      (accesses b fuel (.execEach ss) m)

section

variable {b : Bindings} {fuel : Nat} {log : List Access} {m : Machine}

theorem records_eval (ih : RecordsAll b fuel) (hm : Recorded log m) (e : Expr NodeId) :
    Records log m.heap Refers Whatever (eval b (fuel + 1) e m)
      (accesses b (fuel + 1) (.eval e) m) := by
  cases e with
  | literal l => exact .pure (A := Refers) hm rfl (in_of_node?_eq_none (node?_literal l))
  | group inner => exact ih.eval hm inner
  | unary op operand =>
    refine .bind_quiet (ih.eval hm operand) fun v m' hm' _ _ => ?_
    exact .liftFault hm' op fun v' hv' => in_of_node?_eq_none (node?_applyUnary hv')
  | binary left op right =>
    refine .bind (ih.eval hm left) fun l m' _ hm' _ _ => ?_
    refine .bind_quiet (ih.eval hm' right) fun r m'' hm'' _ _ => ?_
    exact .liftFault hm'' op fun v hv => in_of_node?_eq_none (node?_applyBinary hv)
  | logical left op right =>
    refine .bind (ih.eval hm left) fun l m' _ hm' _ hl => ?_
    exact .ite (fun _ => .pure hm' rfl hl) fun _ => ih.eval hm' right
  | var id name => exact records_readVariable hm id name
  | thisRef id keyword => exact records_readVariable hm id keyword
  | assign id name value =>
    refine .bind_quiet (ih.eval hm value) fun v m' hm' _ hv => ?_
    refine .bind_quiet (records_assignVariable hm' id name hv) fun _ m'' hm'' hk _ => ?_
    exact .pure hm'' rfl (hk.value hv)
  | call callee paren args =>
    refine .bind (ih.eval hm callee) fun f m' _ hm' _ hf => ?_
    refine .bind (ih.evalEach hm' args) fun vs m'' _ hm'' hk hvs => ?_
    exact ih.call hm'' (hk.value hf) paren hvs
  | get object name =>
    refine .bind (ih.eval hm object) fun o m' _ hm' _ ho => ?_
    cases o with
    | instanceRef i => exact records_readProperty hm' (ho _ rfl) name
    | _ => exact .throw hm' rfl trivial
  | set object name value =>
    refine .bind (ih.eval hm object) fun o m' _ hm' _ ho => ?_
    cases o with
    | instanceRef i =>
      refine .bind (ih.eval hm' value) fun v m'' _ hm'' hk hv => ?_
      refine .bind_quiet (records_assignField hm'' (hk.has (ho _ rfl)) name hv) ?_
      exact fun _ m₃ hm₃ hk' _ => .pure hm₃ rfl (hk'.value hv)
    | _ => exact .throw hm' rfl trivial

theorem records_dispatch (ih : RecordsAll b fuel) (hm : Recorded log m) {callee : Value}
    (hcallee : Refers callee m.heap) (paren : Token) {args : List Value}
    (hargs : ReferAll args m.heap) :
    Records log m.heap Refers Whatever (dispatch b (fuel + 1) callee paren args m)
      (accesses b (fuel + 1) (.dispatch callee paren args) m) := by
  cases callee with
  | native n =>
    refine .bind_quiet (records_checkArity hm _ _ _) fun _ m' hm' _ _ => ?_
    exact records_callNative hm' n
  | functionRef id =>
    rw [accesses]
    refine .get_bind ?_
    cases hc : m.heap.functions[id]? with
    | none => exact .throw hm rfl trivial
    | some c =>
      refine .then_bind (records_checkArity hm _ _ _) fun _ m' hm' hr hk _ => ?_
      exact ih.apply hr (hk.has (hm.whole _ _ (.closure hc))) (hargs.kept hk)
  | classRef id =>
    have hid : m.heap.Has (.cls id) := hcallee _ rfl
    refine .then_bind (records_checkArity hm _ _ _) fun _ m₀ hr hm₀ _ _ => ?_
    obtain ⟨rfl, -⟩ := checkArity_ok hr
    refine .bind (records_addInstance hm₀ hid) fun i m' _ hm' hk hi => ?_
    have hinstance : Refers (.instanceRef i) m'.heap := fun _ hn => Option.some.inj hn ▸ hi
    cases hc : m₀.heap.method? id initializerName with
    | none => exact .pure hm' rfl hinstance
    | some c =>
      have hframe : m'.heap.Has (.frame c.frame) := hk.has (hm₀.whole _ _ (.method hc))
      refine .then_bind (records_bind hm' hframe hi) fun bound m'' _ hm'' hk' hbound => ?_
      refine .bind_quiet (ih.apply hm'' hbound (hargs.kept (hk.trans hk'))) fun _ m₃ hm₃ hk'' _ => ?_
      exact .pure hm₃ rfl (hk''.value (hk'.value hinstance))
  | _ => exact .throw hm rfl trivial

/-- An expression inside a statement. -/
theorem Records.lift_bind {α β : Type} {A : α → Heap → Prop} {B : β → Heap → Prop}
    {F : Stop → Heap → Prop} {as : List Access} {x : Eval α} {f : α → Exec β}
    {next : α → Machine → List Access} (hx : Records log m.heap A F (x m) as)
    (hf : ∀ a m', Recorded (log ++ as) m' → m.heap.Kept m'.heap → A a m'.heap →
      Records (log ++ as) m'.heap B ReturnRefers (f a m') (next a m')) :
    Records log m.heap B ReturnRefers ((Eval.toExec x >>= f) m) (as ++ followedBy (x m) next) := by
  have h : Records log m.heap B ReturnRefers ((Eval.toExec x >>= f) m)
      (as ++ followedBy (Eval.toExec x m) next) := hx.toExec.bind fun a m' _ => hf a m'
  have hsame : followedBy (Eval.toExec x m) next = followedBy (x m) next := by
    rw [Eval.toExec]
    cases x m <;> rfl
  rwa [hsame] at h

theorem records_exec (ih : RecordsAll b fuel) (hm : Recorded log m) (s : Stmt NodeId) :
    Records log m.heap Whatever ReturnRefers (exec b (fuel + 1) s m)
      (accesses b (fuel + 1) (.exec s) m) := by
  have hnil : Refers .nil m.heap := in_of_node?_eq_none rfl
  cases s with
  | expr e => exact .bind_quiet (ih.eval hm e).toExec fun _ m' hm' _ _ => .pure hm' rfl trivial
  | print e =>
    refine .bind_quiet (ih.eval hm e).toExec fun v m' hm' _ _ => ?_
    exact (records_printLine hm' _).toExec
  | var name value? =>
    cases value? with
    | none => exact (records_defineVariable hm name hnil).toExec
    | some e =>
      refine .bind_quiet (ih.eval hm e).toExec fun v m' hm' _ hv => ?_
      exact (records_defineVariable hm' name hv).toExec
  | block body =>
    refine .get_bind ?_
    change Records log m.heap _ _ _ ([] ++ followedBy (newFrame ∅ m.scope m) fun inner m =>
      accesses b fuel (.execBlock inner body) m)
    refine .lift_bind (records_newFrame hm (by simp) hm.scope) fun inner m' hm' _ hinner => ?_
    exact ih.execBlock hm' hinner body
  | ifThen condition s =>
    refine .lift_bind (ih.eval hm condition) fun c m' hm' _ _ => ?_
    exact .ite (fun _ => ih.exec hm' s) fun _ => .pure hm' rfl trivial
  | ifElse condition s s' =>
    refine .lift_bind (ih.eval hm condition) fun c m' hm' _ _ => ?_
    exact .ite (fun _ => ih.exec hm' s) fun _ => ih.exec hm' s'
  | whileLoop condition body => exact ih.loop hm condition body
  | function decl =>
    refine .get_bind ?_
    refine .bind_quiet (records_newFunction hm hm.scope).toExec fun f m' hm' _ hf => ?_
    exact (records_defineVariable hm' decl.name hf).toExec
  | ret keyword value? =>
    cases value? with
    | none => exact .throw hm rfl hnil
    | some e =>
      exact .bind_quiet (ih.eval hm e).toExec fun v m' hm' _ hv => .throw hm' rfl hv
  | classDecl name methods =>
    refine .get_bind ?_
    refine .bind_quiet (records_newClass hm name methods hm.scope).toExec fun c m' hm' _ hc => ?_
    exact (records_defineVariable hm' name hc).toExec

theorem recordsAll (b : Bindings) (fuel : Nat) : RecordsAll b fuel := by
  induction fuel with
  | zero =>
    constructor
    -- without fuel nothing happens
    all_goals intros; exact .throw ‹_› rfl trivial
  | succ fuel ih =>
    constructor
    case eval => exact fun hm e => records_eval ih hm e
    case evalEach =>
      rintro log m hm (_ | ⟨e, es⟩)
      · exact .pure (A := ReferAll) hm rfl fun v hv => absurd hv List.not_mem_nil
      · refine .bind (ih.eval hm e) fun v m' _ hm' _ hv => ?_
        refine .bind_quiet (ih.evalEach hm' es) fun vs m'' hm'' hk hvs => .pure hm'' rfl ?_
        exact List.forall_mem_cons.2 ⟨hk.value hv, hvs⟩
    case call =>
      intro log m callee args hm hcallee paren hargs
      refine .then_bind (records_checkDepth hm paren) fun _ m' hr hm' _ _ => ?_
      obtain ⟨rfl, -⟩ := checkDepth_ok hr
      have hin : Recorded log { m' with depth := m'.depth + 1 } := ⟨hm'.tells, hm'.whole, hm'.scope⟩
      exact .insideCall (ih.dispatch hin hcallee paren hargs)
    case dispatch => exact fun hm hcallee paren hargs => records_dispatch ih hm hcallee paren hargs
    case apply =>
      intro log m args c hm hc hargs
      refine .then_bind (records_newFrame hm (fun _ _ hv => in_of_parameterVars hargs hv) hc)
        fun inner m' _ hm' _ hinner => ?_
      refine .bind_quiet (ih.execBlock hm' hinner c.decl.body).catchReturn fun r? m'' hm'' _ hr => ?_
      exact records_callResult hm'' hr
    case exec => exact fun hm s => records_exec ih hm s
    case loop =>
      intro log m hm condition body
      refine .lift_bind (ih.eval hm condition) fun c m' hm' _ _ => ?_
      refine .ite (fun _ => ?_) fun _ => .pure hm' rfl trivial
      exact .bind (ih.exec hm' body) fun _ m'' _ hm'' _ _ => ih.loop hm'' condition body
    case execBlock =>
      intro log m frame hm hframe ss
      have hin : Recorded log { m with scope := frame } := ⟨hm.tells, hm.whole, hframe⟩
      exact .inFrame hm (ih.execEach hin ss)
    case execEach =>
      rintro log m hm (_ | ⟨s, ss⟩)
      · exact .pure hm rfl trivial
      · exact .bind (ih.exec hm s) fun _ m' _ hm' _ _ => ih.execEach hm' ss

end

end Evaluation

end LoxLang
