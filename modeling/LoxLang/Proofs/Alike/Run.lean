import LoxLang.Proofs.Alike.Result

/-!
# Alike trees run alike

On twin machines alike trees run alike with the same fuel: they yield the same value, or end in the
same way but for the line and the name in an error message, and leave twin machines behind
(`simulatesAll`).  The induction is on the fuel; all trees, worlds and marks are general, since a call
goes on with the body of some closure in a world of its own.
-/

namespace LoxLang

open Eval Exec Evaluation

/-- Everything that the evaluator runs with the given fuel runs alike on twin machines. -/
structure SimulatesAll (d : Difference) (fuel : Nat) : Prop where
  eval : ∀ {w m m' marks e e'}, m.Twin d w m' → Chain w m.heap.frames marks m.scope →
    Expr.Alike d marks e e' →
    Simulates d (Stop.Alike d) w m (eval d.table fuel e m) (eval d.table' fuel e' m')
  evalEach : ∀ {w m m' marks es es'}, m.Twin d w m' → Chain w m.heap.frames marks m.scope →
    Expr.AlikeEach d marks es es' →
    Simulates d (Stop.Alike d) w m (evalEach d.table fuel es m) (evalEach d.table' fuel es' m')
  call : ∀ {w m m' paren paren'}, m.Twin d w m' → d.tokens paren paren' → ∀ callee args,
    Simulates d (Stop.Alike d) w m (call d.table fuel callee paren args m)
      (call d.table' fuel callee paren' args m')
  dispatch : ∀ {w m m' paren paren'}, m.Twin d w m' → d.tokens paren paren' → ∀ callee args,
    Simulates d (Stop.Alike d) w m (dispatch d.table fuel callee paren args m)
      (dispatch d.table' fuel callee paren' args m')
  apply : ∀ {w m m' c c'}, m.Twin d w m' → TwinClosure d w m.heap.frames [] c c' →
    ∀ args, Simulates d (Stop.Alike d) w m (apply d.table fuel c args m)
      (apply d.table' fuel c' args m')
  exec : ∀ {w m m' marks s s'}, m.Twin d w m' → Chain w m.heap.frames marks m.scope →
    Stmt.Alike d marks s s' →
    Simulates d (Unwind.Alike d) w m (exec d.table fuel s m) (exec d.table' fuel s' m')
  loop : ∀ {w m m' marks e e' s s'}, m.Twin d w m' → Chain w m.heap.frames marks m.scope →
    Expr.Alike d marks e e' → Stmt.Alike d marks s s' →
    Simulates d (Unwind.Alike d) w m (loop d.table fuel e s m) (loop d.table' fuel e' s' m')
  execBlock : ∀ {w m m' marks frame ss ss'}, m.Twin d w m' →
    Chain w m.heap.frames marks frame → Stmt.AlikeEach d marks ss ss' →
    Simulates d (Unwind.Alike d) w m (execBlock d.table fuel frame ss m)
      (execBlock d.table' fuel frame ss' m')
  execEach : ∀ {w m m' marks ss ss'}, m.Twin d w m' →
    Chain w m.heap.frames marks m.scope → Stmt.AlikeEach d marks ss ss' →
    Simulates d (Unwind.Alike d) w m (execEach d.table fuel ss m) (execEach d.table' fuel ss' m')

section

variable {d : Difference} {w : World} {m m' : Machine} {marks : List Bool}
  {fuel : Nat}

open Simulates

/-! ### Operators -/

theorem applyUnary_congr {op op' : Token} (hop : op.Alike d false op') (v : Value) :
    Operators.applyUnary op' v = Operators.applyUnary op v := by
  unfold Operators.applyUnary
  rw [hop.kind, hop.lexeme]

theorem applyBinary_congr {op op' : Token} (hop : op.Alike d false op') (l r : Value) :
    Operators.applyBinary op' l r = Operators.applyBinary op l r := by
  have hnumbers : Operators.numbers op' l r = Operators.numbers op l r := by
    unfold Operators.numbers
    rw [hop.lexeme]
  unfold Operators.applyBinary
  rw [hop.kind, hnumbers]

/-! ### Single runs -/

theorem simulates_eval (ih : SimulatesAll d fuel) {e e' : Expr NodeId} (ht : m.Twin d w m')
    (hc : Chain w m.heap.frames marks m.scope) (h : Expr.Alike d marks e e') :
    Simulates d (Stop.Alike d) w m (eval d.table (fuel + 1) e m)
      (eval d.table' (fuel + 1) e' m') := by
  -- each part runs in a later world than the one before, in which the same frames are marked
  cases h with
  | literal => exact pure ht _
  | group h => exact ih.eval ht hc h
  | unary hop h =>
    refine bind (ih.eval ht hc h) fun v w₁ m₁ m₁' hlater ht₁ => ?_
    rw [applyUnary_congr hop]
    exact liftFault ht₁ hop.place _
  | binary hl hop hr =>
    refine bind (ih.eval ht hc hl) fun l w₁ m₁ m₁' hlater₁ ht₁ => ?_
    refine bind (ih.eval ht₁ (hlater₁.chain hc) hr) fun r w₂ m₂ m₂' hlater₂ ht₂ => ?_
    rw [applyBinary_congr hop]
    exact liftFault ht₂ hop.place _
  | logical hl hop hr =>
    refine bind (ih.eval ht hc hl) fun l w₁ m₁ m₁' hlater₁ ht₁ => ?_
    rw [hop.is_eq]
    exact ite (pure ht₁ l) (ih.eval ht₁ (hlater₁.chain hc) hr)
  | var hid ht' => exact readVariable ht hc hid ht'
  | thisRef hid ht' => exact readVariable ht hc hid ht'
  | assign hid ht' he =>
    refine bind (ih.eval ht hc he) fun v w₁ m₁ m₁' hlater₁ ht₁ => ?_
    refine bind (assignVariable ht₁ (hlater₁.chain hc) hid ht' v) fun _ w₂ m₂ m₂' _ ht₂ => ?_
    exact pure ht₂ v
  | call hf hparen hes =>
    refine bind (ih.eval ht hc hf) fun f w₁ m₁ m₁' hlater₁ ht₁ => ?_
    refine bind (ih.evalEach ht₁ (hlater₁.chain hc) hes) fun vs w₂ m₂ m₂' hlater₂ ht₂ => ?_
    exact ih.call ht₂ hparen.place f vs
  | get h hname =>
    refine bind (ih.eval ht hc h) fun o w₁ m₁ m₁' hlater₁ ht₁ => ?_
    cases o with
    | instanceRef i => exact readProperty ht₁ i hname
    | _ => exact failAt ht₁ hname.place _
  | set ho hname he =>
    refine bind (ih.eval ht hc ho) fun o w₁ m₁ m₁' hlater₁ ht₁ => ?_
    cases o with
    | instanceRef i =>
      refine bind (ih.eval ht₁ (hlater₁.chain hc) he) fun v w₂ m₂ m₂' hlater₂ ht₂ => ?_
      exact bind (assignField ht₂ i hname.lexeme v) fun _ w₃ m₃ m₃' _ ht₃ => pure ht₃ v
    | _ => exact failAt ht₁ hname.place _

theorem dispatch_function (b : Bindings) (fuel : Nat) (id : FunctionId) (paren : Token)
    (args : List Value) (m : Machine) :
    dispatch b (fuel + 1) (.functionRef id) paren args m =
      (match m.heap.functions[id]? with
        | some c => Evaluation.checkArity paren c.decl.arity args.length >>= fun _ =>
          apply b fuel c args
        | none => Eval.failAt paren .uncallable) m := rfl

theorem dispatch_class (b : Bindings) (fuel : Nat) (id : ClassId) (paren : Token)
    (args : List Value) (m : Machine) :
    dispatch b (fuel + 1) (.classRef id) paren args m =
      (Evaluation.checkArity paren
          (((m.heap.method? id initializerName).map (·.decl.arity)).getD 0) args.length >>= fun _ =>
        Eval.onHeap (·.addInstance ⟨id, ∅⟩) >>= fun i =>
        match m.heap.method? id initializerName with
        | some c => Eval.onHeap (·.bind c i) >>= fun bound =>
          apply b fuel bound args >>= fun _ => Pure.pure (.instanceRef i)
        | none => Pure.pure (.instanceRef i)) m := rfl

theorem simulates_dispatch (ih : SimulatesAll d fuel) (ht : m.Twin d w m') {paren paren' : Token}
    (hparen : d.tokens paren paren') (callee : Value) (args : List Value) :
    Simulates d (Stop.Alike d) w m (dispatch d.table (fuel + 1) callee paren args m)
      (dispatch d.table' (fuel + 1) callee paren' args m') := by
  cases callee with
  | native n =>
    exact bind (checkArity ht hparen _ _) fun _ w₁ m₁ m₁' _ ht₁ => callNative ht₁ n
  | functionRef id =>
    have hfunction := ht.heap.functions.2 id
    rw [dispatch_function, dispatch_function]
    -- there is a function under the number in both heaps or in none
    generalize m.heap.functions[id]? = c?, m'.heap.functions[id]? = c'? at hfunction
    cases hfunction with
    | none => exact failAt ht hparen _
    | @some c c' hc =>
      have harity : c'.decl.arity = c.decl.arity := by
        obtain ⟨-, -, marks, -, halike⟩ := hc
        exact halike.arity
      simp only [harity]
      exact bind (checkArity ht hparen _ _) fun _ w₁ m₁ m₁' hlater ht₁ =>
        ih.apply ht₁ (hlater.closure hc) args
  | classRef id =>
    have hmethod := ht.heap.method? id initializerName
    rw [dispatch_class, dispatch_class]
    generalize m.heap.method? id initializerName = c?, m'.heap.method? id initializerName = c'?
      at hmethod
    cases hmethod with
    | none =>
      refine bind (checkArity ht hparen _ _) fun _ w₁ m₁ m₁' _ ht₁ => ?_
      exact bind (addInstance ht₁ _) fun i w₂ m₂ m₂' _ ht₂ => pure ht₂ _
    | @some c c' hc =>
      have harity : c'.decl.arity = c.decl.arity := by
        obtain ⟨-, -, marks, -, halike⟩ := hc
        exact halike.arity
      simp only [Option.map_some, Option.getD_some, harity]
      refine bind (checkArity ht hparen _ _) fun _ w₁ m₁ m₁' hlater₁ ht₁ => ?_
      refine bind (addInstance ht₁ _) fun i w₂ m₂ m₂' hlater₂ ht₂ => ?_
      have hc₂ := hlater₂.closure (hlater₁.closure hc)
      refine bindMethod ht₂ hc₂ i fun bound bound' w₃ m₃ m₃' ht₃ hbound => ?_
      exact bind (ih.apply ht₃ hbound args) fun _ w₄ m₄ m₄' _ ht₄ => pure ht₄ _
  | _ => exact failAt ht hparen _

theorem simulates_apply (ih : SimulatesAll d fuel) (ht : m.Twin d w m') {c c' : Closure}
    (h : TwinClosure d w m.heap.frames [] c c') (args : List Value) :
    Simulates d (Stop.Alike d) w m (apply d.table (fuel + 1) c args m)
      (apply d.table' (fuel + 1) c' args m') := by
  obtain ⟨hframe, -, marks, hc, halike⟩ := id h
  obtain ⟨decl, frame, isInitializer⟩ := c
  obtain ⟨decl', frame', isInitializer'⟩ := c'
  obtain rfl : frame' = frame := hframe
  cases halike with
  | @mk _ mark label label' t t' ps ps' body body' _ hps hbody =>
    refine newFrame
      (fun frame => catchReturn (execBlock d.table fuel frame body) >>= Evaluation.callResult _)
      (fun frame => catchReturn (execBlock d.table' fuel frame body') >>= Evaluation.callResult _) ht
      (fun n n' hn => twin_parameters hps args hn) hc ?_
    intro frame w₁ m₁ m₁' _ ht₁ hc₁
    refine bind (ih.execBlock ht₁ hc₁ hbody).catchReturn fun r w₂ m₂ m₂' _ ht₂ => ?_
    exact Simulates.callResult ht₂ h r

/-- A declared name that is kept is the same in both frames. -/
theorem keepsName_renamed {fs : Frames} {id : FrameId} (hc : Chain w fs marks id)
    (hglobal : w globalFrame = false) {t : Token} (h : KeepsName d marks t) :
    RenamedIf d.old d.new (w id) t.lexeme t.lexeme := by
  rw [hc.head hglobal]
  cases hhead : marks.head? == some true with
  | false => exact .unmarked _
  | true =>
    obtain ⟨hold, hnew⟩ := h (beq_iff_eq.1 hhead)
    exact .other hold hnew true

theorem simulates_exec (ih : SimulatesAll d fuel) {s s' : Stmt NodeId}
    (ht : m.Twin d w m') (hc : Chain w m.heap.frames marks m.scope)
    (h : Stmt.Alike d marks s s') :
    Simulates d (Unwind.Alike d) w m (exec d.table (fuel + 1) s m)
      (exec d.table' (fuel + 1) s' m') := by
  cases h with
  | expr h => exact bind (ih.eval ht hc h).toExec fun _ w₁ m₁ m₁' _ ht₁ => pure ht₁ ()
  | print h =>
    refine bind (ih.eval ht hc h).toExec fun v w₁ m₁ m₁' _ ht₁ => ?_
    change Simulates d _ w₁ m₁ (toExec (Eval.printLine (m₁.heap.display v)) m₁)
      (toExec (Eval.printLine (m₁'.heap.display v)) m₁')
    rw [ht₁.heap.display]
    exact (printLine ht₁ _).toExec
  | @var _ t t' e? e?' hname h =>
    -- the frame is marked if the scope of the declaration is
    have hdefine {w₁ : World} {m₁ m₁' : Machine} (hlater : Later w w₁ m m₁)
        (ht₁ : m₁.Twin d w₁ m₁') (v : Value) :
        Simulates d (Unwind.Alike d) w₁ m₁ (toExec (Evaluation.defineVariable t v) m₁)
          (toExec (Evaluation.defineVariable t' v) m₁') := by
      refine (defineVariable ht₁ ?_ v).toExec
      rw [(hlater.chain hc).head ht₁.heap.globalMark]
      exact hname.name
    cases h with
    | none => exact hdefine (.refl w m) ht .nil
    | some he =>
      exact bind (ih.eval ht hc he).toExec fun v w₁ m₁ m₁' hlater ht₁ => hdefine hlater ht₁ v
  | @block _ mark body body' h =>
    have hrun (b : Bindings) (m : Machine) (body : List (Stmt NodeId)) {around : FrameId}
        (h : m.scope = around) :
        exec b (fuel + 1) (.block body) m = execBlock b fuel m.heap.frames.next body
          { m with heap := (m.heap.addFrame ⟨∅, some around⟩).2 } := by rw [← h]; rfl
    rw [hrun d.table m body rfl, hrun d.table' m' body' ht.scope]
    exact newFrame (fun frame => execBlock d.table fuel frame body)
      (fun frame => execBlock d.table' fuel frame body') ht (fun _ _ _ => rfl) hc
      fun frame w₁ m₁ m₁' _ ht₁ hc₁ => ih.execBlock ht₁ hc₁ h
  | ifThen he hs =>
    refine bind (ih.eval ht hc he).toExec fun c w₁ m₁ m₁' hlater ht₁ => ?_
    exact ite (ih.exec ht₁ (hlater.chain hc) hs) (pure ht₁ ())
  | ifElse he hs hs' =>
    refine bind (ih.eval ht hc he).toExec fun c w₁ m₁ m₁' hlater ht₁ => ?_
    exact ite (ih.exec ht₁ (hlater.chain hc) hs) (ih.exec ht₁ (hlater.chain hc) hs')
  | whileLoop he hs => exact ih.loop ht hc he hs
  | @function _ f f' hname h =>
    have hrun (b : Bindings) (m : Machine) (f : Function NodeId) : exec b (fuel + 1) (.function f) m =
        (toExec (Evaluation.newFunction ⟨f, m.scope, false⟩) >>= fun v =>
          toExec (Evaluation.defineVariable f.name v)) m := rfl
    rw [hrun, hrun, ht.scope]
    -- the closure keeps the frame of the declaration, and with it the marks
    have hclosure : TwinClosure d w m.heap.frames [] ⟨f, m.scope, false⟩ ⟨f', m.scope, false⟩ :=
      ⟨rfl, rfl, marks, hc, h⟩
    refine bind (Simulates.newFunction ht hclosure).toExec fun v w₁ m₁ m₁' hlater ht₁ => ?_
    refine (defineVariable ht₁ ?_ v).toExec
    rw [h.name.lexeme]
    exact keepsName_renamed (hlater.chain hc) ht₁.heap.globalMark hname
  | @ret _ keyword keyword' e? e?' h =>
    cases h with
    | none => exact throw ht .returned
    | some he =>
      exact bind (ih.eval ht hc he).toExec fun v w₁ m₁ m₁' hlater ht₁ => throw ht₁ .returned
  | @classDecl _ t t' ms ms' hname ht' h =>
    have hrun (b : Bindings) (m : Machine) (t : Token) (ms : List (Function NodeId)) :
        exec b (fuel + 1) (.classDecl t ms) m =
          (toExec (Evaluation.newClass t ms m.scope) >>= fun c =>
            toExec (Evaluation.defineVariable t c)) m := rfl
    rw [hrun, hrun, ht.scope]
    refine bind (newClass ht hc ht'.lexeme h).toExec fun c w₁ m₁ m₁' hlater ht₁ => ?_
    refine (defineVariable ht₁ ?_ c).toExec
    rw [ht'.lexeme]
    exact keepsName_renamed (hlater.chain hc) ht₁.heap.globalMark hname

theorem simulatesAll (d : Difference) (fuel : Nat) : SimulatesAll d fuel := by
  induction fuel with
  | zero =>
    constructor
    -- without fuel both runs are exhausted
    case exec | loop | execBlock | execEach =>
      intros
      exact throw ‹_› (.stopped .exhausted)
    all_goals
      intros
      exact throw ‹_› .exhausted
  | succ fuel ih =>
    constructor
    case eval => exact fun ht hc h => simulates_eval ih ht hc h
    case evalEach =>
      intro w m m' marks es es' ht hc h
      cases h with
      | nil => exact pure ht []
      | cons he hes =>
        refine bind (ih.eval ht hc he) fun v w₁ m₁ m₁' hlater₁ ht₁ => ?_
        refine bind (ih.evalEach ht₁ (hlater₁.chain hc) hes) fun vs w₂ m₂ m₂' _ ht₂ => ?_
        exact pure ht₂ (v :: vs)
    case call =>
      intro w m m' paren paren' ht hparen callee args
      refine bind (checkDepth ht hparen) fun _ w₁ m₁ m₁' _ ht₁ => ?_
      refine insideCall (ih.dispatch ?_ hparen callee args)
      exact { ht₁ with depth := by simp [ht₁.depth] }
    case dispatch => exact fun ht => simulates_dispatch ih ht
    case apply => exact fun ht h => simulates_apply ih ht h
    case exec => exact fun ht hc h => simulates_exec ih ht hc h
    -- each round goes with less fuel, so that the hypothesis holds of the next one
    case loop =>
      intro w m m' marks e e' s s' ht hc he hs
      refine bind (ih.eval ht hc he).toExec fun c w₁ m₁ m₁' hlater₁ ht₁ => ?_
      refine ite ?_ (pure ht₁ ())
      have hc₁ := hlater₁.chain hc
      refine bind (ih.exec ht₁ hc₁ hs) fun _ w₂ m₂ m₂' hlater₂ ht₂ => ?_
      exact ih.loop ht₂ (hlater₂.chain hc₁) he hs
    case execBlock =>
      intro w m m' marks frame ss ss' ht hc h
      refine inFrame ht.scope (ih.execEach ?_ hc h)
      exact { ht with scope := rfl }
    case execEach =>
      intro w m m' marks ss ss' ht hc h
      cases h with
      | nil => exact pure ht ()
      | cons hs hss =>
        refine bind (ih.exec ht hc hs) fun _ w₁ m₁ m₁' hlater ht₁ => ?_
        exact ih.execEach ht₁ (hlater.chain hc) hss

end

end LoxLang
