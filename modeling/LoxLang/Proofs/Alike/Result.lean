import LoxLang.Evaluation
import LoxLang.Proofs.Alike.Machine

/-!
# Runs that end alike

`Simulates` says of the results of two runs on twin machines that they are the same value, or the same
error at corresponding tokens but for the name of a variable that it quotes, and that the machines are
twins again, perhaps in a later world.  The lemmas follow the monad and the single steps of the evaluator.
-/

namespace LoxLang

open Eval Exec Evaluation

/-- A later moment of a run: the frame that runs is the same, and no frame has changed its mark. -/
structure Later (w w' : World) (m m' : Machine) : Prop where
  scope : m'.scope = m.scope
  grow : m.heap.frames.Grow m'.heap.frames
  marks : ∀ id < m.heap.frames.next, w' id = w id

/-- The same error at corresponding tokens, but for the name of a variable that was not found. -/
inductive RunError.Alike (d : Difference) : RunError → RunError → Prop where
  | fault {t t' f} : d.tokens t t' → RunError.Alike d (.fault t.line f) (.fault t'.line f)
  | undefined {t t'} : d.tokens t t' →
    RunError.Alike d (.fault t.line (.undefinedVariable d.old))
      (.fault t'.line (.undefinedVariable d.new))
  | sinkFull : RunError.Alike d .sinkFull .sinkFull

/-- The runs of two expressions end for the same reason. -/
inductive Stop.Alike (d : Difference) : Stop → Stop → Prop where
  | failed {e e'} : RunError.Alike d e e' → Stop.Alike d (.failed e) (.failed e')
  | exhausted : Stop.Alike d .exhausted .exhausted

/-- Two statements end early for the same reason. -/
inductive Unwind.Alike (d : Difference) : Unwind → Unwind → Prop where
  | stopped {s s'} : Stop.Alike d s s' → Unwind.Alike d (.stopped s) (.stopped s')
  | returned {v} : Unwind.Alike d (.returned v) (.returned v)

/-- Two runs that began on twin machines, the first on `m`, have ended alike. -/
inductive Simulates {ε α : Type} (d : Difference) (E : ε → ε → Prop) (w : World)
    (m : Machine) : EStateM.Result ε Machine α → EStateM.Result ε Machine α → Prop where
  | ok {a w₁ m₁ m₁'} : Later w w₁ m m₁ → m₁.Twin d w₁ m₁' →
    Simulates d E w m (.ok a m₁) (.ok a m₁')
  | error {e e' w₁ m₁ m₁'} : E e e' → Later w w₁ m m₁ → m₁.Twin d w₁ m₁' →
    Simulates d E w m (.error e m₁) (.error e' m₁')

section

variable {d : Difference} {w w₁ : World} {m m' m₁ m₁' : Machine} {marks : List Bool}

namespace Later

theorem refl (w : World) (m : Machine) : Later w w m m := ⟨rfl, .refl _, fun _ _ => rfl⟩

theorem trans {w₂ : World} {m₂ : Machine} (h : Later w w₁ m m₁) (h' : Later w₁ w₂ m₁ m₂) :
    Later w w₂ m m₂ where
  scope := h'.scope.trans h.scope
  grow := h.grow.trans h'.grow
  marks id hid := (h'.marks id (Nat.lt_of_lt_of_le hid h.grow.next)).trans (h.marks id hid)

/-- The frame that runs is still marked as before, and so are the frames around it. -/
theorem chain (h : Later w w₁ m m₁) (hc : Chain w m.heap.frames marks m.scope) :
    Chain w₁ m₁.heap.frames marks m₁.scope := by
  rw [h.scope]
  exact hc.grow h.grow h.marks

theorem closure {inner : List Bool} {c c' : Closure} (h : Later w w₁ m m₁)
    (hc : TwinClosure d w m.heap.frames inner c c') :
    TwinClosure d w₁ m₁.heap.frames inner c c' := hc.grow h.grow h.marks

end Later

namespace Simulates

variable {ε α β : Type} {E : ε → ε → Prop}

/-- What begins later ends later. -/
theorem later {r r' : EStateM.Result ε Machine α} (h : Later w w₁ m m₁)
    (hr : Simulates d E w₁ m₁ r r') : Simulates d E w m r r' := by
  cases hr with
  | ok hlater ht => exact .ok (h.trans hlater) ht
  | error he hlater ht => exact .error he (h.trans hlater) ht

theorem pure (ht : m.Twin d w m') (a : α) :
    Simulates d E w m ((Pure.pure a : EStateM ε Machine α) m)
      ((Pure.pure a : EStateM ε Machine α) m') := .ok (.refl w m) ht

theorem throw (ht : m.Twin d w m') {e e' : ε} (he : E e e') :
    Simulates d E w m ((MonadExcept.throw e : EStateM ε Machine α) m)
      ((MonadExcept.throw e' : EStateM ε Machine α) m') := .error he (.refl w m) ht

theorem bind {x x' : EStateM ε Machine α} {f f' : α → EStateM ε Machine β}
    (hx : Simulates d E w m (x m) (x' m'))
    (hf : ∀ a w₁ m₁ m₁', Later w w₁ m m₁ → m₁.Twin d w₁ m₁' →
      Simulates d E w₁ m₁ (f a m₁) (f' a m₁')) :
    Simulates d E w m ((x >>= f) m) ((x' >>= f') m') := by
  change Simulates d E w m (EStateM.bind x f m) (EStateM.bind x' f' m')
  rw [EStateM.bind, EStateM.bind]
  generalize x m = r, x' m' = r' at hx
  cases hx with
  | ok hlater ht => exact (hf _ _ _ _ hlater ht).later hlater
  | error he hlater ht => exact .error he hlater ht

theorem ite {c : Prop} [Decidable c] {x y x' y' : EStateM ε Machine α}
    (hx : Simulates d E w m (x m) (x' m')) (hy : Simulates d E w m (y m) (y' m')) :
    Simulates d E w m ((if c then x else y) m) ((if c then x' else y') m') := by
  split_ifs
  · exact hx
  · exact hy

/-! ### Combinators -/

theorem toExec {x x' : Eval α} (hx : Simulates d (Stop.Alike d) w m (x m) (x' m')) :
    Simulates d (Unwind.Alike d) w m (toExec x m) (toExec x' m') := by
  rw [Eval.toExec, Eval.toExec]
  generalize x m = r, x' m' = r' at hx
  cases hx with
  | ok hlater ht => exact .ok hlater ht
  | error he hlater ht => exact .error (.stopped he) hlater ht

theorem catchReturn {x x' : Exec Unit}
    (hx : Simulates d (Unwind.Alike d) w m (x m) (x' m')) :
    Simulates d (Stop.Alike d) w m (catchReturn x m) (catchReturn x' m') := by
  rw [Exec.catchReturn, Exec.catchReturn]
  generalize x m = r, x' m' = r' at hx
  cases hx with
  | ok hlater ht => exact .ok hlater ht
  | error he hlater ht =>
    cases he with
    | stopped hs => exact .error hs hlater ht
    | returned => exact .ok hlater ht

theorem insideCall {x x' : Eval α}
    (hx : Simulates d (Stop.Alike d) w { m with depth := m.depth + 1 }
      (x { m with depth := m.depth + 1 }) (x' { m' with depth := m'.depth + 1 })) :
    Simulates d (Stop.Alike d) w m (insideCall x m) (insideCall x' m') := by
  rw [Eval.insideCall, Eval.insideCall]
  generalize x { m with depth := m.depth + 1 } = r, x' { m' with depth := m'.depth + 1 } = r' at hx
  cases hx with
  | ok hlater ht =>
    exact .ok ⟨hlater.scope, hlater.grow, hlater.marks⟩ { ht with depth := by simp [ht.depth] }
  | error he hlater ht =>
    exact .error he ⟨hlater.scope, hlater.grow, hlater.marks⟩ { ht with depth := by simp [ht.depth] }

theorem inFrame {x x' : Exec α} {frame : FrameId} (hscope : m'.scope = m.scope)
    (hx : Simulates d (Unwind.Alike d) w { m with scope := frame }
      (x { m with scope := frame }) (x' { m' with scope := frame })) :
    Simulates d (Unwind.Alike d) w m (inFrame frame x m) (inFrame frame x' m') := by
  rw [Exec.inFrame, Exec.inFrame]
  generalize x { m with scope := frame } = r, x' { m' with scope := frame } = r' at hx
  cases hx with
  | ok hlater ht => exact .ok ⟨rfl, hlater.grow, hlater.marks⟩ { ht with scope := hscope }
  | error he hlater ht => exact .error he ⟨rfl, hlater.grow, hlater.marks⟩ { ht with scope := hscope }

/-! ### Single steps -/

theorem failAt (ht : m.Twin d w m') {t t' : Token} (h : d.tokens t t') (f : RuntimeFault) :
    Simulates d (Stop.Alike d) w m ((failAt t f : Eval α) m) (failAt t' f m') :=
  throw ht (.failed (.fault h))

/-- A variable that is not found is reported under the name it has. -/
theorem undefined (ht : m.Twin d w m') {marked : Bool} {t t' : Token} (h : t.Alike d marked t') :
    Simulates d (Stop.Alike d) w m
      ((Eval.failAt t (.undefinedVariable t.lexeme) : Eval α) m)
      (Eval.failAt t' (.undefinedVariable t'.lexeme) m') := by
  refine throw ht (.failed ?_)
  have hname := h.name.1
  split_ifs at hname with hold
  · simp only [Bool.and_eq_true, beq_iff_eq] at hold
    rw [hname, hold.2]
    exact .undefined h.place
  · rw [hname]
    exact .fault h.place

theorem liftFault (ht : m.Twin d w m') {t t' : Token} (h : d.tokens t t')
    (r : Except RuntimeFault α) :
    Simulates d (Stop.Alike d) w m (liftFault t r m) (liftFault t' r m') := by
  cases r with
  | ok a => exact pure ht a
  | error f => exact failAt ht h f

/-- A change of both heaps that yields the same, and makes no frame. -/
theorem onHeap {f f' : Heap → α × Heap} (ht : m.Twin d w m')
    (hvalue : (f' m'.heap).1 = (f m.heap).1) (hgrow : m.heap.frames.Grow (f m.heap).2.frames)
    (hheap : (f m.heap).2.Twin d w (f' m'.heap).2) :
    Simulates d (Stop.Alike d) w m (onHeap f m) (onHeap f' m') := by
  rw [Eval.onHeap, Eval.onHeap]
  simp only [hvalue]
  exact .ok ⟨rfl, hgrow, fun _ _ => rfl⟩ { ht with heap := hheap }

theorem readVariable_eq (b : Bindings) (id : NodeId) (t : Token) (m : Machine) :
    Evaluation.readVariable b id t m =
      match (holder? b m id t.lexeme).bind (m.heap.frames.getHere? · t.lexeme) with
      | some v => .ok v m
      | none => Eval.failAt t (.undefinedVariable t.lexeme) m := rfl

/-- The search for a variable starts at the same frame and goes as far out. -/
theorem place_eq (ht : m.Twin d w m') {id id' : NodeId} (hid : d.labels id id') :
    place d.table' m' id' = place d.table m id := by
  rw [place, place, d.distance hid, ht.scope]

/-- What is found at the place of an occurrence is marked as the occurrence is. -/
theorem mark_of_place (ht : m.Twin d w m') (hc : Chain w m.heap.frames marks m.scope)
    (id : NodeId) {a : FrameId}
    (ha : m.heap.frames.ancestor? (place d.table m id).1 (place d.table m id).2 = some a) :
    w a = d.table.marked marks id := by
  rw [place] at ha
  rw [Bindings.marked]
  cases hd : d.table.distance? id with
  | some distance =>
    rw [hd] at ha
    exact hc.ancestor ht.heap.globalMark ht.heap.globalLast ha
  | none =>
    rw [hd] at ha
    obtain rfl := Option.some.inj ha
    exact ht.heap.globalMark

section

variable (ht : m.Twin d w m') (hc : Chain w m.heap.frames marks m.scope) {id id' : NodeId}
  (hid : d.labels id id') {t t' : Token} (h : t.Alike d (d.table.marked marks id) t')

include ht hc hid h

/-- Both names are found in the same frame. -/
theorem holder : holder? d.table' m' id' t'.lexeme = holder? d.table m id t.lexeme := by
  rw [holder?, holder?, place_eq ht hid]
  refine ht.heap.frames.holder fun a ha => ?_
  rw [mark_of_place ht hc id ha]
  exact h.name

theorem readVariable :
    Simulates d (Stop.Alike d) w m (readVariable d.table id t m)
      (readVariable d.table' id' t' m') := by
  have hholder := holder ht hc hid h
  rw [readVariable_eq, readVariable_eq, hholder]
  cases hfound : holder? d.table m id t.lexeme with
  | none => exact undefined ht h
  | some a =>
    have hancestor := (Frames.holder?_eq_some_iff.1 hfound).1
    have hhere : m'.heap.frames.getHere? a t'.lexeme = m.heap.frames.getHere? a t.lexeme := by
      refine ht.heap.frames.here ?_
      rw [mark_of_place ht hc id hancestor]
      exact h.name
    simp only [Option.bind_some, hhere]
    cases m.heap.frames.getHere? a t.lexeme with
    | none => exact undefined ht h
    | some v => exact pure ht v

theorem assignVariable (v : Value) :
    Simulates d (Stop.Alike d) w m (assignVariable d.table id t v m)
      (assignVariable d.table' id' t' v m') := by
  rw [Evaluation.assignVariable, Evaluation.assignVariable, holder ht hc hid h]
  cases hfound : holder? d.table m id t.lexeme with
  | none => exact undefined ht h
  | some a =>
    have hancestor := (Frames.holder?_eq_some_iff.1 hfound).1
    have hname : RenamedIf d.old d.new (w a) t.lexeme t'.lexeme := by
      rw [mark_of_place ht hc id hancestor]
      exact h.name
    exact onHeap ht rfl (Frames.grow_define _ _ _ _) (ht.heap.define hname v)

end

theorem defineVariable (ht : m.Twin d w m') {t t' : Token}
    (h : RenamedIf d.old d.new (w m.scope) t.lexeme t'.lexeme) (v : Value) :
    Simulates d (Stop.Alike d) w m (defineVariable t v m) (defineVariable t' v m') := by
  rw [Evaluation.defineVariable, Evaluation.defineVariable, ht.scope]
  exact onHeap ht rfl (Frames.grow_define _ _ _ _) (ht.heap.define h v)

theorem newFunction (ht : m.Twin d w m') {c c' : Closure}
    (hc : TwinClosure d w m.heap.frames [] c c') :
    Simulates d (Stop.Alike d) w m (newFunction c m) (newFunction c' m') :=
  onHeap ht (congrArg Value.functionRef ht.heap.functions.1) (.refl _) (ht.heap.addFunction hc)

theorem newClass (ht : m.Twin d w m') (hc : Chain w m.heap.frames marks m.scope)
    {name name' : Token} (hname : name'.lexeme = name.lexeme) {ms ms' : List (Function NodeId)}
    (h : Stmt.AlikeFunctions d (false :: marks) ms ms') :
    Simulates d (Stop.Alike d) w m (newClass name ms m.scope m) (newClass name' ms' m.scope m') :=
  onHeap ht (congrArg Value.classRef ht.heap.classes.1) (.refl _)
    (ht.heap.addClass ⟨hname, twin_methods hc h⟩)

theorem assignField (ht : m.Twin d w m') (i : InstanceId) {name name' : Token}
    (hname : name'.lexeme = name.lexeme) (v : Value) :
    Simulates d (Stop.Alike d) w m (assignField i name v m) (assignField i name' v m') := by
  rw [Evaluation.assignField, Evaluation.assignField, hname]
  exact onHeap ht rfl (.refl _) (ht.heap.setField i name.lexeme v)

theorem addInstance (ht : m.Twin d w m') (i : Instance) :
    Simulates d (Stop.Alike d) w m (Eval.onHeap (·.addInstance i) m)
      (Eval.onHeap (·.addInstance i) m') :=
  onHeap ht (congrArg Array.size ht.heap.instances) (.refl _) (ht.heap.addInstance i)

/-- Whatever goes on in two new frames goes on alike, if their variables correspond. -/
theorem newFrame (r r' : FrameId → EStateM ε Machine α) (ht : m.Twin d w m')
    {marked : Bool} {vars vars' : NameMap Value}
    (hvars : ∀ n n', RenamedIf d.old d.new marked n n' → vars'.get? n' = vars.get? n)
    {around : FrameId} (hc : Chain w m.heap.frames marks around)
    (hr : ∀ frame w₁ m₁ m₁', Later w w₁ m m₁ → m₁.Twin d w₁ m₁' →
      Chain w₁ m₁.heap.frames (marked :: marks) frame →
      Simulates d E w₁ m₁ (r frame m₁) (r' frame m₁')) :
    Simulates d E w m
      (r m.heap.frames.next { m with heap := (m.heap.addFrame ⟨vars, some around⟩).2 })
      (r' m'.heap.frames.next { m' with heap := (m'.heap.addFrame ⟨vars', some around⟩).2 }) := by
  have hmarks (id : FrameId) (hid : id < m.heap.frames.next) :
      w.mark m.heap.frames.next marked id = w id := if_neg (Nat.ne_of_lt hid)
  have hgrow := Frames.grow_push m.heap.frames ⟨vars, some around⟩
  have hlater : Later w (w.mark m.heap.frames.next marked) m
      { m with heap := (m.heap.addFrame ⟨vars, some around⟩).2 } := ⟨rfl, hgrow, hmarks⟩
  have hchain : Chain (w.mark m.heap.frames.next marked) (m.heap.frames.push ⟨vars, some around⟩)
      (marked :: marks) m.heap.frames.next :=
    ⟨if_pos rfl, around, (Frames.enclosing?_push _ _ _).trans (if_pos rfl), hc.grow hgrow hmarks⟩
  rw [ht.heap.frames.next]
  exact later hlater (hr _ _ _ _ hlater { ht with heap := ht.heap.addFrame hvars around } hchain)

/-- Two bound methods, whose frame is new, go on alike. -/
theorem bindMethod (ht : m.Twin d w m') {c c' : Closure}
    (hc : TwinClosure d w m.heap.frames [false] c c') (i : InstanceId)
    {f f' : Closure → Eval α}
    (hf : ∀ c c' w₁ m₁ m₁', m₁.Twin d w₁ m₁' →
      TwinClosure d w₁ m₁.heap.frames [] c c' →
      Simulates d (Stop.Alike d) w₁ m₁ (f c m₁) (f' c' m₁')) :
    Simulates d (Stop.Alike d) w m ((Eval.onHeap (·.bind c i) >>= f) m)
      ((Eval.onHeap (·.bind c' i) >>= f') m') := by
  obtain ⟨hheap, hbound⟩ := ht.heap.bind hc i
  have hlater : Later w (w.mark m.heap.frames.next false) m
      { m with heap := (m.heap.bind c i).2 } :=
    ⟨rfl, Frames.grow_push _ _, fun id hid => if_neg (Nat.ne_of_lt hid)⟩
  exact later hlater (hf _ _ _ _ _ { ht with heap := hheap } hbound)

theorem readProperty (ht : m.Twin d w m') (i : InstanceId) {name name' : Token}
    (hname : name.Alike d false name') :
    Simulates d (Stop.Alike d) w m (readProperty i name m) (readProperty i name' m') := by
  have hproperty := ht.heap.property? i name.lexeme
  change Simulates d _ w m
    ((Eval.orFail name (.undefinedProperty name.lexeme) (m.heap.property? i name.lexeme) >>= _) m)
    ((Eval.orFail name' (.undefinedProperty name'.lexeme) (m'.heap.property? i name'.lexeme) >>= _)
      m')
  rw [hname.lexeme]
  generalize m.heap.property? i name.lexeme = p?, m'.heap.property? i name.lexeme = p'? at hproperty
  cases hproperty with
  | none => exact failAt ht hname.place _
  | @some p p' hp =>
    cases p with
    | field v =>
      cases p' with
      | field v' =>
        obtain rfl := hp
        exact pure ht _
      | method c' => exact False.elim hp
    | method c =>
      cases p' with
      | field v' => exact False.elim hp
      | method c' => exact bindMethod ht hp i fun _ _ _ _ _ ht hc => newFunction ht hc

/-! ### Calls -/

theorem checkArity (ht : m.Twin d w m') {paren paren' : Token} (h : d.tokens paren paren')
    (expected got : Nat) :
    Simulates d (Stop.Alike d) w m (checkArity paren expected got m)
      (checkArity paren' expected got m') := ite (pure ht ()) (failAt ht h _)

theorem checkDepth (ht : m.Twin d w m') {paren paren' : Token} (h : d.tokens paren paren') :
    Simulates d (Stop.Alike d) w m (checkDepth paren m) (checkDepth paren' m') := by
  change Simulates d _ w m
    ((if maxCallDepth ≤ m.depth then Eval.failAt paren .tooManyCalls else Pure.pure ()) m)
    ((if maxCallDepth ≤ m'.depth then Eval.failAt paren' .tooManyCalls else Pure.pure ()) m')
  rw [ht.depth]
  exact ite (failAt ht h _) (pure ht ())

theorem callNative (ht : m.Twin d w m') (n : Native) :
    Simulates d (Stop.Alike d) w m (callNative n m) (callNative n m') := by
  cases n
  change Simulates d _ w m
    (.ok (Value.number (m.clock.reading m.clock.ticks))
      { m with clock := { m.clock with ticks := m.clock.ticks + 1 } })
    (.ok (Value.number (m'.clock.reading m'.clock.ticks))
      { m' with clock := { m'.clock with ticks := m'.clock.ticks + 1 } })
  rw [ht.clock]
  exact .ok ⟨rfl, .refl _, fun _ _ => rfl⟩ { ht with clock := rfl }

/-- The instance of an initializer is found under `this`, which is neither name. -/
theorem callResult (ht : m.Twin d w m') {w₀ : World} {fs : Frames} {inner : List Bool} {c c' : Closure}
    (hc : TwinClosure d w₀ fs inner c c') (returned? : Option Value) :
    Simulates d (Stop.Alike d) w m (callResult c returned? m)
      (callResult c' returned? m') := by
  obtain ⟨hframe, hinit, -⟩ := hc
  have hthis := ht.heap.frames.here (.other d.old_ne_this.symm d.new_ne_this.symm (w c.frame))
  rw [Evaluation.callResult, Evaluation.callResult, hinit]
  refine ite ?_ (pure ht _)
  change Simulates d _ w m
    (.ok ((m.heap.frames.getHere? c.frame thisName).getD .nil) m)
    (.ok ((m'.heap.frames.getHere? c'.frame thisName).getD .nil) m')
  rw [hframe, hthis]
  exact .ok (.refl w m) ht

theorem printLine (ht : m.Twin d w m') (text : String) :
    Simulates d (Stop.Alike d) w m (printLine text m) (printLine text m') := by
  rw [Eval.printLine, Eval.printLine, ht.sink]
  have ht' : Machine.Twin d w
      { m with sink := m.sink.write (text.push '\n').toUTF8 }
      { m' with sink := m.sink.write (text.push '\n').toUTF8 } := { ht with sink := rfl }
  split_ifs
  · exact .ok ⟨rfl, .refl _, fun _ _ => rfl⟩ ht'
  · exact .error (.failed .sinkFull) ⟨rfl, .refl _, fun _ _ => rfl⟩ ht'

end Simulates

end

end LoxLang
