import Mathlib
import LoxLang.Proofs.This.Growth
import LoxLang.Proofs.This.Methods

/-!
# Where functions and frames come from

A `History` is a set of moments of runs.  With respect to a history, a function value was made either
when a method was looked up on an instance (`History.LooksUp`) or by a declaration
(`History.Declares`); and a frame in which a method runs was made when the method, bound to an
instance before, was called (`History.RunsOn`).  Each of these says which moment it was, and that the
heap has grown from what the moment left.
-/

namespace LoxLang

open Scoping Evaluation

/-- Moments of runs: a task starts on a machine, where the names are bound by a table. -/
abbrev History := Bindings → Task → Machine → Prop

/-- The task binds a method to an instance, on the given heap: it has looked the method up on the
instance, or it calls the class of a new instance, of which the method is the initializer. -/
inductive Evaluation.Binds (b : Bindings) (i : InstanceId) (method : Closure) :
    Task → Machine → Heap → Prop where
  | lookedUp {object name m m'} :
    Returns (eval b · object) m (.instanceRef i) m' →
    m'.heap.property? i name.lexeme = some (.method method) →
    Binds b i method (.eval (.get object name)) m m'.heap
  | constructed {id paren args m m'} :
    m.heap.method? id initializerName = some method → method.decl.arity = args.length →
    Eval.onHeap (·.addInstance ⟨id, ∅⟩) m = .ok i m' →
    Binds b i method (.dispatch (.classRef id) paren args) m m'.heap

namespace History

variable (H : History)

/-- With every task the history has the parts that the task starts. -/
def Closed : Prop :=
  ∀ ⦃b t m step t' m'⦄, H b t m → Starts b t m step t' m' → H b t' m'

/-- The closure is a method that was bound to the instance at some moment. -/
def Bound (i : InstanceId) (c : Closure) (h : Heap) : Prop :=
  ∃ b t m method h₀, H b t m ∧ Binds b i method t m h₀ ∧ c = (h₀.bind method i).1 ∧
    (h₀.bind method i).2.Grow h

/-- The frame was made when the closure was called at some moment. -/
def Runs (c : Closure) (frame : FrameId) (h : Heap) : Prop :=
  ∃ b args m, H b (.apply c args) m ∧ frame = m.heap.frames.next ∧
    (m.heap.addFrame ⟨parameterVars c.decl args, some c.frame⟩).2.Grow h

/-- A call of the visited method runs in the frame; the method was bound to the instance. -/
def RunsOn (w : Visit) (i : InstanceId) (frame : FrameId) (h : Heap) : Prop :=
  ∃ c, w.code = .function (methodKind c.decl) c.decl ∧ H.Bound i c h ∧ H.Runs c frame h

/-- The function was made when a method of this name was looked up on the instance. -/
def LooksUp (i : InstanceId) (name : String) (id : FunctionId) (c : Closure) (h : Heap) : Prop :=
  ∃ b object token m m' method, H b (.eval (.get object token)) m ∧ token.lexeme = name ∧
    Returns (eval b · object) m (.instanceRef i) m' ∧
    m'.heap.property? i name = some (.method method) ∧
    c = (m'.heap.bind method i).1 ∧ id = m'.heap.functions.size ∧
    ((m'.heap.bind method i).2.addFunction c).2.Grow h

/-- The function was made by a declaration of its own, whatever its name, and not as a method. -/
def Declares (id : FunctionId) (c : Closure) (h : Heap) : Prop :=
  ∃ b decl m, H b (.exec (.function decl)) m ∧ c = ⟨decl, m.scope, false⟩ ∧
    id = m.heap.functions.size ∧ (m.heap.addFunction c).2.Grow h

/-- It is known how the function was made. -/
def Makes (id : FunctionId) (c : Closure) (h : Heap) : Prop :=
  (∃ i name, H.LooksUp i name id c h) ∨ H.Declares id c h

variable {H} {H' : History} {i : InstanceId} {c : Closure} {frame : FrameId} {w : Visit}
  {name : String} {id : FunctionId} {h h' : Heap}

theorem Closed.sup (hH : H.Closed) (hH' : H'.Closed) : (H ⊔ H').Closed := by
  rintro b t m step t' m' (hmoment | hmoment) hstarts
  · exact .inl (hH hmoment hstarts)
  · exact .inr (hH' hmoment hstarts)

/-! ### More moments, and a heap that has grown -/

theorem Bound.mono (hb : H.Bound i c h) (hH : H ≤ H') (hg : h.Grow h') : H'.Bound i c h' := by
  obtain ⟨b, t, m, method, h₀, hmoment, hbinds, hc, hgrow⟩ := hb
  exact ⟨b, t, m, method, h₀, hH _ _ _ hmoment, hbinds, hc, hgrow.trans hg⟩

theorem Runs.mono (hr : H.Runs c frame h) (hH : H ≤ H') (hg : h.Grow h') : H'.Runs c frame h' := by
  obtain ⟨b, args, m, hmoment, hframe, hgrow⟩ := hr
  exact ⟨b, args, m, hH _ _ _ hmoment, hframe, hgrow.trans hg⟩

theorem RunsOn.mono (hr : H.RunsOn w i frame h) (hH : H ≤ H') (hg : h.Grow h') :
    H'.RunsOn w i frame h' := by
  obtain ⟨c, hcode, hbound, hruns⟩ := hr
  exact ⟨c, hcode, hbound.mono hH hg, hruns.mono hH hg⟩

theorem LooksUp.mono (hl : H.LooksUp i name id c h) (hH : H ≤ H') (hg : h.Grow h') :
    H'.LooksUp i name id c h' := by
  obtain ⟨b, object, token, m, m', method, hmoment, hname, ho, hproperty, hc, hid, hgrow⟩ := hl
  exact ⟨b, object, token, m, m', method, hH _ _ _ hmoment, hname, ho, hproperty, hc, hid,
    hgrow.trans hg⟩

theorem Declares.mono (hd : H.Declares id c h) (hH : H ≤ H') (hg : h.Grow h') :
    H'.Declares id c h' := by
  obtain ⟨b, decl, m, hmoment, hc, hid, hgrow⟩ := hd
  exact ⟨b, decl, m, hH _ _ _ hmoment, hc, hid, hgrow.trans hg⟩

theorem Makes.mono (hm : H.Makes id c h) (hH : H ≤ H') (hg : h.Grow h') : H'.Makes id c h' :=
  hm.imp (fun ⟨i, name, hl⟩ => ⟨i, name, hl.mono hH hg⟩) fun hd => hd.mono hH hg

/-! ### What is known of them -/

variable (H) in
/-- When a method has been looked up, the function made is known as this. -/
theorem looksUp_of_get {b : Bindings} {object : Expr NodeId} {token : Token} {m m' : Machine}
    {method : Closure} (hmoment : H b (.eval (.get object token)) m)
    (ho : Returns (eval b · object) m (.instanceRef i) m')
    (hproperty : m'.heap.property? i token.lexeme = some (.method method)) :
    H.LooksUp i token.lexeme m'.heap.functions.size (m'.heap.bind method i).1
      ((m'.heap.bind method i).2.addFunction (m'.heap.bind method i).1).2 :=
  ⟨b, object, token, m, m', method, hmoment, rfl, ho, hproperty, rfl, rfl, .refl _⟩

theorem LooksUp.bound (hl : H.LooksUp i name id c h) : H.Bound i c h := by
  obtain ⟨b, object, token, m, m', method, hmoment, rfl, ho, hproperty, hc, -, hgrow⟩ := hl
  exact ⟨b, _, m, method, m'.heap, hmoment, .lookedUp ho hproperty, hc,
    (Heap.grow_addFunction _ c).trans hgrow⟩

/-- A bound method finds its instance in its frame. -/
theorem Bound.this (hb : H.Bound i c h) :
    h.frames.getHere? c.frame thisName = some (.instanceRef i) := by
  obtain ⟨b, t, m, method, h₀, -, -, rfl, hgrow⟩ := hb
  refine hgrow.this ?_
  change (h₀.frames.push _).getHere? h₀.frames.next thisName = _
  rw [Frames.getHere?_push, if_pos rfl, NameMap.get?_insert_self]

/-- Around the frame of a call lies that of the closure. -/
theorem Runs.enclosing (hr : H.Runs c frame h) : h.frames.enclosing? frame = some c.frame := by
  obtain ⟨b, args, m, -, rfl, hgrow⟩ := hr
  refine hgrow.frames.enclosing ?_
  change (m.heap.frames.push _).enclosing? m.heap.frames.next = _
  rw [Frames.enclosing?_push, if_pos rfl]

theorem LooksUp.functions (hl : H.LooksUp i name id c h) : h.functions[id]? = some c := by
  obtain ⟨b, object, token, m, m', method, -, -, -, -, -, rfl, hgrow⟩ := hl
  exact hgrow.functions Array.getElem?_push_size

theorem Declares.functions (hd : H.Declares id c h) : h.functions[id]? = some c := by
  obtain ⟨b, decl, m, -, -, rfl, hgrow⟩ := hd
  exact hgrow.functions Array.getElem?_push_size

/-- What was looked up is a method of that name. -/
theorem LooksUp.method (hl : H.LooksUp i name id c h) :
    ∃ k method, h.method? k name = some method ∧ c.decl = method.decl ∧
      c.isInitializer = method.isInitializer := by
  obtain ⟨b, object, token, m, m', method, -, -, -, hproperty, rfl, -, hgrow⟩ := hl
  obtain ⟨o, -, hmethod⟩ := method?_of_property? hproperty
  exact ⟨o.classId, method, hgrow.methods hmethod, rfl, rfl⟩

theorem Declares.isInitializer (hd : H.Declares id c h) : c.isInitializer = false := by
  obtain ⟨b, decl, m, -, rfl, -, -⟩ := hd
  rfl

/-- One step out from the frame in which a method runs, `this` is the instance. -/
theorem RunsOn.getAt (hr : H.RunsOn w i frame h) {inner : FrameId} {n : Nat}
    (hinner : h.frames.ancestor? inner n = some frame) :
    h.frames.getAt? inner (n + 1) thisName = some (.instanceRef i) := by
  obtain ⟨c, -, hbound, hruns⟩ := hr
  have hancestor : h.frames.ancestor? inner (n + 1) = some c.frame := by
    rw [Frames.ancestor?_add, hinner, Option.bind_some, Frames.ancestor?, hruns.enclosing]
    rfl
  have hthis := hbound.this
  rw [Frames.getAt?, Frames.holder?_eq_some_iff.2 ⟨hancestor, Frames.has_iff.2 ⟨_, hthis⟩⟩]
  exact hthis

/-- The instance to which a method is bound is there. -/
theorem Bound.exists_instance (hb : H.Bound i c h) : ∃ o, h.instances[i]? = some o := by
  obtain ⟨b, t, m, method, h₀, -, hbinds, -, hgrow⟩ := hb
  obtain ⟨o, ho⟩ : ∃ o, h₀.instances[i]? = some o := by
    cases hbinds with
    | lookedUp _ hproperty =>
      obtain ⟨o, ho, -⟩ := Option.bind_eq_some_iff.1 hproperty
      exact ⟨o, ho⟩
    | constructed _ _ hi =>
      cases hi
      exact ⟨_, Array.getElem?_push_size⟩
  obtain ⟨o', ho', -⟩ := hgrow.instances (show (h₀.bind method i).2.instances[i]? = some o from ho)
  exact ⟨o', ho'⟩

theorem RunsOn.exists_instance (hr : H.RunsOn w i frame h) : ∃ o, h.instances[i]? = some o := by
  obtain ⟨c, -, hbound, -⟩ := hr
  exact hbound.exists_instance

end History

end LoxLang
