import LoxLang.Proofs.Scope.Placed

/-!
# Heaps that grow

`Heap.Grow h h'` says that what is in the heap `h` is still there in `h'`: functions, instances and the
methods of classes, the frames with what lies around them, and the value of `this` in every frame that
has one.  A run of proper trees lets the heap grow, since it never defines or assigns a variable
called `this` (`Placed.grow_after`).
-/

namespace LoxLang

open Scoping Evaluation

/-- All functions, methods, frames and instances are still there; instances have the same class, and
frames that have `this` the same value for it. -/
structure Heap.Grow (h h' : Heap) : Prop where
  frames : h.frames.Grow h'.frames
  this : ∀ {frame v}, h.frames.getHere? frame thisName = some v →
    h'.frames.getHere? frame thisName = some v
  functions : ∀ {id : FunctionId} {c : Closure}, h.functions[id]? = some c →
    h'.functions[id]? = some c
  methods : ∀ {id name c}, h.method? id name = some c → h'.method? id name = some c
  instances : ∀ {i : InstanceId} {o : Instance}, h.instances[i]? = some o →
    ∃ o', h'.instances[i]? = some o' ∧ o'.classId = o.classId

namespace Heap

theorem getElem?_push_of_some {α : Type} {as : Array α} {id : Nat} {a : α} (h : as[id]? = some a)
    (b : α) : (as.push b)[id]? = some a := by
  rw [Array.getElem?_push_lt (Array.getElem?_eq_some_iff.1 h).1]
  exact congrArg some (Array.getElem?_eq_some_iff.1 h).2

theorem Grow.refl (h : Heap) : h.Grow h := ⟨.refl _, id, id, id, fun ho => ⟨_, ho, rfl⟩⟩

theorem Grow.trans {h h' h'' : Heap} (hg : h.Grow h') (hg' : h'.Grow h'') : h.Grow h'' where
  frames := hg.frames.trans hg'.frames
  this hv := hg'.this (hg.this hv)
  functions hc := hg'.functions (hg.functions hc)
  methods hc := hg'.methods (hg.methods hc)
  instances ho := by
    obtain ⟨o', ho', hclass⟩ := hg.instances ho
    obtain ⟨o'', ho'', hclass'⟩ := hg'.instances ho'
    exact ⟨o'', ho'', hclass'.trans hclass⟩

/-- A frame is as many steps out as it was. -/
theorem Grow.ancestor {h h' : Heap} (hg : h.Grow h') {frame a : FrameId} {distance : Nat}
    (ha : h.frames.ancestor? frame distance = some a) :
    h'.frames.ancestor? frame distance = some a := by
  induction distance generalizing frame with
  | zero => exact ha
  | succ distance ih =>
    obtain ⟨around, haround, ha⟩ := Option.bind_eq_some_iff.1 ha
    rw [Frames.ancestor?, hg.frames.enclosing haround]
    exact ih ha

/-! ### Single changes -/

variable (h : Heap)

theorem grow_addFrame (f : Frame) : h.Grow (h.addFrame f).2 where
  frames := Frames.grow_push _ f
  this hv := by
    have hlt := Frames.lt_of_has (Frames.has_iff.2 ⟨_, hv⟩)
    exact (Frames.getHere?_push _ _ _ _).trans ((if_neg (Nat.ne_of_lt hlt)).trans hv)
  functions := id
  methods := id
  instances ho := ⟨_, ho, rfl⟩

theorem grow_addFunction (c : Closure) : h.Grow (h.addFunction c).2 where
  frames := .refl _
  this := id
  functions hc := getElem?_push_of_some hc c
  methods := id
  instances ho := ⟨_, ho, rfl⟩

theorem grow_addClass (c : Class) : h.Grow (h.addClass c).2 where
  frames := .refl _
  this := id
  functions := id
  methods hc := by
    obtain ⟨cls, hcls, hc⟩ := Option.bind_eq_some_iff.1 hc
    exact Option.bind_eq_some_iff.2 ⟨cls, getElem?_push_of_some hcls c, hc⟩
  instances ho := ⟨_, ho, rfl⟩

theorem grow_addInstance (i : Instance) : h.Grow (h.addInstance i).2 where
  frames := .refl _
  this := id
  functions := id
  methods := id
  instances ho := ⟨_, getElem?_push_of_some ho i, rfl⟩

/-- A variable gets a value, which is not `this`. -/
theorem grow_define (frame : FrameId) {name : String} (hname : name ≠ thisName) (v : Value) :
    h.Grow (h.define frame name v) where
  frames := Frames.grow_define _ frame name v
  this hv := (Frames.getHere?_define _ _ _ _ _ _).trans
    ((if_neg fun hd => hname hd.2.1.symm).trans hv)
  functions := id
  methods := id
  instances ho := ⟨_, ho, rfl⟩

theorem grow_setField (i : InstanceId) (name : String) (v : Value) :
    h.Grow (h.setField i name v) where
  frames := .refl _
  this := id
  functions := id
  methods := id
  instances {j o} ho := by
    refine ⟨if i = j then { o with fields := o.fields.insert name v } else o, ?_, ?_⟩
    · simp only [setField, Array.getElem?_modify, ho, Option.map_some]
      split_ifs <;> rfl
    · split_ifs <;> rfl

theorem grow_bind (method : Closure) (i : InstanceId) : h.Grow (h.bind method i).2 :=
  h.grow_addFrame _

end Heap

/-! ### Runs -/

/-- The variable to which a task itself gives a value. -/
def Evaluation.Task.named? : Task → Option Token
  | .exec s => s.declared?
  | .eval (.assign _ name _) => some name
  | _ => none

section

variable {visited : Visit → Prop} {b : Bindings} {v : Visit} {t t' : Task} {m m' : Machine}

/-- A placed task gives no variable called `this` a value. -/
theorem Placed.ne_this (hclosed : VisitsClosed visited) (hp : Placed visited v t m) {name : Token}
    (hname : t.named? = some name) : name.lexeme ≠ thisName := by
  obtain ⟨code, ctx, scopes⟩ := v
  have hproper := hclosed.proper hp.mem
  cases t with
  | exec s =>
    obtain ⟨rfl, -⟩ := hp.fits
    cases s with
    | var | classDecl => obtain rfl := Option.some.inj hname; exact hproper.1
    | function decl => obtain ⟨label, n, params, body⟩ := decl; cases hname; exact hproper.1
    | _ => cases hname
  | eval e =>
    obtain ⟨rfl, -⟩ := hp.fits
    cases e with
    | assign => obtain rfl := Option.some.inj hname; exact hproper.1
    | _ => cases hname
  | _ => cases hname

/-- Placed tasks let every heap grow on from which the run has come. -/
theorem grow_invariant (hclosed : VisitsClosed visited) (b : Bindings) (h₀ : Heap) :
    PlacedInvariant visited b (fun _ m => h₀.Grow m.heap) h₀.Grow where
  heap hgrow := hgrow
  part _ _ _ hgrow := hgrow
  addFrame _ hgrow _ := hgrow.trans (Heap.grow_addFrame _ _)
  addFunction c hgrow := hgrow.trans (Heap.grow_addFunction _ c)
  addClass c hgrow := hgrow.trans (Heap.grow_addClass _ c)
  addInstance i hgrow := hgrow.trans (Heap.grow_addInstance _ i)
  setField i name x hgrow := hgrow.trans (Heap.grow_setField _ i name x)
  declare x hp _ hname hgrow := hgrow.trans (Heap.grow_define _ _ (hp.ne_this hclosed hname) x)
  assign x hp hgrow _ := hgrow.trans (Heap.grow_define _ _ (hp.ne_this hclosed rfl) x)

/-- However a placed task ends, the heap has grown. -/
theorem Placed.grow_after (hclosed : VisitsClosed visited) (hp : Placed visited v t m) (fuel : Nat) :
    m.heap.Grow (t.after b fuel m).heap :=
  (((grow_invariant hclosed b m.heap).invariant hclosed).after ⟨⟨v, hp⟩, .refl _⟩ fuel).2

/-- When a placed task starts a part of it, the heap has grown. -/
theorem Placed.grow_starts (hclosed : VisitsClosed visited) (hp : Placed visited v t m) {step : Step}
    (hstarts : Starts b t m step t' m') : m.heap.Grow m'.heap :=
  (((grow_invariant hclosed b m.heap).invariant hclosed).heap_of_starts ⟨⟨v, hp⟩, .refl _⟩ hstarts).2

end

end LoxLang
