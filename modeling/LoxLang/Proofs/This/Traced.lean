import LoxLang.Proofs.Run.Discipline
import LoxLang.Proofs.This.History

/-!
# Frames and functions whose origin is known

A visit inside of a class is `Housed` in a frame if around the frame, as far out as the scope check
says, runs a call of the method in which the visit lies.  With respect to the history of a run, every
function on the heap is `Anchored`: it is a method that was bound to an instance, or it was declared
in a frame in which its declaration is housed.

Each step of a run keeps to this (`Sits.starts`), so it holds all along (`traced_invariant`).
-/

namespace LoxLang

open Scoping Evaluation

section

variable (H : History) (visited : Visit → Prop)

/-- If the visit lies inside of a class, then it lies inside of a method of the class, and a call of
this method runs in one of the frames around: the one inside of the frame that has `this`. -/
def Housed (v : Visit) (h : Heap) (frame : FrameId) : Prop :=
  v.ctx.inClass = true → ∃ cls w i g n, visited cls ∧ w.IsMethodOf cls ∧ w.Inside v ∧
    H.RunsOn w i g h ∧ distance? v.scopes thisName = some (n + 1) ∧
    h.frames.ancestor? frame n = some g

/-- The closure is a bound method, or a function whose declaration is housed in its frame. -/
def Anchored (c : Closure) (h : Heap) : Prop :=
  ∃ u kind, visited u ∧ u.code = .function kind c.decl ∧
    ((∃ cls i, visited cls ∧ u.IsMethodOf cls ∧ H.Bound i c h) ∨ Housed H visited u h c.frame)

/-- The declaration was visited as that of a method. -/
def VisitedMethod (decl : Function NodeId) : Prop :=
  ∃ cls w : Visit, visited cls ∧ w.IsMethodOf cls ∧ w.code = .function (methodKind decl) decl

/-- It is known of every function how it was made; and every method of a class was visited as such,
and is an initializer if it is called `init`. -/
structure Traced (h : Heap) : Prop where
  functions : ∀ {id : FunctionId} {c : Closure}, h.functions[id]? = some c →
    Anchored H visited c h ∧ H.Makes id c h
  methods : ∀ {id : ClassId} {name : String} {c : Closure}, h.method? id name = some c →
    (c.isInitializer = true ↔ name = initializerName) ∧ VisitedMethod visited c.decl

/-- The part that is about to run is housed in the frame in which it runs. -/
def Sits (v : Visit) : Task → Machine → Prop
  | .eval _, m | .evalEach _, m | .exec _, m | .loop _ _, m | .execEach _, m =>
    Housed H visited v m.heap m.scope
  | .execBlock frame _, m => ∀ u ∈ v.parts, Housed H visited u m.heap frame
  | .apply c _, m => Anchored H visited c m.heap
  | .call _ _ _, _ | .dispatch _ _ _, _ => True

end

section

variable {H H' : History} {visited visited' : Visit → Prop} {h h' : Heap} {frame frame' : FrameId}
  {c : Closure} {v u w : Visit}

/-! ### More moments, and a heap that has grown -/

theorem Housed.mono (hh : Housed H visited v h frame) (hH : H ≤ H')
    (hvisited : ∀ v, visited v → visited' v) (hg : h.Grow h') : Housed H' visited' v h' frame := by
  intro hin
  obtain ⟨cls, w, i, g, n, hcls, hw, hinside, hruns, hdistance, hancestor⟩ := hh hin
  exact ⟨cls, w, i, g, n, hvisited _ hcls, hw, hinside, hruns.mono hH hg, hdistance,
    hg.ancestor hancestor⟩

theorem Anchored.mono (hc : Anchored H visited c h) (hH : H ≤ H')
    (hvisited : ∀ v, visited v → visited' v) (hg : h.Grow h') : Anchored H' visited' c h' := by
  obtain ⟨u, kind, hu, hcode, ⟨cls, i, hcls, hmethod, hbound⟩ | hhoused⟩ := hc
  · exact ⟨u, kind, hvisited _ hu, hcode, .inl ⟨cls, i, hvisited _ hcls, hmethod, hbound.mono hH hg⟩⟩
  · exact ⟨u, kind, hvisited _ hu, hcode, .inr (hhoused.mono hH hvisited hg)⟩

theorem Traced.function (ht : Traced H visited h) {id : FunctionId} (hc : h.functions[id]? = some c)
    (hH : H ≤ H') (hvisited : ∀ v, visited v → visited' v) (hg : h.Grow h') :
    Anchored H' visited' c h' ∧ H'.Makes id c h' :=
  ⟨(ht.functions hc).1.mono hH hvisited hg, (ht.functions hc).2.mono hH hg⟩

/-- The heap may have grown, if no functions or methods are new. -/
theorem Traced.mono (ht : Traced H visited h) (hH : H ≤ H')
    (hvisited : ∀ v, visited v → visited' v) (hg : h.Grow h')
    (hfunctions : h'.functions = h.functions) (hclasses : h'.classes = h.classes) :
    Traced H' visited' h' where
  functions hc := ht.function (hfunctions ▸ hc) hH hvisited hg
  methods hc := by
    rw [Heap.method?, hclasses] at hc
    obtain ⟨hinit, cls, u, hcls, hu⟩ := ht.methods hc
    exact ⟨hinit, cls, u, hvisited _ hcls, hu⟩

theorem Traced.grow (ht : Traced H visited h) (hg : h.Grow h')
    (hfunctions : h'.functions = h.functions) (hclasses : h'.classes = h.classes) :
    Traced H visited h' := ht.mono le_rfl (fun _ => id) hg hfunctions hclasses

theorem Traced.addFunction (ht : Traced H visited h)
    (hc : Anchored H visited c (h.addFunction c).2)
    (hmakes : H.Makes h.functions.size c (h.addFunction c).2) :
    Traced H visited (h.addFunction c).2 where
  functions {id c'} hc' := by
    simp only [Heap.addFunction, Array.getElem?_push] at hc'
    split at hc'
    · next hid =>
      obtain rfl := Option.some.inj hc'
      exact ⟨hc, hid ▸ hmakes⟩
    · exact ht.function hc' le_rfl (fun _ hv => hv) (h.grow_addFunction c)
  methods := ht.methods

theorem Traced.addClass (ht : Traced H visited h) {cls : Class}
    (hcls : ∀ name c, cls.methods.get? name = some c →
      (c.isInitializer = true ↔ name = initializerName) ∧ VisitedMethod visited c.decl) :
    Traced H visited (h.addClass cls).2 where
  functions hc := ht.function hc le_rfl (fun _ hv => hv) (h.grow_addClass cls)
  methods hc := (method?_addClass hc).elim (hcls _ _) ht.methods

/-- A bound method is anchored. -/
theorem Traced.anchored (hclosed : VisitsClosed visited) (ht : Traced H visited h) {id : ClassId}
    {name : String} {method : Closure} (hmethod : h.method? id name = some method) {i : InstanceId}
    (hdecl : c.decl = method.decl) (hbound : H.Bound i c h') : Anchored H visited c h' := by
  obtain ⟨-, cls, u, hcls, ⟨n, ms, d, hcode, hd, rfl⟩, hu⟩ := ht.methods hmethod
  have hclass : visited ⟨.methods ms, ⟨cls.ctx.body, true⟩,
      thisScope :: (Pass.introduce n cls.scopes).1⟩ := by
    obtain ⟨code, ctx, scopes⟩ := cls
    obtain rfl := hcode
    exact hclosed.part hcls List.mem_cons_self
  exact ⟨_, _, Visit.method_of_methods hclosed.part hclass hd, hdecl ▸ hu,
    .inl ⟨cls, i, hcls, ⟨n, ms, d, hcode, hd, rfl⟩, hbound⟩⟩

/-! ### Steps -/

/-- Going into a part that is not a class, the scope check and the run go equally far in. -/
theorem Housed.mem (hclosed : VisitsClosed visited) (hh : Housed H visited v h frame)
    (hv : visited v) (hclass : v.code.isClass = false) (hu : u ∈ v.parts) (hg : h.Grow h')
    (hout : h'.frames.ancestor? frame' v.code.opens = some frame) :
    Housed H visited u h' frame' := by
  intro hin
  rw [Visit.inClass_of_mem hclass hu] at hin
  obtain ⟨cls, w, i, g, n, hcls, hw, hinside, hruns, hdistance, hancestor⟩ := hh hin
  refine ⟨cls, w, i, g, v.code.opens + n, hcls, hw, .part hinside hclass hu, hruns.mono le_rfl hg,
    ?_, ?_⟩
  · rw [Visit.distance?_of_mem (hclosed.proper hv) hclass hu, hdistance, Option.map_some]
    exact congrArg some (by omega)
  · rw [Frames.ancestor?_add, hout]
    exact hg.ancestor hancestor

variable {b : Bindings} {m m' : Machine} {t t' : Task}

/-- The frame of a block. -/
theorem Housed.block (hclosed : VisitsClosed visited) (hh : Housed H visited v h frame)
    (hv : visited v) {code : Code} (hcode : v.code = code) (hclass : code.isClass = false)
    (hopens : code.opens = 1) (hu : u ∈ v.parts) (vars : NameMap Value) :
    Housed H visited u (h.addFrame ⟨vars, some frame⟩).2 h.frames.next := by
  subst hcode
  refine hh.mem hclosed hv hclass hu (h.grow_addFrame _) ?_
  rw [hopens]
  change ((h.frames.push _).enclosing? h.frames.next).bind _ = _
  rw [Frames.enclosing?_push, if_pos rfl]
  rfl

/-- Whatever runs was placed by the scope check, sits in its frame, and is a moment of the history. -/
structure Located (H : History) (visited : Visit → Prop) (b : Bindings) (t : Task) (m : Machine) :
    Prop where
  moment : H b t m
  traced : Traced H visited m.heap
  sits : ∃ v, Placed visited v t m ∧ Sits H visited v t m

section

variable (hclosed : VisitsClosed visited)
  (hunique : ∀ w w', visited w → visited w' → ∀ id, id ∈ w.code.own → id ∈ w'.code.own → w = w')

include hclosed hunique

/-- The body of a function sits where the function is anchored. -/
theorem Anchored.body {args : List Value} (hc : Anchored H visited c m.heap)
    (hmoment : H b (.apply c args) m) (hw : visited w) {kind : Body} {decl : Function NodeId}
    (hcode : w.code = .function kind decl) (hlabel : decl.label = c.decl.label) (hu : u ∈ w.parts) :
    Housed H visited u (m.heap.addFrame ⟨parameterVars c.decl args, some c.frame⟩).2
      m.heap.frames.next := by
  obtain ⟨w', kind', hw', hcode', horigin⟩ := hc
  obtain rfl := hunique w w' hw hw' c.decl.label (by simp [hcode, Code.own, hlabel])
    (by simp [hcode', Code.own])
  rcases horigin with ⟨cls, i, hcls, hmethod, hbound⟩ | hhoused
  · intro _
    have hkind : w.code = .function (methodKind c.decl) c.decl := by
      obtain ⟨name, methods, d, -, -, rfl⟩ := hmethod
      cases hcode'
      rfl
    have hdistance : distance? u.scopes thisName = some (0 + 1) := by
      rw [Visit.distance?_of_mem (hclosed.proper hw) (by rw [hcode]; rfl) hu, hmethod.distance?,
        hcode]
      rfl
    have hgrow := m.heap.grow_addFrame ⟨parameterVars c.decl args, some c.frame⟩
    exact ⟨cls, w, i, m.heap.frames.next, 0, hcls, hmethod, .body hu,
      ⟨c, hkind, hbound.mono le_rfl hgrow, b, args, m, hmoment, rfl, .refl _⟩, hdistance, rfl⟩
  · exact hhoused.block hclosed hw' hcode' rfl rfl hu _

/-- Each step of a run from a part that sits in its frame leads to one that does. -/
theorem Sits.starts (hp : Placed visited v t m) (hs : Sits H visited v t m)
    (ht : Traced H visited m.heap) (hmoment : H b t m) {step : Step} (hstarts : Starts b t m step t' m')
    (hleads : Leads visited v step w) : Sits H visited w t' m' := by
  have hgrow := hp.grow_starts hclosed hstarts
  have hscope := hstarts.scope
  -- most steps lead to a part that runs in the same frame
  have hpart {code : Code} {i : Nat} (hcode : v.code = code) (hclass : code.isClass = false)
      (hopens : code.opens = 0) (hw : v.parts[i]? = some w)
      (hh : Housed H visited v m.heap m.scope) (hm' : m'.scope = m.scope) :
      Housed H visited w m'.heap m'.scope := by
    subst hcode
    refine hh.mem hclosed hp.mem hclass (List.mem_of_getElem? hw) hgrow ?_
    rw [hopens, hm']
    rfl
  cases hstarts with
  | group | unary | binaryLeft | logicalLeft | assigned | callee | object | first | expression
    | printed | condition | elseCondition | returned | firstStatement | binaryRight | logicalRight
    | arguments | setObject | setValue | others | varInitializer | branch | thenBranch | elseBranch
    | loopCondition | loopBody | otherStatements =>
    exact hpart hp.fits.1 rfl rfl hleads hs (hscope nofun)
  | called | entered => trivial
  | whileLoop | again =>
    obtain rfl := hleads
    have hh := hs.mono le_rfl (fun _ => id) hgrow
    rwa [← hscope nofun] at hh
  | function hc => exact (ht.functions hc).1
  | initializer hc harity hi hbound =>
    cases hi
    cases hbound
    exact ht.anchored hclosed hc rfl
      ⟨b, _, m, _, _, hmoment, .constructed hc harity rfl, rfl, .refl _⟩
  | functionBody hframe =>
    cases hframe
    obtain ⟨hw, kind, decl, hcode, hlabel⟩ := hleads
    exact fun u hu => hs.body hclosed hunique hmoment hw hcode hlabel hu
  | block hframe =>
    cases hframe
    obtain rfl := hleads
    exact fun u hu => hs.block hclosed hp.mem hp.fits.1 rfl rfl hu _
  | statements => exact hs w (List.mem_of_getElem? hleads)

/-- The origin of functions and frames stays known. -/
theorem traced_invariant (hH : H.Closed) (b : Bindings) :
    Invariant b (Located H visited b) (fun h => Grounded visited h ∧ Traced H visited h) where
  heap := by
    rintro t m ⟨-, ht, v, hp, -⟩
    exact ⟨hp.grounded, ht⟩
  part := by
    rintro t m step t' m' ⟨hmoment, ht, v, hp, hs⟩ hstarts ⟨hg, ht'⟩
    obtain ⟨w, hleads, hw⟩ := lockstep hclosed hp hstarts hg
    exact ⟨hH hmoment hstarts, ht', w, hw, hs.starts hclosed hunique hp ht hmoment hstarts hleads⟩
  addFrame := by
    rintro t m around vars ⟨-, ht, w, hp, -⟩ haround
    exact ⟨(placed_invariant hclosed b).addFrame vars ⟨w, hp⟩ haround,
      ht.grow (Heap.grow_addFrame _ _) rfl rfl⟩
  bindMethod i h hc := ⟨(placed_invariant hclosed b).bindMethod i h.1 hc,
    h.2.grow (Heap.grow_bind _ _ i) rfl rfl⟩
  addInstance i h := ⟨(placed_invariant hclosed b).addInstance i h.1,
    h.2.grow (Heap.grow_addInstance _ i) rfl rfl⟩
  setField i name v h := ⟨(placed_invariant hclosed b).setField i name v h.1,
    h.2.grow (Heap.grow_setField _ i name v) rfl rfl⟩
  declare := by
    rintro name value? m h v ⟨-, -, w, hp, -⟩ ⟨hg, ht⟩
    exact ⟨(placed_invariant hclosed b).declare v ⟨w, hp⟩ hg,
      ht.grow (Heap.grow_define _ _ (hp.ne_this hclosed rfl) v) rfl rfl⟩
  assign := by
    rintro id name value m h frame v ⟨-, -, w, hp, -⟩ ⟨hg, ht⟩ hhas
    exact ⟨(placed_invariant hclosed b).assign v ⟨w, hp⟩ hg hhas,
      ht.grow (Heap.grow_define _ _ (hp.ne_this hclosed rfl) v) rfl rfl⟩
  bound := by
    rintro object name m i m' c ⟨hmoment, -, w, hp, -⟩ ho ⟨hg, ht⟩ hproperty
    refine ⟨(placed_invariant hclosed b).bound ⟨w, hp⟩ ho hg hproperty, ?_⟩
    have hlooksUp := H.looksUp_of_get hmoment ho hproperty
    obtain ⟨k, method, hmethod, hdecl, -⟩ := hlooksUp.method
    have hbind : Traced H visited (m'.heap.bind c i).2 := ht.grow (Heap.grow_bind _ c i) rfl rfl
    exact hbind.addFunction (hbind.anchored hclosed hmethod hdecl hlooksUp.bound)
      (.inl ⟨i, _, hlooksUp⟩)
  function := by
    rintro decl m ⟨hmoment, ht, v, hp, hs⟩
    refine ⟨(placed_invariant hclosed b).function ⟨v, hp⟩, ?_⟩
    have hgrow := m.heap.grow_addFunction ⟨decl, m.scope, false⟩
    have hdefine := (m.heap.addFunction ⟨decl, m.scope, false⟩).2.grow_define m.scope
      (hp.ne_this hclosed rfl) (.functionRef m.heap.functions.size)
    have hdeclares : H.Declares m.heap.functions.size ⟨decl, m.scope, false⟩
        (m.heap.addFunction ⟨decl, m.scope, false⟩).2 := ⟨b, decl, m, hmoment, rfl, rfl, .refl _⟩
    obtain ⟨code, ctx, scopes⟩ := v
    obtain ⟨rfl, -⟩ := hp.fits
    have hmem : _ ∈ Visit.parts ⟨.stmt (.function decl), ctx, scopes⟩ := List.mem_cons_self
    refine (ht.addFunction ⟨_, .function, hclosed.part hp.mem hmem, rfl, .inr ?_⟩
      (.inr hdeclares)).grow hdefine rfl rfl
    exact hs.mem hclosed hp.mem rfl hmem hgrow rfl
  classDecl := by
    rintro name methods m ⟨-, ht, v, hp, -⟩
    refine ⟨(placed_invariant hclosed b).classDecl ⟨v, hp⟩, ?_⟩
    refine (ht.addClass fun n c hc => ?_).grow
      (Heap.grow_define _ m.scope (hp.ne_this hclosed rfl) _) rfl rfl
    obtain ⟨d, hd, heq⟩ := List.mem_map.1 (NameMap.mem_of_get?_ofList hc)
    obtain ⟨rfl, rfl⟩ := Prod.mk.inj heq
    exact ⟨by simp [FunDecl.isInitializer], v, _, hp.mem, ⟨name, methods, d, hp.fits.1, hd, rfl⟩, rfl⟩

end

end

end LoxLang
