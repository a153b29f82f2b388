import LoxLang.Proofs.Run.Discipline
import LoxLang.Proofs.Scope.Mirror

/-!
# The scope check and a run in lock step

Whenever a run comes to a part of a tree, its frames mirror the scopes with which the scope check
visited that part (`Placed`), and each step of the run to a part of a task is a step of the check from
visit to visit (`Leads`, `lockstep`).  Functions and methods are visited long before they are called:
what links the two moments is that every closure on the heap was made in a frame that mirrored the
scopes of the visit of its declaration (`Grounded`).
-/

namespace LoxLang

open Scoping Evaluation

/-- Visits of proper parts, with all visits below them. -/
structure VisitsClosed (visited : Visit → Prop) : Prop where
  part : ∀ {v w}, visited v → w ∈ v.parts → visited w
  proper : ∀ {v}, visited v → v.code.Proper

section

variable (visited : Visit → Prop)

/-- The declaration was visited, and the frame mirrors the scopes of the visit. -/
def GroundedFunction (fs : Frames) (decl : Function NodeId) (frame : FrameId) : Prop :=
  ∃ w kind, visited w ∧ w.code = .function kind decl ∧ Mirrors fs w.scopes frame

/-- The method was visited inside the scope of `this`, which its frame does not have yet. -/
def GroundedMethod (fs : Frames) (decl : Function NodeId) (frame : FrameId) : Prop :=
  ∃ w kind scopes, visited w ∧ w.code = .function kind decl ∧ w.scopes = thisScope :: scopes ∧
    Mirrors fs scopes frame

/-- Every closure was made in a frame that mirrors the scopes around its declaration. -/
structure Grounded (h : Heap) : Prop where
  global : globalFrame < h.frames.next
  functions : ∀ {id : FunctionId} {c : Closure}, h.functions[id]? = some c →
    GroundedFunction visited h.frames c.decl c.frame
  methods : ∀ {id : ClassId} {name : String} {c : Closure}, h.method? id name = some c →
    GroundedMethod visited h.frames c.decl c.frame

/-- The task is about the part of the tree that is visited, and the frames mirror the scopes of the
visit.  A call is about no part of the tree until it comes to the body of a function. -/
def Fits (v : Visit) : Task → Machine → Prop
  | .eval e, m => v.code = .expr e ∧ Mirrors m.heap.frames v.scopes m.scope
  | .evalEach es, m => v.code = .exprs es ∧ Mirrors m.heap.frames v.scopes m.scope
  | .call _ _ _, _ => True
  | .dispatch _ _ _, _ => True
  | .apply c args, m => c.decl.arity = args.length ∧
    GroundedFunction visited m.heap.frames c.decl c.frame
  | .exec s, m => v.code = .stmt s ∧ Mirrors m.heap.frames v.scopes m.scope
  | .loop condition body, m =>
    v.code = .stmt (.whileLoop condition body) ∧ Mirrors m.heap.frames v.scopes m.scope
  | .execBlock frame body, m =>
    ∃ w, v.parts = [w] ∧ w.code = .stmts body ∧ Mirrors m.heap.frames w.scopes frame
  | .execEach ss, m => v.code = .stmts ss ∧ Mirrors m.heap.frames v.scopes m.scope

/-- The run is at the visited part. -/
structure Placed (v : Visit) (t : Task) (m : Machine) : Prop where
  mem : visited v
  grounded : Grounded visited m.heap
  fits : Fits visited v t m

/-- How a step of the run moves on among the visits. -/
def Leads (v : Visit) : Step → Visit → Prop
  | .part i, w => v.parts[i]? = some w
  | .same, w => w = v
  | .call, w => w = v
  | .body label, w => visited w ∧ ∃ kind decl, w.code = .function kind decl ∧ decl.label = label

end

/-! ### Growing heaps -/

section

variable {visited : Visit → Prop} {b : Bindings} {m m' : Machine}

theorem GroundedFunction.grow {fs fs' : Frames} (h : fs.Grow fs') {decl : Function NodeId}
    {frame : FrameId} (hg : GroundedFunction visited fs decl frame) :
    GroundedFunction visited fs' decl frame := by
  obtain ⟨w, kind, hw, hcode, hm⟩ := hg
  exact ⟨w, kind, hw, hcode, hm.grow h⟩

theorem GroundedMethod.grow {fs fs' : Frames} (h : fs.Grow fs') {decl : Function NodeId}
    {frame : FrameId} (hg : GroundedMethod visited fs decl frame) :
    GroundedMethod visited fs' decl frame := by
  obtain ⟨w, kind, scopes, hw, hcode, hscopes, hm⟩ := hg
  exact ⟨w, kind, scopes, hw, hcode, hscopes, hm.grow h⟩

/-- A change of the frames alone, under which they grow. -/
theorem Grounded.grow {h : Heap} {fs : Frames} (hg : Grounded visited h) (hfs : h.frames.Grow fs) :
    Grounded visited { h with frames := fs } where
  global := Nat.lt_of_lt_of_le hg.global hfs.next
  functions hc := (hg.functions hc).grow hfs
  methods hc := (hg.methods hc).grow hfs

theorem Grounded.addFunction {h : Heap} (hg : Grounded visited h) {c : Closure}
    (hc : GroundedFunction visited h.frames c.decl c.frame) :
    Grounded visited (h.addFunction c).2 where
  global := hg.global
  functions := by
    intro id c' hc'
    simp only [Heap.addFunction, Array.getElem?_push] at hc'
    split at hc'
    · obtain rfl := Option.some.inj hc'
      exact hc
    · exact hg.functions hc'
  methods := hg.methods

theorem Grounded.addInstance {h : Heap} (hg : Grounded visited h) (i : Instance) :
    Grounded visited (h.addInstance i).2 := ⟨hg.global, hg.functions, hg.methods⟩

theorem method?_addClass {h : Heap} {cls : Class} {id : ClassId} {name : String} {c : Closure}
    (hc : (h.addClass cls).2.method? id name = some c) :
    cls.methods.get? name = some c ∨ h.method? id name = some c := by
  simp only [Heap.method?, Heap.addClass, Array.getElem?_push] at hc
  split at hc
  · exact .inl hc
  · exact .inr hc

theorem Grounded.addClass {h : Heap} (hg : Grounded visited h) {cls : Class}
    (hcls : ∀ name c, cls.methods.get? name = some c →
      GroundedMethod visited h.frames c.decl c.frame) : Grounded visited (h.addClass cls).2 where
  global := hg.global
  functions := hg.functions
  methods hc := (method?_addClass hc).elim (hcls _ _) hg.methods

/-- A bound method runs in a frame that mirrors the scope of `this` and the scopes around it. -/
theorem Grounded.bind {h : Heap} (hg : Grounded visited h) {c : Closure}
    (hc : GroundedMethod visited h.frames c.decl c.frame) (i : InstanceId) :
    Grounded visited (h.bind c i).2 ∧
      GroundedFunction visited (h.bind c i).2.frames (h.bind c i).1.decl (h.bind c i).1.frame := by
  refine ⟨hg.grow (Frames.grow_push _ _), ?_⟩
  obtain ⟨w, kind, scopes, hw, hcode, hscopes, hm⟩ := hc
  refine ⟨w, kind, hw, hcode, ?_⟩
  rw [hscopes]
  refine mirrors_push hm hg.global fun name hname => ?_
  rw [thisScope, NameMap.get?_insert] at hname
  split_ifs at hname with heq
  · rw [heq]; rfl
  · cases hname

theorem mirrors_of_eval {e : Expr NodeId} {v : Value} {scopes : Scopes}
    (hr : Returns (eval b · e) m v m') (hm : Mirrors m.heap.frames scopes m.scope) :
    Mirrors m'.heap.frames scopes m'.scope := by
  rw [(hr.keeps fun fuel => (samePlace_stable.keepsAll b fuel).eval e).1]
  exact hm.grow (hr.keeps fun fuel => (grows_stable.keepsAll b fuel).eval e)

theorem mirrors_of_exec {s : Stmt NodeId} {scopes : Scopes} (hr : Returns (exec b · s) m () m')
    (hm : Mirrors m.heap.frames scopes m.scope) : Mirrors m'.heap.frames scopes m'.scope := by
  rw [(hr.keeps fun fuel => (samePlace_stable.keepsAll b fuel).exec s).1]
  exact hm.grow (hr.keeps fun fuel => (grows_stable.keepsAll b fuel).exec s)

/-! ### Declarations -/

theorem has_of_defineVariable {name : Token} {v : Value}
    (h : (defineVariable name v : Exec Unit) m = .ok () m') (hscope : m.scope < m.heap.frames.next) :
    m'.heap.frames.has m'.scope name.lexeme = true := by
  have h := toExec_ok h
  cases h
  rw [Frames.has]
  change ((m.heap.frames.define m.scope name.lexeme v).getHere? m.scope name.lexeme).isSome = true
  rw [Frames.getHere?_define, if_pos ⟨rfl, rfl, hscope⟩]
  rfl

/-- A statement that has run to its end has declared its name. -/
theorem has_of_exec {s : Stmt NodeId} {name : Token} (hr : Returns (exec b · s) m () m')
    (hname : s.declared? = some name) (hscope : m.scope < m.heap.frames.next) :
    m'.heap.frames.has m'.scope name.lexeme = true := by
  obtain ⟨fuel, hr⟩ := hr
  cases fuel with
  | zero => cases hr
  | succ fuel =>
    replace hr : exec b (fuel + 1) s m = .ok () m' := hr
    -- the frame that runs is still the same, and still there, when the name is defined
    have after_first {α : Type} {x : Exec α} {a : α} {m₁ : Machine} (hx : x m = .ok a m₁)
        (hplace : Keeps SamePlace x) (hgrows : Keeps Grows x) :
        m₁.scope < m₁.heap.frames.next := by
      have hp := hplace m
      have hg := hgrows m
      rw [hx] at hp hg
      have hscope' : m₁.scope = m.scope := hp.1
      rw [hscope']
      exact Nat.lt_of_lt_of_le hscope hg.next
    cases s with
    | var n value? =>
      obtain rfl := Option.some.inj hname
      cases value? with
      | none =>
        rw [exec] at hr
        exact has_of_defineVariable hr hscope
      | some e =>
        rw [exec] at hr
        obtain ⟨v, m₁, hv, hdefine⟩ := bind_ok hr
        exact has_of_defineVariable hdefine (after_first hv
          ((samePlace_stable.keepsAll b fuel).eval e).toExec
          ((grows_stable.keepsAll b fuel).eval e).toExec)
    | function decl =>
      obtain rfl := Option.some.inj hname
      rw [exec] at hr
      obtain ⟨_, _, hget, hmake⟩ := bind_ok hr
      cases hget
      obtain ⟨f, m₁, hf, hdefine⟩ := bind_ok hmake
      exact has_of_defineVariable hdefine (after_first hf (samePlace_stable.newFunction _).toExec
        (grows_stable.newFunction _).toExec)
    | classDecl n methods =>
      obtain rfl := Option.some.inj hname
      rw [exec] at hr
      obtain ⟨_, _, hget, hmake⟩ := bind_ok hr
      cases hget
      obtain ⟨c, m₁, hc, hdefine⟩ := bind_ok hmake
      exact has_of_defineVariable hdefine (after_first hc (samePlace_stable.newClass _ _ _).toExec
        (grows_stable.newClass _ _ _).toExec)
    | _ => cases hname

/-- A frame that mirrors scopes is there. -/
theorem Mirrors.lt_next {h : Heap} (hg : Grounded visited h) {scopes : Scopes} {frame : FrameId}
    (hm : Mirrors h.frames scopes frame) : frame < h.frames.next := by
  cases scopes with
  | nil => rw [Mirrors] at hm; rw [hm]; exact hg.global
  | cons scope outer =>
    obtain ⟨-, -, around, henclosing, -⟩ := hm
    exact Frames.lt_of_enclosing? henclosing

/-- After a statement the frames mirror the scopes after its visit. -/
theorem mirrors_after_exec {s : Stmt NodeId} {scopes : Scopes} (hg : Grounded visited m.heap)
    (hr : Returns (exec b · s) m () m') (hm : Mirrors m.heap.frames scopes m.scope) :
    Mirrors m'.heap.frames (declaring s.declared? scopes) m'.scope := by
  have hm' := mirrors_of_exec hr hm
  cases hname : s.declared? with
  | none => exact hm'
  | some name => exact hm'.introduce (has_of_exec hr hname (hm.lt_next hg))

/-- The frame of a call mirrors the scope of the parameters. -/
theorem mirrors_parameters {fs : Frames} {scopes : Scopes} {frame : FrameId}
    {decl : Function NodeId} {args : List Value} (hm : Mirrors fs scopes frame)
    (hglobal : globalFrame < fs.next) (harity : decl.arity = args.length) :
    Mirrors (fs.push ⟨parameterVars decl args, some frame⟩)
      (Pass.each Pass.introduce decl.params (∅ :: scopes)).1 fs.next := by
  obtain ⟨scope, hscope, hget⟩ := Pass.introduces_cons decl.params ∅ scopes
  rw [hscope]
  refine mirrors_push hm hglobal fun name hname => NameMap.contains_ofList ?_
  have hlength : (decl.params.map (·.lexeme)).length ≤ args.length := by
    rw [List.length_map]
    exact Nat.le_of_eq harity
  rw [List.map_fst_zip hlength]
  rw [hget] at hname
  split_ifs at hname with hmem
  · exact hmem
  · cases hname

/-! ### The steps of a run -/

/-- Each step of a run from a placed task is a step of the scope check, and leads to a placed task. -/
theorem lockstep (hclosed : VisitsClosed visited) {v : Visit} {t t' : Task} {step : Step}
    (hp : Placed visited v t m) (hstarts : Starts b t m step t' m')
    (hG : Grounded visited m'.heap) :
    ∃ w, Leads visited v step w ∧ Placed visited w t' m' := by
  obtain ⟨hv, hg, hfits⟩ := hp
  have hpart {i : Nat} {w : Visit} (hw : v.parts[i]? = some w) (hfits : Fits visited w t' m') :
      ∃ w, Leads visited v (.part i) w ∧ Placed visited w t' m' :=
    ⟨w, hw, hclosed.part hv (List.mem_of_getElem? hw), hG, hfits⟩
  obtain ⟨code, ctx, scopes⟩ := v
  -- the place of a part in the task is its place among the visits below
  cases hstarts with
  | group | unary | binaryLeft | logicalLeft | assigned | callee | object | first | expression
    | printed | condition | elseCondition | returned | firstStatement =>
    obtain ⟨rfl, hm⟩ := hfits
    exact hpart rfl ⟨rfl, hm⟩
  | binaryRight hl | logicalRight hl =>
    obtain ⟨rfl, hm⟩ := hfits
    exact hpart rfl ⟨rfl, by simpa [Code.pass] using mirrors_of_eval hl hm⟩
  | arguments hf =>
    obtain ⟨rfl, hm⟩ := hfits
    exact hpart rfl ⟨rfl, by simpa [Code.pass] using mirrors_of_eval hf hm⟩
  -- a call needs nothing of the visit until a body runs
  | called => exact ⟨_, rfl, hv, hG, trivial⟩
  | setObject =>
    obtain ⟨rfl, hm⟩ := hfits
    exact hpart rfl ⟨rfl, by simpa [Code.pass] using hm⟩
  | setValue ho =>
    obtain ⟨rfl, hm⟩ := hfits
    exact hpart rfl ⟨rfl, mirrors_of_eval ho hm⟩
  | others hv' =>
    obtain ⟨rfl, hm⟩ := hfits
    exact hpart rfl ⟨rfl, by simpa [Code.pass] using mirrors_of_eval hv' hm⟩
  | entered => exact ⟨_, rfl, hv, hG, trivial⟩
  | function hc harity => exact ⟨_, rfl, hv, hG, harity, hg.functions hc⟩
  | initializer hc harity hi hbound =>
    cases hi
    cases hbound
    exact ⟨_, rfl, hv, hG, harity, ((hg.addInstance _).bind (hg.methods hc) _).2⟩
  -- the body is visited where its closure was made, not where it is called
  | functionBody hframe =>
    cases hframe
    obtain ⟨harity, w, kind, hw, hcode, hm⟩ := hfits
    refine ⟨w, ⟨hw, kind, _, hcode, rfl⟩, hw, hG, ?_⟩
    obtain ⟨code, ctx, scopes⟩ := w
    obtain rfl := hcode
    exact ⟨_, rfl, rfl, mirrors_parameters hm hg.global harity⟩
  | varInitializer =>
    obtain ⟨rfl, hm⟩ := hfits
    exact hpart rfl ⟨rfl, hm.declare _⟩
  | block hframe =>
    cases hframe
    obtain ⟨rfl, hm⟩ := hfits
    exact ⟨_, rfl, hv, hG, _, rfl, rfl, mirrors_push hm hg.global fun _ h => by cases h⟩
  | branch hc | thenBranch hc =>
    obtain ⟨rfl, hm⟩ := hfits
    exact hpart rfl ⟨rfl, by simpa [Code.pass] using mirrors_of_eval hc hm⟩
  -- a branch declares nothing, so the visit of the first one leaves the scopes
  | elseBranch hc =>
    obtain ⟨rfl, hm⟩ := hfits
    have hproper := hclosed.proper hv
    have hscopes := scopes_stmt hproper.2.2.1 ctx scopes
    rw [hproper.2.1, declaring] at hscopes
    exact hpart rfl ⟨rfl, by simpa [Code.pass, hscopes] using mirrors_of_eval hc hm⟩
  | whileLoop => exact ⟨_, rfl, hv, hG, hfits⟩
  | loopCondition =>
    obtain ⟨rfl, hm⟩ := hfits
    exact hpart rfl ⟨rfl, hm⟩
  | loopBody hc =>
    obtain ⟨rfl, hm⟩ := hfits
    exact hpart rfl ⟨rfl, by simpa [Code.pass] using mirrors_of_eval hc hm⟩
  -- the loop is still at the same visit after each round
  | again hc _ hb =>
    obtain ⟨hcode, hm⟩ := hfits
    exact ⟨_, rfl, hv, hG, hcode, mirrors_of_exec hb (mirrors_of_eval hc hm)⟩
  | statements =>
    obtain ⟨w, hparts, hcode, hm⟩ := hfits
    exact hpart (by rw [hparts]; rfl) ⟨hcode, hm⟩
  | otherStatements hs =>
    obtain ⟨rfl, hm⟩ := hfits
    have hproper := hclosed.proper hv
    refine hpart rfl ⟨rfl, ?_⟩
    simpa [Code.pass, scopes_stmt hproper.1] using mirrors_after_exec hg hs hm

end

end LoxLang
