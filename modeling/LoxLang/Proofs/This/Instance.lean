import LoxLang.Proofs.Run.Calls
import LoxLang.Proofs.Scope.Agreement
import LoxLang.Proofs.This.Traced

/-!
# The value of `this`, and what initializers yield

While an accepted source runs, in a session of any earlier runs, every `this` is the instance to which
the innermost method around it was bound; the call of a class yields the instance that it makes, and
so does that of a method `init` the instance on which it was looked up
(`this_is_the_bound_instance`).
-/

namespace LoxLang

open Scoping Evaluation

/-! ### The history of a session -/

namespace Session

/-- The moments of the run of a source. -/
def moments (s : Session) (source : String) : History := fun b t m =>
  s.accepts source = true ∧ b = s.bindingsFor source ∧
    ∃ trail, During b (.execEach (s.program source)) s.ready trail t m

/-- The moments of runs one after another. -/
def history (s : Session) : List (Nat × String) → History
  | [] => ⊥
  | (fuel, source) :: steps => s.moments source ⊔ (s.run fuel source).2.history steps

variable {s : Session} {source : String} {programs : List (List (Stmt NodeId))} {H : History}

theorem closed_moments (s : Session) (source : String) : (s.moments source).Closed := by
  rintro _ t m step t' m' ⟨h, rfl, trail, hduring⟩ hstarts
  exact ⟨h, rfl, step :: trail, hduring.part hstarts⟩

theorem closed_history (s : Session) (steps : List (Nat × String)) : (s.history steps).Closed := by
  induction steps generalizing s with
  | nil => exact fun _ _ _ _ _ _ h => False.elim h
  | cons step steps ih => exact (closed_moments s step.2).sup (ih _)

theorem Sound.unique (hs : Sound programs s) (w w' : Visit) (hw : Visited programs w)
    (hw' : Visited programs w') (id : NodeId) (hid : id ∈ w.code.own) (hid' : id ∈ w'.code.own) :
    w = w' := Visited.eq_of_own hs.nodup hw hw' hid hid'

/-- A program begins to run outside of all classes. -/
theorem Sound.located (hs : Sound programs s) (ht : Traced H (Visited programs) s.machine.heap)
    (h : s.accepts source = true) :
    Located (H ⊔ s.moments source) (Visited (programs ++ [s.program source]))
      (s.bindingsFor source) (.execEach (s.program source)) s.ready where
  moment := .inr ⟨h, rfl, [], .start⟩
  traced := ht.mono le_sup_left (fun _ => Visited.mono (List.subset_append_left _ _)) (.refl _) rfl rfl
  sits := ⟨_, hs.placed h, nofun⟩

theorem Sound.traced_run (hs : Sound programs s)
    (ht : Traced H (Visited programs) s.machine.heap) (hH : H.Closed) (h : s.accepts source = true)
    (fuel : Nat) :
    Traced (H ⊔ s.moments source) (Visited (programs ++ [s.program source]))
      (s.run fuel source).2.machine.heap := by
  have hl := hs.load h
  rw [run_of_accepts h]
  exact ((traced_invariant (visitsClosed hl.proper) hl.unique (hH.sup (closed_moments s source))
    (s.bindingsFor source)).after (hs.located ht h) fuel).2

/-- After any runs it is known how the functions on the heap were made. -/
theorem Sound.traced_runAll (hs : Sound programs s)
    (ht : Traced H (Visited programs) s.machine.heap) (hH : H.Closed) (steps : List (Nat × String)) :
    Traced (H ⊔ s.history steps) (Visited (programs ++ s.programsRun steps))
      (s.runAll steps).machine.heap := by
  induction steps generalizing s programs H with
  | nil => simpa [history, programsRun, runAll] using ht
  | cons step steps ih =>
    obtain ⟨fuel, source⟩ := step
    rw [programsRun, ← List.append_assoc, history, ← sup_assoc]
    have hH' := hH.sup (closed_moments s source)
    cases h : s.accepts source with
    | true => exact ih (hs.run h fuel) (hs.traced_run ht hH h fuel) hH'
    | false =>
      obtain ⟨bindings, -, hrun⟩ := run_of_not_accepts h fuel
      have ht' : Traced (H ⊔ s.moments source) (Visited programs)
          (s.run fuel source).2.machine.heap := by
        rw [hrun]
        exact ht.mono le_sup_left (fun _ => id) (.refl _) rfl rfl
      exact ih (by simpa using hs.refuse h fuel) (by simpa using ht') hH'

theorem traced_start (limit? : Option Nat) (clock : Clock) (visited : Visit → Prop) :
    Traced H visited (start limit? clock).machine.heap where
  functions h := by simp [start, Machine.initial, Heap.initial] at h
  methods h := by simp [start, Machine.initial, Heap.method?, Heap.initial] at h

end Session

/-! ### What is located -/

namespace Located

variable {H : History} {visited : Visit → Prop} {b : Bindings} {t : Task} {m m' : Machine}

/-- `this` is the instance to which the innermost method around it was bound. -/
theorem this_eq (hclosed : VisitsClosed visited)
    (hchecked : ∀ v, visited v → v.report.errors = [])
    (hrecorded : ∀ v, visited v → ∀ u ∈ v.report.uses, b.distance? u.id = u.distance?) {id : NodeId}
    {keyword : Token} (hl : Located H visited b (.eval (.thisRef id keyword)) m) :
    ∃ v cls w i g n, visited v ∧ v.code = .expr (.thisRef id keyword) ∧ visited cls ∧
      w.IsMethodOf cls ∧ w.Inside v ∧ H.RunsOn w i g m.heap ∧
      m.heap.frames.ancestor? m.scope n = some g ∧
      ∀ fuel, eval b (fuel + 1) (.thisRef id keyword) m = .ok (.instanceRef i) m := by
  obtain ⟨-, -, v, hp, hsits⟩ := hl
  have hcode : v.code = .expr (.thisRef id keyword) := hp.fits.1
  have herrors := hchecked v hp.mem
  have hkeyword : keyword.lexeme = thisName := (hcode ▸ hclosed.proper hp.mem :)
  -- outside of a class the check refuses `this`
  have hin : v.ctx.inClass = true := by
    obtain ⟨code, ctx, scopes⟩ := v
    obtain rfl := hcode
    by_contra hout
    simp [Visit.report, Code.pass, Scoping.expr, hout, Pass.fault] at herrors
  obtain ⟨cls, w, i, g, n, hcls, hw, hinside, hruns, hdistance, hancestor⟩ := hsits hin
  have hb := hrecorded v hp.mem _ (Visit.use_of_read hcode rfl herrors)
  rw [hkeyword, hdistance] at hb
  refine ⟨v, cls, w, i, g, n, hp.mem, hcode, hcls, hw, hinside, hruns, hancestor, fun fuel => ?_⟩
  simp [eval, readVariable, place, hb, hkeyword, hruns.getAt hancestor]

/-- The heap has grown when the call of a closure has ended. -/
theorem grow_apply (hclosed : VisitsClosed visited) {c : Closure} {args : List Value}
    (hl : Located H visited b (.apply c args) m) {v : Value}
    (h : Returns (apply b · c args) m v m') : m.heap.Grow m'.heap := by
  obtain ⟨-, -, w, hp, -⟩ := hl
  obtain ⟨fuel, h⟩ := h
  have hgrow := hp.grow_after (b := b) hclosed fuel
  rw [Task.after, show apply b fuel c args m = .ok v m' from h] at hgrow
  exact hgrow

variable (inv : Invariant b (Located H visited b) (fun h => Grounded visited h ∧ Traced H visited h))

include inv

theorem starts {t' : Task} {step : Step} (hl : Located H visited b t m)
    (hstarts : Starts b t m step t' m') : Located H visited b t' m' :=
  inv.part hl hstarts (inv.heap_of_starts hl hstarts)

/-- The call of a class yields the instance that it has made. -/
theorem call_class (hclosed : VisitsClosed visited) {id : ClassId} {paren : Token}
    {args : List Value} (hl : Located H visited b (.call (.classRef id) paren args) m) {fuel : Nat}
    {v : Value} (h : call b fuel (.classRef id) paren args m = .ok v m') :
    v = .instanceRef m.heap.instances.size ∧
      ∃ o, m'.heap.instances[m.heap.instances.size]? = some o ∧ o.classId = id := by
  obtain ⟨hdepth, m₁, hdispatch, hheap⟩ := call_ok h
  have hl₁ := hl.starts inv (.entered hdepth)
  obtain ⟨rfl, hnew⟩ := dispatch_classRef_ok hdispatch
  have hmade : (m.heap.addInstance ⟨id, ∅⟩).2.instances[m.heap.instances.size]? = some ⟨id, ∅⟩ :=
    Array.getElem?_push_size
  rw [hheap]
  refine ⟨rfl, ?_⟩
  rcases hnew with hnew | ⟨bound, m₂, v₂, hstarts, hinstances, happly⟩
  · exact ⟨_, hnew ▸ hmade, rfl⟩
  · exact ((hl₁.starts inv hstarts).grow_apply hclosed happly).instances (hinstances ▸ hmade)

/-- What the call of a function yields depends on how the function was made. -/
theorem call_function (hclosed : VisitsClosed visited) {id : FunctionId} {paren : Token}
    {args : List Value} (hl : Located H visited b (.call (.functionRef id) paren args) m)
    {fuel : Nat} {v : Value} (h : call b fuel (.functionRef id) paren args m = .ok v m') :
    (∃ c, H.Makes id c m.heap) ∧
    (∀ i c, H.LooksUp i initializerName id c m.heap → v = .instanceRef i) ∧
    ∀ c, H.Declares id c m.heap → ∃ returned? m₁,
      BodyEnds b c args { m with depth := m.depth + 1 } returned? m₁ ∧ v = returned?.getD .nil := by
  obtain ⟨hdepth, m₁, hdispatch, -⟩ := call_ok h
  obtain ⟨c, hc, harity, happly⟩ := dispatch_functionRef_ok hdispatch
  have hl' := (hl.starts inv (.entered hdepth)).starts inv (.function hc harity)
  obtain ⟨returned?, hbody, hv⟩ := apply_ok happly
  refine ⟨⟨c, (hl.traced.functions hc).2⟩, fun i c' hlooksUp => ?_, fun c' hdeclares => ?_⟩
  · obtain rfl := Option.some.inj (hc.symm.trans hlooksUp.functions)
    obtain ⟨k, method, hmethod, -, hinit⟩ := hlooksUp.method
    have hthis := (hl'.grow_apply hclosed happly).this hlooksUp.bound.this
    rw [hv, if_pos (hinit.trans ((hl.traced.methods hmethod).1.2 rfl)), hthis]
    rfl
  · obtain rfl := Option.some.inj (hc.symm.trans hdeclares.functions)
    rw [hdeclares.isInitializer] at hv
    exact ⟨returned?, m₁, hbody, hv⟩

/-- A method `init` that is called as soon as it has been looked up yields the instance. -/
theorem call_initializer (hclosed : VisitsClosed visited) {object : Expr NodeId}
    {name paren : Token} {args : List (Expr NodeId)}
    (hl : Located H visited b (.eval (.call (.get object name) paren args)) m)
    (hname : name.lexeme = initializerName) {i : InstanceId} {m₁ : Machine} {method : Closure}
    (ho : Returns (eval b · object) m (.instanceRef i) m₁)
    (hproperty : m₁.heap.property? i name.lexeme = some (.method method)) {fuel : Nat} {v : Value}
    (h : eval b fuel (.call (.get object name) paren args) m = .ok v m') : v = .instanceRef i := by
  cases fuel with
  | zero => cases h
  | succ fuel =>
    rw [eval] at h
    obtain ⟨f, m₂, hf, h⟩ := bind_ok h
    obtain ⟨vs, m₃, hvs, hcall⟩ := bind_ok h
    have hget : Returns (eval b · (.get object name)) m f m₂ := ⟨fuel, hf⟩
    have hargs : Returns (evalEach b · args) m₂ vs m₃ := ⟨fuel, hvs⟩
    have hcalled := hl.starts inv (.called hget hargs)
    obtain ⟨rfl, rfl⟩ := hget.unique (fun fuel => (extendsAll b fuel).eval _)
      (eval_get_method ho hproperty)
    -- the arguments run between looking the method up and calling it
    obtain ⟨-, -, w, hp, -⟩ := hl.starts inv (.arguments hget)
    have hgrow := hp.grow_after (b := b) hclosed fuel
    rw [Task.after, hvs] at hgrow
    have hlooksUp := H.looksUp_of_get (hl.starts inv .callee).moment ho hproperty
    rw [hname] at hlooksUp
    exact (hcalled.call_function inv hclosed hcall).2.1 i _ (hlooksUp.mono le_rfl hgrow)

end Located

/-- While an accepted source runs, in a session of any earlier runs:

* the value of `this` is an instance; it was bound, when it was made by a call of its class or the
  method was looked up on it, to the innermost method around, and a call of this method runs in one of
  the frames around;
* the call of a class fails or yields the instance that it makes;
* the call of a method `init` as soon as it has been looked up on an instance fails or yields that
  instance;
* so does the call of a function that was made by looking up `init` on an instance at any moment
  before, while one that was made by a declaration yields what its body returns.  There are no other
  functions. -/
theorem this_is_the_bound_instance (limit? : Option Nat) (clock : Clock)
    (steps : List (Nat × String)) (source : String) (s : Session)
    (hs : s = (Session.start limit? clock).runAll steps) (haccepts : s.accepts source = true)
    {trail : List Step} {t : Task} {m : Machine}
    (hduring : During (s.bindingsFor source) (.execEach (s.program source)) s.ready trail t m) :
    let b := s.bindingsFor source
    let programs := (Session.start limit? clock).programsRun steps ++ [s.program source]
    let H := (Session.start limit? clock).history steps ⊔ s.moments source
    (∀ id keyword, t = .eval (.thisRef id keyword) → ∃ v cls w i o g n,
      VisitAt (Visited programs) (.program (s.program source)) trail v ∧
      v.code = .expr (.thisRef id keyword) ∧ Visited programs cls ∧ w.IsMethodOf cls ∧ w.Inside v ∧
      H.RunsOn w i g m.heap ∧ m.heap.frames.ancestor? m.scope n = some g ∧
      m.heap.instances[i]? = some o ∧
      ∀ fuel, eval b (fuel + 1) (.thisRef id keyword) m = .ok (.instanceRef i) m) ∧
    (∀ id paren args, t = .call (.classRef id) paren args → ∀ fuel v m',
      call b fuel (.classRef id) paren args m = .ok v m' → v = .instanceRef m.heap.instances.size ∧
        ∃ o, m'.heap.instances[m.heap.instances.size]? = some o ∧ o.classId = id) ∧
    (∀ object name paren args, t = .eval (.call (.get object name) paren args) →
      name.lexeme = initializerName → ∀ i m₁ method,
      Returns (eval b · object) m (.instanceRef i) m₁ →
      m₁.heap.property? i name.lexeme = some (.method method) → ∀ fuel v m',
      eval b fuel (.call (.get object name) paren args) m = .ok v m' → v = .instanceRef i) ∧
    ∀ id paren args, t = .call (.functionRef id) paren args → ∀ fuel v m',
      call b fuel (.functionRef id) paren args m = .ok v m' →
      (∃ c, H.Makes id c m.heap) ∧
      (∀ i c, H.LooksUp i initializerName id c m.heap → v = .instanceRef i) ∧
      ∀ c, H.Declares id c m.heap → ∃ returned? m₁,
        BodyEnds b c args { m with depth := m.depth + 1 } returned? m₁ ∧ v = returned?.getD .nil := by
  intro b programs H
  have hsound := Session.sound_runAll (Session.sound_start limit? clock) steps
  have htraced := (Session.sound_start limit? clock).traced_runAll (H := ⊥)
    (Session.traced_start limit? clock _) (fun _ _ _ _ _ _ h => False.elim h) steps
  rw [List.nil_append, ← hs] at hsound htraced
  rw [bot_sup_eq] at htraced
  have hload := hsound.load haccepts
  have hclosed := visitsClosed hload.proper
  have hH : H.Closed := (Session.closed_history _ steps).sup (Session.closed_moments s source)
  have inv := traced_invariant hclosed hload.unique hH b
  have hl : Located H (Visited programs) b t m :=
    inv.during (hsound.located htraced haccepts) hduring
  refine ⟨?_, ?_, ?_, ?_⟩
  · rintro id keyword rfl
    obtain ⟨v', cls, w, i, g, n, hv', hcode', hcls, hw, hinside, hruns, hancestor, hthis⟩ :=
      hl.this_eq hclosed
        (fun v ⟨program, hprogram, hreaches⟩ =>
          List.subset_nil.1 (hload.checked program hprogram ▸ hreaches.errors_subset))
        fun v ⟨program, hprogram, hreaches⟩ u hu =>
          hload.recorded program hprogram u (hreaches.uses_subset hu)
    -- the label of the occurrence stands in one visit only
    obtain ⟨v, htrail, hv⟩ := placed_during hclosed (hsound.placed haccepts) hduring
    obtain rfl := hload.unique v v' hv.mem hv' id (by simp [hv.fits.1, Code.own])
      (by simp [hcode', Code.own])
    obtain ⟨o, ho⟩ := hruns.exists_instance
    exact ⟨v, cls, w, i, o, g, n, htrail, hcode', hcls, hw, hinside, hruns, hancestor, ho, hthis⟩
  · rintro id paren args rfl fuel v m' h
    exact hl.call_class inv hclosed h
  · rintro object name paren args rfl hname i m₁ method ho hproperty fuel v m' h
    exact hl.call_initializer inv hclosed hname ho hproperty h
  · rintro id paren args rfl fuel v m' h
    exact hl.call_function inv hclosed h

/-- A class whose initializer declares and calls a function that reads `this`. -/
def nestedThis : List (Stmt NodeId) :=
  let className : Token := ⟨.symbol .identifier, "A", 1⟩
  let functionName : Token := ⟨.symbol .identifier, "f", 1⟩
  [.classDecl className
      [⟨0, ⟨.symbol .identifier, "init", 1⟩, [],
        [.function ⟨1, functionName, [], [.expr (.thisRef 2 ⟨.symbol .thisKw, "this", 1⟩)]⟩,
          .expr (.call (.var 3 functionName) ⟨.symbol .rightParen, ")", 1⟩ [])]⟩],
    .expr (.call (.var 4 className) ⟨.symbol .rightParen, ")", 1⟩ [])]

theorem during_nestedThis {b : Bindings} (hclass : b.distance? 4 = none)
    (hfunction : b.distance? 3 = some 0) (clock : Clock) :
    ∃ trail m, During b (.execEach nestedThis) (Session.start none clock).ready trail
      (.eval (.thisRef 2 ⟨.symbol .thisKw, "this", 1⟩)) m := by
  have hread {id : NodeId} {name : Token} {v : Value} {m : Machine} {frame : FrameId}
      (hplace : place b m id = (frame, 0)) (h : m.heap.frames.getHere? frame name.lexeme = some v) :
      eval b 1 (.var id name) m = .ok v m := by
    have hhas : m.heap.frames.has frame name.lexeme = true := Frames.has_iff.2 ⟨_, h⟩
    simp [eval, readVariable, hplace, Frames.getAt?, Frames.holder?, Frames.ancestor?, hhas,
      Option.filter, h]
  have hinit : During b (.execEach nestedThis) (Session.start none clock).ready _ (.execEach _) _ :=
    ((((((((During.start.part (.otherStatements ⟨1, rfl⟩)).part .firstStatement).part
      .expression).part (.called ⟨1, hread (by rw [place, hclass]) rfl⟩ ⟨1, rfl⟩)).part
      (.entered (show 0 < maxCallDepth by decide))).part (.initializer rfl rfl rfl rfl)).part
      (.functionBody rfl)).part .statements)
  have hcall : During b (.execEach nestedThis) (Session.start none clock).ready _ (.execEach _) _ :=
    (((((((hinit.part (.otherStatements ⟨1, rfl⟩)).part .firstStatement).part .expression).part
      (.called ⟨1, hread (by rw [place, hfunction]) rfl⟩ ⟨1, rfl⟩)).part
      (.entered (show 1 < maxCallDepth by decide))).part (.function rfl rfl)).part
      (.functionBody rfl)).part .statements
  exact ⟨_, _, (hcall.part .firstStatement).part .expression⟩

/-- In a function inside of an initializer, `this` is an instance. -/
theorem nested_this_is_an_instance :
    let s := Session.start none (.startingAt 0)
    let source := "class A \x7b init() \x7b fun f() \x7b this; \x7d f(); \x7d \x7d A();"
    ∃ trail m i o,
      During (s.bindingsFor source) (.execEach (s.program source)) s.ready trail
        (.eval (.thisRef 2 ⟨.symbol .thisKw, "this", 1⟩)) m ∧ m.heap.instances[i]? = some o ∧
      ∀ fuel, eval (s.bindingsFor source) (fuel + 1) (.thisRef 2 ⟨.symbol .thisKw, "this", 1⟩) m =
        .ok (.instanceRef i) m := by
  intro s source
  have hprogram : s.program source = nestedThis := by cbv
  have hclass : (s.bindingsFor source).distance? 4 = none := by decide +kernel
  have hfunction : (s.bindingsFor source).distance? 3 = some 0 := by decide +kernel
  obtain ⟨trail, m, hduring⟩ := during_nestedThis hclass hfunction (.startingAt 0)
  rw [← hprogram] at hduring
  obtain ⟨hthis, -⟩ :=
    this_is_the_bound_instance none (.startingAt 0) [] source s rfl (by decide +kernel) hduring
  obtain ⟨-, -, -, i, o, -, -, -, -, -, -, -, -, -, ho, heval⟩ := hthis _ _ rfl
  exact ⟨trail, m, i, o, hduring, ho, heval⟩

end LoxLang
