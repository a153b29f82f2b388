import Mathlib
import LoxLang.Proofs.Scope.Exact
import LoxLang.Proofs.Scope.Programs

/-!
# Assignments to local variables

An assignment needs a variable that is there.  Under a name that has a distance there is one, unless the
assignment stands in the initializer of that very variable: the scope check refuses to read the name
there, but not to assign to it, and the assignment fails once its value has been computed.  These are the
only assignments to local variables that fail by themselves
(`assignment_fails_only_in_own_initializer`).
-/

namespace LoxLang

open Scoping Evaluation

section

variable {b : Bindings} {m m' : Machine} {id : NodeId} {name : Token} {value : Expr NodeId}
  {distance : Nat}

/-- The variable is looked for after the value has been computed. -/
theorem eval_assign (hb : b.distance? id = some distance) (fuel : Nat) :
    eval b (fuel + 1) (.assign id name value) m = match eval b fuel value m with
      | .ok x m' => match m'.heap.frames.holder? m'.scope distance name.lexeme with
        | some holder => .ok x { m' with heap := m'.heap.define holder name.lexeme x }
        | none => .error (.failed (.fault name.line (.undefinedVariable name.lexeme))) m'
      | .error stop m' => .error stop m' := by
  rw [eval]
  change EStateM.bind (eval b fuel value) _ m = _
  rw [EStateM.bind]
  cases eval b fuel value m with
  | error stop m' => rfl
  | ok x m' =>
    change EStateM.bind (assignVariable b id name x) _ m' = _
    simp only [EStateM.bind, assignVariable, holder?, place, hb]
    cases m'.heap.frames.holder? m'.scope distance name.lexeme with
    | none => rfl
    | some holder => rfl

/-- A use of a name that is assigned to is traced, whatever its declaration. -/
theorem Scoping.Visit.use_of_assign {v : Visit} (hcode : v.code = .expr (.assign id name value)) :
    ⟨id, name.lexeme, distance? v.scopes name.lexeme⟩ ∈ v.report.uses := by
  obtain ⟨code, ctx, scopes⟩ := v
  obtain rfl := hcode
  simp [report, Code.pass, Scoping.expr, Pass.append_apply, trace]

/-- In its own initializer a variable is not there. -/
theorem OnlyComplete.holder {fs : Frames} {scopes : Scopes} {frame : FrameId} {name : String}
    (h : OnlyComplete fs scopes frame) (hname : isIncomplete scopes name = true)
    (hdistance : distance? scopes name = some distance) : fs.holder? frame distance name = none := by
  cases scopes with
  | nil => cases hdistance
  | cons scope outer =>
    have hget : scope.get? name = some false := by simpa [isIncomplete] using hname
    rw [distance?_cons, if_pos (NameMap.contains_iff.2 ⟨false, hget⟩)] at hdistance
    obtain rfl := Option.some.inj hdistance
    rw [Option.eq_none_iff_forall_ne_some]
    intro holder hholder
    obtain ⟨hancestor, hhas⟩ := Frames.holder?_eq_some_iff.1 hholder
    obtain rfl := Option.some.inj hancestor
    rw [h name hhas] at hget
    cases hget

end

/-- While an accepted source runs, in a session of any earlier runs, an assignment to a name that has a
distance fails with its value.  When there is a value, the frame at this distance has the variable and
takes the value, unless the assignment stands in the initializer of the variable: then it fails, since
the variable is not there yet. -/
theorem assignment_fails_only_in_own_initializer (limit? : Option Nat) (clock : Clock)
    (steps : List (Nat × String)) (source : String) (s : Session)
    (hs : s = (Session.start limit? clock).runAll steps) (haccepts : s.accepts source = true)
    {trail : List Step} {m : Machine} {id : NodeId} {name : Token} {value : Expr NodeId}
    {distance : Nat}
    (hduring : During (s.bindingsFor source) (.execEach (s.program source)) s.ready trail
      (.eval (.assign id name value)) m)
    (hdistance : (s.bindingsFor source).distance? id = some distance) :
    ∃ v, (∀ w, VisitAt (Visited ((Session.start limit? clock).programsRun steps ++
        [s.program source])) (.program (s.program source)) trail w ↔ w = v) ∧
      v.code = .expr (.assign id name value) ∧ ∀ fuel,
      (∀ stop m', eval (s.bindingsFor source) fuel value m = .error stop m' →
        eval (s.bindingsFor source) (fuel + 1) (.assign id name value) m = .error stop m') ∧
      ∀ x m', eval (s.bindingsFor source) fuel value m = .ok x m' →
        (isIncomplete v.scopes name.lexeme = true →
          eval (s.bindingsFor source) (fuel + 1) (.assign id name value) m =
            .error (.failed (.fault name.line (.undefinedVariable name.lexeme))) m') ∧
        (isIncomplete v.scopes name.lexeme = false →
          ∃ holder, m'.heap.frames.holder? m'.scope distance name.lexeme = some holder ∧
            eval (s.bindingsFor source) (fuel + 1) (.assign id name value) m =
              .ok x { m' with heap := m'.heap.define holder name.lexeme x }) := by
  have hsound := Session.sound_runAll (Session.sound_start limit? clock) steps
  rw [List.nil_append, ← hs] at hsound
  have hload := hsound.load haccepts
  have hclosed := visitsClosed hload.proper
  have hunique : ∀ w w', Visited _ w → Visited _ w' → ∀ id, id ∈ w.code.own → id ∈ w'.code.own →
      w = w' := fun _ _ hw hw' _ => Visited.eq_of_own hload.nodup hw hw'
  obtain ⟨v, htrail, hv, hexact⟩ :=
    exact_during hclosed hunique (hsound.placed haccepts) trivial hduring
  obtain ⟨hcode, hm⟩ := hv.fits
  refine ⟨v, fun w => ⟨fun hw => visitAt_unique hunique hw htrail, fun hw => hw ▸ htrail⟩, hcode,
    fun fuel => ⟨fun stop m' hvalue => ?_, fun x m' hvalue => ⟨fun hown => ?_, fun hother => ?_⟩⟩⟩
  · rw [eval_assign hdistance, hvalue]
  all_goals
    have hrecorded : distance? v.scopes name.lexeme = some distance :=
      (hload.distance_of_use hv.mem (Visit.use_of_assign hcode)).symm.trans hdistance
    have hreturns : Returns (eval (s.bindingsFor source) · value) m x m' := ⟨fuel, hvalue⟩
    rw [eval_assign hdistance, hvalue]
  -- computing the value declares nothing, so that the variable is as absent as before
  · obtain ⟨_, hinner⟩ :=
      (placed_invariant hclosed (s.bindingsFor source)).part ⟨v, hv⟩ .assigned hv.grounded
    have hexact' := OnlyComplete.after_eval hclosed hinner hreturns hexact
    simp only [hexact'.holder hown hrecorded]
  · obtain ⟨holder, hholder⟩ :=
      (mirrors_of_eval hreturns hm).holder hrecorded ((hload.tidy hv.mem).complete hother)
    exact ⟨holder, hholder, by simp only [hholder]⟩

/-- In a block that declares `a` and then assigns to it, the assignment has a distance and succeeds. -/
theorem block_assigns_own_variable :
    ∃ trail m m',
      During ((Session.start none (.startingAt 0)).bindingsFor "\x7b var a; a = nil; \x7d")
        (.execEach ((Session.start none (.startingAt 0)).program "\x7b var a; a = nil; \x7d"))
        (Session.start none (.startingAt 0)).ready trail
        (.eval (.assign 0 ⟨.symbol .identifier, "a", 1⟩ (.literal .nil))) m ∧
      eval ((Session.start none (.startingAt 0)).bindingsFor "\x7b var a; a = nil; \x7d") 2
        (.assign 0 ⟨.symbol .identifier, "a", 1⟩ (.literal .nil)) m = .ok .nil m' := by
  have hprogram : (Session.start none (.startingAt 0)).program "\x7b var a; a = nil; \x7d" =
      [.block [.var ⟨.symbol .identifier, "a", 1⟩ none,
        .expr (.assign 0 ⟨.symbol .identifier, "a", 1⟩ (.literal .nil))]] := by cbv
  have hduring : During ((Session.start none (.startingAt 0)).bindingsFor "\x7b var a; a = nil; \x7d")
      (.execEach [.block [.var ⟨.symbol .identifier, "a", 1⟩ none,
        .expr (.assign 0 ⟨.symbol .identifier, "a", 1⟩ (.literal .nil))]])
      (Session.start none (.startingAt 0)).ready _
      (.eval (.assign 0 ⟨.symbol .identifier, "a", 1⟩ (.literal .nil))) _ :=
    (((((During.start.part .firstStatement).part (.block rfl)).part .statements).part
      (.otherStatements ⟨1, rfl⟩)).part .firstStatement).part .expression
  rw [← hprogram] at hduring
  obtain ⟨v, htrail, hcode, hfails⟩ :=
    assignment_fails_only_in_own_initializer none (.startingAt 0) [] "\x7b var a; a = nil; \x7d"
      (Session.start none (.startingAt 0)) rfl (by decide +kernel) hduring
      (show _ = some 0 by decide +kernel)
  -- the assignment is visited after the declaration of `a`
  rw [hprogram] at htrail
  obtain rfl := (htrail _).1 ⟨_, ⟨_, ⟨_, ⟨_, ⟨_, ⟨_, rfl, rfl⟩, rfl⟩, rfl⟩, rfl⟩, rfl⟩, rfl⟩
  obtain ⟨holder, -, hassigned⟩ := ((hfails 1).2 .nil _ rfl).2 rfl
  exact ⟨_, _, _, hduring, hassigned⟩

/-- The check accepts `var a = a = nil;` in a block and gives the assignment the distance 0.  When it
runs, its value is computed, and then it fails since there is no `a`. -/
theorem assignment_in_own_initializer_fails :
    (Session.start none (.startingAt 0)).accepts "\x7b var a = a = nil; \x7d" = true ∧
    ((Session.start none (.startingAt 0)).bindingsFor "\x7b var a = a = nil; \x7d").distance? 0 = some 0 ∧
    (∃ trail m m',
      During ((Session.start none (.startingAt 0)).bindingsFor "\x7b var a = a = nil; \x7d")
        (.execEach ((Session.start none (.startingAt 0)).program "\x7b var a = a = nil; \x7d"))
        (Session.start none (.startingAt 0)).ready trail
        (.eval (.assign 0 ⟨.symbol .identifier, "a", 1⟩ (.literal .nil))) m ∧
      eval ((Session.start none (.startingAt 0)).bindingsFor "\x7b var a = a = nil; \x7d") 1
        (.literal .nil) m = .ok .nil m' ∧
      eval ((Session.start none (.startingAt 0)).bindingsFor "\x7b var a = a = nil; \x7d") 2
        (.assign 0 ⟨.symbol .identifier, "a", 1⟩ (.literal .nil)) m =
          .error (.failed (.fault 1 (.undefinedVariable "a"))) m') ∧
    ((Session.start none (.startingAt 0)).run 9 "\x7b var a = a = nil; \x7d").1.errors =
      [.running (.fault 1 (.undefinedVariable "a"))] := by
  have hprogram : (Session.start none (.startingAt 0)).program "\x7b var a = a = nil; \x7d" =
      [.block [.var ⟨.symbol .identifier, "a", 1⟩
        (some (.assign 0 ⟨.symbol .identifier, "a", 1⟩ (.literal .nil)))]] := by cbv
  have hdistance : ((Session.start none (.startingAt 0)).bindingsFor
      "\x7b var a = a = nil; \x7d").distance? 0 = some 0 := by decide +kernel
  have hduring : During ((Session.start none (.startingAt 0)).bindingsFor "\x7b var a = a = nil; \x7d")
      (.execEach [.block [.var ⟨.symbol .identifier, "a", 1⟩
        (some (.assign 0 ⟨.symbol .identifier, "a", 1⟩ (.literal .nil)))]])
      (Session.start none (.startingAt 0)).ready _
      (.eval (.assign 0 ⟨.symbol .identifier, "a", 1⟩ (.literal .nil))) _ :=
    ((((During.start.part .firstStatement).part (.block rfl)).part .statements).part
      .firstStatement).part .varInitializer
  rw [← hprogram] at hduring
  refine ⟨by decide +kernel, hdistance, ⟨_, _, _, hduring, rfl, ?_⟩, by decide +kernel⟩
  rw [eval_assign hdistance]
  rfl

end LoxLang
