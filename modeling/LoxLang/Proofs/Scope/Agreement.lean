import Mathlib
import LoxLang.Proofs.Scope.Programs

/-!
# Scopes and frames agree

At every moment of a run of a checked source, in a session of any earlier runs, the frames from the
one that runs out to the global one mirror the scopes with which the scope check visited the part
that is about to run (`frames_mirror_scopes`).  So a variable that has a distance is found there.
-/

namespace LoxLang

open Scoping Evaluation

/-- The part of a tree that a task is about. -/
def Evaluation.Task.code? : Task → Option Code
  | .eval e => some (.expr e)
  | .evalEach es => some (.exprs es)
  | .exec s => some (.stmt s)
  | .loop condition body => some (.stmt (.whileLoop condition body))
  | .execEach ss => some (.stmts ss)
  | .call _ _ _ | .dispatch _ _ _ | .apply _ _ | .execBlock _ _ => none

/-- The occurrence of a name that an expression reads. -/
def Expr.read? {α : Type} : Expr α → Option (α × Token)
  | .var label name => some (label, name)
  | .thisRef label keyword => some (label, keyword)
  | _ => none

section

variable {visited : Visit → Prop} {v : Visit} {b : Bindings} {m : Machine}

/-- A task about a part of a tree runs where the frames mirror the scopes of the visit. -/
theorem Placed.mirrors {t : Task} {code : Code} (hp : Placed visited v t m)
    (hcode : t.code? = some code) :
    v.code = code ∧ Mirrors m.heap.frames v.scopes m.scope := by
  obtain ⟨-, -, hfits⟩ := hp
  cases t with
  | eval | evalEach | exec | loop | execEach => obtain rfl := Option.some.inj hcode; exact hfits
  | call | dispatch | apply | execBlock => cases hcode

/-- The frames mirror the same scopes when the task has ended. -/
theorem Mirrors.after {scopes : Scopes} (hm : Mirrors m.heap.frames scopes m.scope) (fuel : Nat)
    (t : Task) :
    Mirrors (t.after b fuel m).heap.frames scopes (t.after b fuel m).scope := by
  rw [(samePlace_stable.after b fuel m t).1]
  exact hm.grow (grows_stable.after b fuel m t)

end

/-- Where the check finds no fault, the declaration of a name that is read is complete. -/
theorem Scoping.Visit.complete_of_read {v : Visit} {e : Expr NodeId} {id : NodeId} {name : Token}
    (hcode : v.code = .expr e) (he : e.read? = some (id, name)) (hproper : v.code.Proper)
    (htidy : v.Tidy) (herrors : v.report.errors = []) :
    ∀ scope ∈ v.scopes, scope.get? name.lexeme ≠ some false := by
  refine htidy.complete ?_
  obtain ⟨code, ctx, scopes⟩ := v
  obtain rfl := hcode
  cases e with
  | var id' name' =>
    cases he
    rw [Bool.eq_false_iff]
    intro hincomplete
    simp [report, Code.pass, Scoping.expr, Pass.append_apply, refuseIncomplete, hincomplete,
      Pass.faultIf, Pass.fault] at herrors
  | thisRef id' keyword =>
    cases he
    rw [show name.lexeme = thisName from hproper]
    exact htidy.this_complete
  | _ => cases he

/-- A name that is read without a fault is traced. -/
theorem Scoping.Visit.use_of_read {v : Visit} {e : Expr NodeId} {id : NodeId} {name : Token}
    (hcode : v.code = .expr e) (he : e.read? = some (id, name)) (herrors : v.report.errors = []) :
    ⟨id, name.lexeme, distance? v.scopes name.lexeme⟩ ∈ v.report.uses := by
  obtain ⟨code, ctx, scopes⟩ := v
  obtain rfl := hcode
  cases e with
  | var id' name' =>
    cases he
    simp [report, Code.pass, Scoping.expr, Pass.append_apply, refuseIncomplete, trace]
  | thisRef id' keyword =>
    cases he
    simp only [report, Code.pass, Scoping.expr] at herrors ⊢
    split_ifs at herrors ⊢
    · simp [trace]
    · simp [Pass.fault] at herrors
  | _ => cases he

/-- A name that has a distance is found at this distance, where the frames mirror the scopes. -/
theorem eval_of_read {b : Bindings} {m : Machine} {e : Expr NodeId} {id : NodeId} {name : Token}
    {distance : Nat} {scopes : Scopes} (he : e.read? = some (id, name))
    (hb : b.distance? id = some distance) (hdistance : distance? scopes name.lexeme = some distance)
    (hm : Mirrors m.heap.frames scopes m.scope)
    (hcomplete : ∀ scope ∈ scopes, scope.get? name.lexeme ≠ some false) :
    ∃ value, ∀ fuel, eval b (fuel + 1) e m = .ok value m := by
  obtain ⟨holder, hholder⟩ := hm.holder hdistance hcomplete
  obtain ⟨value, hvalue⟩ := Frames.has_iff.1 (Frames.holder?_eq_some_iff.1 hholder).2
  have hread : readVariable b id name m = .ok value m := by
    simp [readVariable, place, hb, Frames.getAt?, hholder, hvalue]
  refine ⟨value, fun fuel => ?_⟩
  cases e with
  | var | thisRef => cases he; rw [eval, hread]
  | _ => cases he

/-- While an accepted source runs, in a session of any earlier runs, each part of a tree runs where
the frames mirror the scopes of its visit: the one visit to which the scope check comes by the steps
of the run.  So they do when the part has ended, and a name of the part that has a distance has a
value. -/
theorem frames_mirror_scopes (limit? : Option Nat) (clock : Clock) (steps : List (Nat × String))
    (source : String) (s : Session) (hs : s = (Session.start limit? clock).runAll steps)
    (haccepts : s.accepts source = true) {trail : List Step} {t : Task} {m : Machine} {code : Code}
    (hduring : During (s.bindingsFor source) (.execEach (s.program source)) s.ready trail t m)
    (hcode : t.code? = some code) :
    ∃ v, (∀ w, VisitAt (Visited ((Session.start limit? clock).programsRun steps ++
        [s.program source])) (.program (s.program source)) trail w ↔ w = v) ∧
      v.code = code ∧ Mirrors m.heap.frames v.scopes m.scope ∧
      (∀ fuel, Mirrors (t.after (s.bindingsFor source) fuel m).heap.frames v.scopes
        (t.after (s.bindingsFor source) fuel m).scope) ∧
      ∀ e id name distance, code = .expr e → e.read? = some (id, name) →
        (s.bindingsFor source).distance? id = some distance →
        ∃ value, ∀ fuel, eval (s.bindingsFor source) (fuel + 1) e m = .ok value m := by
  have hsound := Session.sound_runAll (Session.sound_start limit? clock) steps
  rw [List.nil_append, ← hs] at hsound
  -- a trail may lead into functions of earlier programs, so that all of them are visited
  have hload := hsound.load haccepts
  obtain ⟨v, htrail, hv⟩ :=
    placed_during (visitsClosed hload.proper) (hsound.placed haccepts) hduring
  obtain ⟨hvcode, hm⟩ := hv.mirrors hcode
  have hunique {w : Visit} (hw : VisitAt _ (.program (s.program source)) trail w) : w = v :=
    visitAt_unique (fun _ _ hw hw' _ => Visited.eq_of_own hload.nodup hw hw') hw htrail
  refine ⟨v, fun w => ⟨hunique, fun hw => hw ▸ htrail⟩, hvcode, hm, fun fuel => hm.after fuel t, ?_⟩
  rintro e id name distance rfl he hdistance
  obtain ⟨program, hprogram, hreaches⟩ := hv.mem
  have hproper := hload.proper program hprogram
  have herrors : v.report.errors = [] :=
    List.subset_nil.1 (hload.checked program hprogram ▸ hreaches.errors_subset)
  have huse := hreaches.uses_subset (Visit.use_of_read hvcode he herrors)
  have hrecorded := hload.recorded program hprogram _ huse
  exact eval_of_read he hdistance (hrecorded.symm.trans hdistance) hm
    (Visit.complete_of_read hvcode he (hreaches.proper hproper)
      (hreaches.tidy hproper (.inl nofun)) herrors)

/-- In a block that declares `a` and then reads it, the read has a distance and finds a value. -/
theorem block_reads_own_variable :
    ∃ trail m value,
      During ((Session.start none (.startingAt 0)).bindingsFor "\x7b var a; a; \x7d")
        (.execEach ((Session.start none (.startingAt 0)).program "\x7b var a; a; \x7d"))
        (Session.start none (.startingAt 0)).ready trail
        (.eval (.var 0 ⟨.symbol .identifier, "a", 1⟩)) m ∧
      ∀ fuel, eval ((Session.start none (.startingAt 0)).bindingsFor "\x7b var a; a; \x7d")
        (fuel + 1) (.var 0 ⟨.symbol .identifier, "a", 1⟩) m = .ok value m := by
  have hprogram : (Session.start none (.startingAt 0)).program "\x7b var a; a; \x7d" =
      [.block [.var ⟨.symbol .identifier, "a", 1⟩ none,
        .expr (.var 0 ⟨.symbol .identifier, "a", 1⟩)]] := by cbv
  have hduring : During ((Session.start none (.startingAt 0)).bindingsFor "\x7b var a; a; \x7d")
      (.execEach [.block [.var ⟨.symbol .identifier, "a", 1⟩ none,
        .expr (.var 0 ⟨.symbol .identifier, "a", 1⟩)]]) (Session.start none (.startingAt 0)).ready _
      (.eval (.var 0 ⟨.symbol .identifier, "a", 1⟩)) _ :=
    (((((During.start.part .firstStatement).part (.block rfl)).part .statements).part
      (.otherStatements ⟨1, rfl⟩)).part .firstStatement).part .expression
  rw [← hprogram] at hduring
  obtain ⟨-, -, -, -, -, hread⟩ :=
    frames_mirror_scopes none (.startingAt 0) [] "\x7b var a; a; \x7d" _ rfl (by decide +kernel)
      hduring rfl
  obtain ⟨value, hvalue⟩ := hread _ _ _ 0 rfl rfl (by decide +kernel)
  exact ⟨_, _, value, hduring, hvalue⟩

end LoxLang
