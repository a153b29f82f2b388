import Mathlib
import LoxLang.Proofs.Alike.Session
import LoxLang.Proofs.Renaming.Place

/-!
# Runs of a renamed program

Renaming a local variable changes nothing that can be seen (`renaming_keeps_runs`): the renamed program
is accepted with the same table of distances, and with any fuel it runs to the same end, prints the same
and leaves the same global variables, in a session after any earlier runs.

Before the run no frame is marked, and the machine is its own twin (`Heap.Twin.refl`).
-/

namespace LoxLang

open Scoping Evaluation

/-! ### The global frame -/

/-- No frame lies around the global one. -/
def Rooted (fs : Frames) : Prop := globalFrame < fs.next ∧ fs.enclosing? globalFrame = none

theorem Rooted.push {fs : Frames} (h : Rooted fs) (f : Frame) : Rooted (fs.push f) := by
  refine ⟨?_, ?_⟩
  · rw [Frames.next_push]
    exact Nat.lt_succ_of_lt h.1
  · rw [Frames.enclosing?_push, if_neg (Nat.ne_of_lt h.1), h.2]

theorem Rooted.define {fs : Frames} (h : Rooted fs) (id : FrameId) (name : String) (v : Value) :
    Rooted (fs.define id name v) := by
  rw [Rooted, Frames.next_define, Frames.enclosing?_define]
  exact h

theorem rooted_stable : Stable fun m m' => Rooted m.heap.frames → Rooted m'.heap.frames where
  refl _ := id
  trans h h' := h' ∘ h
  addFrame _ f h := h.push f
  addFunction _ _ := id
  addClass _ _ := id
  addInstance _ _ := id
  define _ frame name v h := h.define frame name v
  setField _ _ _ _ := id
  print _ _ := id
  tick _ := id
  inCall h := h
  inFrame h := h

theorem rooted_initial : Rooted Heap.initial.frames := ⟨Nat.succ_pos 0, rfl⟩

theorem rooted_run (s : Session) (fuel : Nat) (source : String) (hs : Rooted s.machine.heap.frames) :
    Rooted (s.run fuel source).2.machine.heap.frames := by
  cases h : s.accepts source with
  | true =>
    rw [Session.run_of_accepts h]
    exact rooted_stable.after (s.bindingsFor source) fuel s.ready (.execEach (s.program source)) hs
  | false =>
    obtain ⟨bindings, -, hrun⟩ := Session.run_of_not_accepts h fuel
    rw [hrun]
    exact hs

/-! ### A machine is its own twin -/

section

variable {d : Difference} {fs : Frames} {heap : Heap} {visited : Visit → Prop}

theorem true_notMem_map (scopes : Scopes) : true ∉ scopes.map fun _ => false := by simp

theorem Pairwise₂.refl {α : Type} {Rel : α → α → Prop} {as : Array α}
    (h : ∀ (i : Nat) (a : α), as[i]? = some a → Rel a a) : Pairwise₂ Rel as as := by
  refine ⟨rfl, fun i => ?_⟩
  cases ha : as[i]? with
  | none => exact .none
  | some a => exact .some (h i a ha)

theorem GroundedFunction.twin (hd : d.Allows Eq Eq) {c : Closure}
    (h : GroundedFunction visited fs c.decl c.frame) :
    TwinClosure d (fun _ => false) fs [] c c := by
  obtain ⟨w, kind, -, -, hm⟩ := h
  exact ⟨rfl, rfl, _, .of_mirrors hm, .refl hd (true_notMem_map w.scopes) c.decl⟩

theorem GroundedMethod.twin (hd : d.Allows Eq Eq) {c : Closure}
    (h : GroundedMethod visited fs c.decl c.frame) :
    TwinClosure d (fun _ => false) fs [false] c c := by
  obtain ⟨w, kind, scopes, -, -, -, hm⟩ := h
  exact ⟨rfl, rfl, _, .of_mirrors hm, .refl hd (unmarked_cons (true_notMem_map scopes)) c.decl⟩

theorem Heap.Twin.refl (hd : d.Allows Eq Eq) (hg : Grounded visited heap)
    (hrooted : Rooted heap.frames) : heap.Twin d (fun _ => false) heap where
  frames := .refl _
  global := hg.global
  globalMark := rfl
  globalLast := hrooted.2
  functions := .refl fun _ _ hc => (hg.functions hc).twin hd
  classes := by
    refine .refl fun id k hk => ⟨rfl, fun name => ?_⟩
    cases hc : k.methods.get? name with
    | none => exact .none
    | some c =>
      have hmethod : heap.method? id name = some c := by rw [Heap.method?, hk]; exact hc
      exact .some ((hg.methods hmethod).twin hd)
  instances := rfl

theorem Machine.Twin.refl (hd : d.Allows Eq Eq) {m : Machine} (hg : Grounded visited m.heap)
    (hrooted : Rooted m.heap.frames) : m.Twin d (fun _ => false) m where
  heap := .refl hd hg hrooted
  scope := rfl
  depth := rfl
  sink := rfl
  clock := rfl

end

/-! ### The table of distances -/

theorem Bindings.recordUse_congr {u u' : NameUse} (h : u'.place = u.place) (b : Bindings) :
    b.recordUse u' = b.recordUse u := by
  obtain ⟨hid, hdistance⟩ := Prod.mk.inj h
  rw [recordUse, recordUse, hid, hdistance]

/-- The table does not depend on the names. -/
theorem Bindings.recordUses_congr {uses uses' : List NameUse}
    (h : uses'.map NameUse.place = uses.map NameUse.place) (b : Bindings) :
    b.recordUses uses' = b.recordUses uses := by
  induction uses generalizing uses' b with
  | nil => rw [List.map_eq_nil_iff.1 h]
  | cons u uses ih =>
    obtain ⟨u', uses', rfl, hu, huses⟩ := List.map_eq_cons_iff.1 h
    change (b.recordUse u').recordUses uses' = (b.recordUse u).recordUses uses
    rw [recordUse_congr hu, ih huses]

/-! ### Reports -/

/-- The same error, but for the name of the variable that was not found. -/
def RunError.Twin (old new : String) (e e' : RunError) : Prop :=
  e' = e ∨ ∃ line, e = .fault line (.undefinedVariable old) ∧
    e' = .fault line (.undefinedVariable new)

theorem RunError.Alike.twin {b : Bindings} {old new : String} {hold : old ≠ thisName}
    {hnew : new ≠ thisName} {e e' : RunError} (h : e.Alike (.renaming b hold hnew) e') :
    e.Twin old new e' := by
  cases h with
  | @fault t t' f hline => exact .inl (by rw [show t'.line = t.line from hline])
  | @undefined t t' hline => exact .inr ⟨t.line, rfl, by rw [show t'.line = t.line from hline]; rfl⟩
  | sinkFull => exact .inl rfl

/-- The same error of a run, but for the name of the variable that was not found. -/
inductive Diagnostic.Twin (old new : String) : Diagnostic → Diagnostic → Prop where
  | running {e e'} : RunError.Twin old new e e' → Diagnostic.Twin old new (.running e) (.running e')

/-- The reports of two runs say the same. -/
structure RunReport.Twin (old new : String) (r r' : RunReport) : Prop where
  outcome : r'.outcome = r.outcome
  printed : r'.printed = r.printed
  errors : List.Forall₂ (Diagnostic.Twin old new) r.errors r'.errors

/-- Two programs run alike: the reports say the same, and the global variables are the same
afterwards. -/
def Session.RunAlike (s : Session) (old new : String) (fuel : Nat) (P P' : List (Stmt NodeId)) :
    Prop :=
  (s.execute fuel P).1.Twin old new (s.execute fuel P').1 ∧
    ∀ name, (s.execute fuel P').2.global? name = (s.execute fuel P).2.global? name

theorem RunReport.Alike.twin {b : Bindings} {old new : String} {hold : old ≠ thisName}
    {hnew : new ≠ thisName} {r r' : RunReport} (h : r.Alike (.renaming b hold hnew) r') :
    r.Twin old new r' where
  outcome := h.outcome
  printed := h.printed
  errors := h.errors.imp fun _ _ he => by
    obtain ⟨e, e', rfl, rfl, halike⟩ := he
    exact .running halike.twin

/-- Runs that end alike are reported alike. -/
theorem Simulates.runAlike {s : Session} {old new : String} {hold : old ≠ thisName}
    {hnew : new ≠ thisName} {w : World} {fuel : Nat} {P P' : List (Stmt NodeId)}
    (h : Simulates (.renaming s.bindings hold hnew) (Unwind.Alike (.renaming s.bindings hold hnew)) w
      s.ready (execEach s.bindings fuel P s.ready) (execEach s.bindings fuel P' s.ready)) :
    s.RunAlike old new fuel P P' := by
  obtain ⟨hreport, w', hm⟩ := h.conclude s s rfl
  rw [Session.RunAlike, Session.execute_eq, Session.execute_eq]
  refine ⟨hreport.twin, fun name => ?_⟩
  simpa only [Session.global?, Session.conclude_snd] using hm.global name

/-! ### Programs -/

/-- A program that can run next: its labels are new, and the scope check finds no fault in it. -/
structure Session.Runnable (s : Session) (P : List (Stmt NodeId)) : Prop where
  proper : Stmt.ProperEach P
  nodup : (Stmt.labelsEach P).Nodup
  fresh : ∀ id ∈ Stmt.labelsEach P, s.nextId ≤ id
  checked : (check P).errors = []

/-- The programs of accepted sources can run. -/
theorem Session.runnable_program {s : Session} {source : String} (h : s.accepts source = true) :
    s.Runnable (s.program source) where
  proper := program_proper h
  nodup := (s.program_labels source).nodup
  fresh _ hid := ((s.program_labels source).mem_iff.1 hid).1
  checked := check_program h

/-- Giving a local variable of an accepted program a name that the program does not use changes
nothing.  The renamed program is accepted and leaves the same table of distances.  With any fuel both
programs end in the same way, print the same, and fail with the same error, but for the name of the
variable in it; and they leave the same global variables. -/
theorem renaming_keeps_runs (limit? : Option Nat) (clock : Clock) (steps : List (Nat × String))
    {P P' : List (Stmt NodeId)} {old new : String}
    (hP : ((Session.start limit? clock).runAll steps).Runnable P)
    (hfresh : Stmt.AvoidEach new P) (hnew : new ≠ thisName)
    (hrenames : Renames old new (.program P) (.stmts P')) :
    let s := (Session.start limit? clock).runAll steps
    (s.checkScopes P').1 = [] ∧ (s.checkScopes P').2 = (s.checkScopes P).2 ∧
      ∀ fuel, (s.checkScopes P).2.RunAlike old new fuel P P' := by
  intro s
  have hcheck : (check P).Twin (check P') := (hrenames.check hP.proper hfresh hnew hP.checked).report
  refine ⟨?_, ?_, fun fuel => ?_⟩
  · rw [Session.checkScopes, hcheck.errors hP.checked]
    rfl
  · rw [Session.checkScopes, Session.checkScopes, Bindings.recordUses_congr hcheck.uses]
  · have hsound := Session.sound_runAll (Session.sound_start limit? clock) steps
    have hrooted : Rooted s.machine.heap.frames :=
      Session.runAll_induction rooted_run rooted_initial steps
    have hholds : (s.bindings.recordUses (check P).uses).Holds (check P).uses := fun u hu =>
      Bindings.distance?_recordUses (Visit.uses_nodup (v := .program P) hP.nodup) hu
        (hsound.unused u.id (hP.fresh u.id (Visit.mem_labels_of_mem_uses (v := .program P) hu)))
    have hold := (hrenames.valid hP.proper hfresh hnew 0).old
    have halike := hrenames.alike hP.proper hfresh hold hnew hP.checked hholds
    exact Simulates.runAlike ((simulatesAll (.renaming _ hold hnew) fuel).execEach
      (Machine.Twin.refl (m := s.ready) Difference.renaming_allows hsound.grounded hrooted)
      (show Chain (fun _ => false) s.machine.heap.frames [] globalFrame from rfl) halike)

/-- A block with a variable of the given name, which a closure assigns and reads. -/
def capturingBlock (name : String) : List (Stmt NodeId) :=
  let variableName : Token := ⟨.symbol .identifier, name, 1⟩
  let functionName : Token := ⟨.symbol .identifier, "f", 1⟩
  [.block [.var variableName none,
    .function ⟨0, functionName, [],
      [.expr (.assign 1 variableName (.literal .nil)), .print (.var 2 variableName)]⟩,
    .expr (.call (.var 3 functionName) ⟨.symbol .rightParen, ")", 1⟩ [])]]

/-- A block whose variable is captured by a closure runs the same when the variable has another
name. -/
theorem captured_variable_renamed :
    let s := Session.start none (.startingAt 0)
    s.program "\x7b var a; fun f() \x7b a = nil; print a; \x7d f(); \x7d" = capturingBlock "a" ∧
      (s.checkScopes (capturingBlock "b")).1 = [] ∧
      ∀ fuel, (s.checkScopes (capturingBlock "a")).2.RunAlike "a" "b" fuel (capturingBlock "a")
        (capturingBlock "b") := by
  intro s
  have hprogram : s.program "\x7b var a; fun f() \x7b a = nil; print a; \x7d f(); \x7d" =
      capturingBlock "a" := by cbv
  have hP : s.Runnable (capturingBlock "a") := by
    rw [← hprogram]
    exact Session.runnable_program (by decide +kernel)
  have hfresh : Stmt.AvoidEach "b" (capturingBlock "a") := by
    simp [capturingBlock, Stmt.AvoidEach, Stmt.Avoids, Stmt.AvoidFunction, Expr.Avoids,
      Expr.Avoids?, Expr.AvoidEach]
  have hrenames : Renames "a" "b" (.program (capturingBlock "a")) (.stmts (capturingBlock "b")) :=
    .head (.inBlock ⟨_, _, .head _, rfl⟩)
  obtain ⟨haccepted, -, hruns⟩ := renaming_keeps_runs none (.startingAt 0) [] hP hfresh (by decide)
    hrenames
  exact ⟨hprogram, haccepted, hruns⟩

end LoxLang
