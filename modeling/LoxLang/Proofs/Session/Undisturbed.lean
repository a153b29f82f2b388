import LoxLang.Proofs.Drawn.Session
import LoxLang.Proofs.Heap.Kept
import LoxLang.Proofs.Run.Tables

/-!
# Distances that stay

A session numbers each program that it reads from the next unused number on, and the scope check of a
program notes distances for labels of that program only.  So no step touches the distances of the programs
before it, whether it succeeds or fails (`Session.Undisturbed`), and all labels differ
(`Session.Labelled`).  The functions and methods on the heap have bodies from these programs, so they look
their names up at the same places for ever (`bindings_are_never_disturbed`).

All this holds in both ways of numbering a program.
-/

namespace LoxLang

open Scoping Evaluation

namespace Session

variable {s s' : Session} {p : SourceProgram} {programs : List (List (Stmt NodeId))}

/-- The session after a program: the errors of reading keep it from the check, and those of the check keep
it from running. -/
theorem runProgram_cases (s : Session) (fuel : Nat) (p : SourceProgram) :
    p.errors ≠ [] ∧ (s.runProgram fuel p).2 = { s with nextId := p.nextId } ∨
      p.errors = [] ∧ ((s.runProgram fuel p).2 = s.checked p ∨
        (s.runProgram fuel p).2 = { s.checked p with
          machine := (Task.execEach p.statements).after (s.checked p).bindings fuel s.ready }) := by
  by_cases hread : p.errors = []
  · refine .inr ⟨hread, ?_⟩
    by_cases hscopes : (check p.statements).errors = []
    · rw [runProgram_accepted hread hscopes, conclude_snd]
      exact .inr rfl
    · rw [runProgram_misscoped hread hscopes]
      exact .inl rfl
  · rw [runProgram_unread hread]
    exact .inl ⟨hread, rfl⟩

/-- Only a program that could be read brings distances. -/
theorem bindings_runProgram (s : Session) (fuel : Nat) (p : SourceProgram) :
    (s.runProgram fuel p).2.bindings =
      if p.errors = [] then (s.checked p).bindings else s.bindings := by
  obtain ⟨hread, hrun⟩ | ⟨hread, hrun | hrun⟩ := runProgram_cases s fuel p
  · rw [hrun, if_neg hread]
  · rw [hrun, if_pos hread]
  · rw [hrun, if_pos hread]

/-! ### What a step leaves alone -/

/-- The second session has the distances that the first one has given out, and its heap. -/
structure Undisturbed (s s' : Session) : Prop where
  nextId : s.nextId ≤ s'.nextId
  distance : ∀ id < s.nextId, s'.bindings.distance? id = s.bindings.distance? id
  heap : s.machine.heap.Kept s'.machine.heap

namespace Undisturbed

theorem refl (s : Session) : s.Undisturbed s := ⟨Nat.le_refl _, fun _ _ => rfl, .refl _⟩

theorem trans {s'' : Session} (h : s.Undisturbed s') (h' : s'.Undisturbed s'') : s.Undisturbed s'' where
  nextId := h.nextId.trans h'.nextId
  distance id hid :=
    (h'.distance id (Nat.lt_of_lt_of_le hid h.nextId)).trans (h.distance id hid)
  heap := h.heap.trans h'.heap

theorem runProgram (hp : p.Fresh s.nextId) (fuel : Nat) : s.Undisturbed (s.runProgram fuel p).2 := by
  have hdistance : ∀ id < s.nextId, (s.checked p).bindings.distance? id = s.bindings.distance? id :=
    fun id hid => distance?_checked hp (.inl hid)
  obtain ⟨-, hrun⟩ | ⟨-, hrun | hrun⟩ := runProgram_cases s fuel p
  · rw [hrun]
    exact ⟨hp.le, fun _ _ => rfl, .refl _⟩
  · rw [hrun]
    exact ⟨hp.le, hdistance, .refl _⟩
  · rw [hrun]
    exact ⟨hp.le, hdistance, kept_stable.after _ fuel s.ready _⟩

theorem answerBy (k : Numbering) (s : Session) (step : SessionStep) :
    s.Undisturbed (s.answerBy k step).2 := by
  cases step with
  | run fuel source => exact .runProgram (k.fresh _ source) fuel
  | get name => exact .refl s
  | eq left right => exact .refl s

theorem afterBy (k : Numbering) (s : Session) (steps : List SessionStep) :
    s.Undisturbed (s.afterBy k steps) := by
  induction steps generalizing s with
  | nil => exact .refl s
  | cons step steps ih => exact (answerBy k s step).trans (ih _)

end Undisturbed

/-! ### The labels of a session -/

/-- The labels of the programs that have been read differ and are used up, unused numbers have no
distance, and the code on the heap comes from the programs. -/
structure Labelled (programs : List (List (Stmt NodeId))) (s : Session) : Prop where
  nodup : (programs.flatMap Stmt.labelsEach).Nodup
  used : ∀ id ∈ programs.flatMap Stmt.labelsEach, id < s.nextId
  unused : ∀ id, s.nextId ≤ id → s.bindings.distance? id = none
  code : s.machine.heap.Labelled (· ∈ programs.flatMap Stmt.labelsEach)

namespace Labelled

theorem start (limit? : Option Nat) (clock : Clock) : Labelled [] (start limit? clock) where
  nodup := List.nodup_nil
  used := nofun
  unused id _ := Bindings.distance?_empty id
  code := ⟨fun hc => by simp [Session.start, Machine.initial, Heap.initial] at hc,
    fun hc => by simp [Session.start, Machine.initial, Heap.initial, Heap.method?] at hc⟩

theorem runProgram (h : s.Labelled programs) (hp : p.Fresh s.nextId) (fuel : Nat) :
    (s.runProgram fuel p).2.Labelled (programs ++ [p.statements]) := by
  have hlabels : (programs ++ [p.statements]).flatMap Stmt.labelsEach =
      programs.flatMap Stmt.labelsEach ++ Stmt.labelsEach p.statements := by
    rw [List.flatMap_append, List.flatMap_singleton]
  -- the labels of the new program begin where those of the others end
  have hnodup : ((programs ++ [p.statements]).flatMap Stmt.labelsEach).Nodup := by
    rw [hlabels, List.nodup_append']
    exact ⟨h.nodup, hp.nodup, fun id hid hid' =>
      Nat.not_lt_of_le (hp.bounds id hid').1 (h.used id hid)⟩
  have hused : ∀ id ∈ (programs ++ [p.statements]).flatMap Stmt.labelsEach, id < p.nextId := by
    rw [hlabels]
    exact List.forall_mem_append.2
      ⟨fun id hid => Nat.lt_of_lt_of_le (h.used id hid) hp.le, fun id hid => (hp.bounds id hid).2⟩
  have hunused : ∀ id, p.nextId ≤ id → (s.checked p).bindings.distance? id = none := fun id hid =>
    (distance?_checked hp (.inr hid)).trans (h.unused id (hp.le.trans hid))
  have hcode : s.machine.heap.Labelled (· ∈ (programs ++ [p.statements]).flatMap Stmt.labelsEach) := by
    rw [hlabels]
    exact ⟨fun hc id hid => List.mem_append_left _ (h.code.functions hc id hid),
      fun hc id hid => List.mem_append_left _ (h.code.methods hc id hid)⟩
  obtain ⟨-, hrun⟩ | ⟨-, hrun | hrun⟩ := runProgram_cases s fuel p
  · rw [hrun]
    exact ⟨hnodup, hused, fun id hid => h.unused id (hp.le.trans hid), hcode⟩
  · rw [hrun]
    exact ⟨hnodup, hused, hunused, hcode⟩
  · rw [hrun]
    have hown : ∀ id ∈ (Task.execEach p.statements).labels,
        id ∈ (programs ++ [p.statements]).flatMap Stmt.labelsEach := fun id hid => by
      rw [hlabels]
      exact List.mem_append_right _ hid
    have hinv := labelled_invariant (s.checked p).bindings
      (· ∈ (programs ++ [p.statements]).flatMap Stmt.labelsEach)
    exact ⟨hnodup, hused, hunused, hinv.after (m := s.ready) ⟨hown, hcode⟩ fuel⟩

theorem afterBy (h : s.Labelled programs) (k : Numbering) (steps : List SessionStep) :
    (s.afterBy k steps).Labelled (programs ++ s.programsBy k steps) := by
  induction steps generalizing s programs with
  | nil => simpa [programsBy, Session.afterBy] using h
  | cons step steps ih =>
    cases step with
    | run fuel source =>
      rw [programsBy, ← List.singleton_append, ← List.append_assoc]
      exact ih (h.runProgram (k.fresh _ source) fuel)
    | get name => exact ih h
    | eq left right => exact ih h

end Labelled

theorem programsBy_append (k : Numbering) (s : Session) (steps later : List SessionStep) :
    s.programsBy k (steps ++ later) = s.programsBy k steps ++ (s.afterBy k steps).programsBy k later := by
  induction steps generalizing s with
  | nil => rfl
  | cons step steps ih =>
    cases step with
    | run fuel source => rw [List.cons_append, programsBy, ih, programsBy]; rfl
    | get name => exact ih s
    | eq left right => exact ih s

end Session

/-- All labels of all programs that a session reads differ, those that are refused included, however the
labels are numbered, and the session shows the same.  Before a program is read its labels have no
distance.  The scope check visits each of them at most once; then a label has the distance that was found
for it, if the program could be read and has got so far.  No later step changes, adds or removes the
distance of a label of this program or of one before it.  And every function and every method that is on
the heap by then stays as it is, and the names in its body are looked up at the same place whenever a
later source runs. -/
theorem bindings_are_never_disturbed (k : Numbering) (limit? : Option Nat) (clock : Clock)
    (before later : List SessionStep) (fuel : Nat) (source : String) :
    let start := Session.start limit? clock
    let s := start.afterBy k before
    let p := k.read s.nextId source
    let s₁ := (s.answerBy k (.run fuel source)).2
    let s₂ := s₁.afterBy k later
    let steps := before ++ .run fuel source :: later
    let programs := start.programsBy k before ++ [p.statements]
    let StaysBound (c : Closure) := ∀ id ∈ Stmt.labelsEach c.decl.body, ∀ source' m,
      place (s₂.checked (k.read s₂.nextId source')).bindings m id = place s₁.bindings m id
    start.answersBy k steps = start.answers steps ∧
      start.programsBy k steps = programs ++ s₁.programsBy k later ∧
      ((start.programsBy k steps).flatMap Stmt.labelsEach).Nodup ∧
      ((check p.statements).uses.map (·.id)).Nodup ∧
      (∀ id ∈ Stmt.labelsEach p.statements, s.bindings.distance? id = none ∧
        (p.errors ≠ [] ∨ id ∉ (check p.statements).uses.map (·.id) →
          s₁.bindings.distance? id = none)) ∧
      (p.errors = [] → ∀ u ∈ (check p.statements).uses, u.id ∈ Stmt.labelsEach p.statements ∧
        s₁.bindings.distance? u.id = u.distance?) ∧
      (∀ id ∈ programs.flatMap Stmt.labelsEach,
        s₂.bindings.distance? id = s₁.bindings.distance? id) ∧
      (∀ (f : FunctionId) c, s₁.machine.heap.functions[f]? = some c →
        s₂.machine.heap.functions[f]? = some c ∧ StaysBound c) ∧
      (∀ (f : ClassId) name c, s₁.machine.heap.method? f name = some c →
        s₂.machine.heap.method? f name = some c ∧ StaysBound c) := by
  intro start s p s₁ s₂ steps programs StaysBound
  have hp : p.Fresh s.nextId := k.fresh s.nextId source
  have hs : s.Labelled (start.programsBy k before) := by
    simpa using (Session.Labelled.start limit? clock).afterBy k before
  have hs₁ : s₁.Labelled programs := hs.runProgram hp fuel
  have hlater : s₁.Undisturbed s₂ := .afterBy k s₁ later
  have hprograms : start.programsBy k steps = programs ++ s₁.programsBy k later := by
    rw [Session.programsBy_append, Session.programsBy, List.append_cons]
  have hbound {c : Closure} (hc : ∀ id ∈ Stmt.labelsEach c.decl.body,
      id ∈ programs.flatMap Stmt.labelsEach) : StaysBound c := by
    intro id hid source' m
    have hlt := hs₁.used id (hc id hid)
    refine place_congr ?_ m
    rw [Session.distance?_checked (k.fresh _ source') (.inl (Nat.lt_of_lt_of_le hlt hlater.nextId))]
    exact hlater.distance id hlt
  have huses : ((check p.statements).uses.map (·.id)).Nodup :=
    Visit.uses_nodup (v := .program p.statements) hp.nodup
  have hs₁bindings : s₁.bindings = if p.errors = [] then (s.checked p).bindings else s.bindings :=
    Session.bindings_runProgram s fuel p
  refine ⟨Session.answersBy_eq k limit? clock steps, hprograms,
    hprograms ▸ (hs₁.afterBy k later).nodup, huses, fun id hid => ?_, fun hread u hu => ?_,
    fun id hid => hlater.distance id (hs₁.used id hid), fun f c hc => ?_, fun f name c hc => ?_⟩
  · have hnone : s.bindings.distance? id = none := hs.unused id (hp.bounds id hid).1
    refine ⟨hnone, fun h => ?_⟩
    rw [hs₁bindings]
    split
    · next hread =>
      rw [Session.checked, Bindings.distance?_recordUses_of_notMem (h.resolve_left fun h => h hread)]
      exact hnone
    · exact hnone
  · have hlabel : u.id ∈ Stmt.labelsEach p.statements :=
      Visit.mem_labels_of_mem_uses (v := .program p.statements) hu
    refine ⟨hlabel, ?_⟩
    rw [hs₁bindings, if_pos hread]
    exact Bindings.distance?_recordUses huses hu (hs.unused u.id (hp.bounds u.id hlabel).1)
  · exact ⟨hlater.heap.functions hc, hbound (hs₁.code.functions hc)⟩
  · refine ⟨?_, hbound (hs₁.code.methods hc)⟩
    obtain ⟨cls, hcls, hmethod⟩ := Option.bind_eq_some_iff.1 hc
    exact Option.bind_eq_some_iff.2 ⟨cls, hlater.heap.classes hcls, hmethod⟩

/-- A function that returns a variable of the block around it, after a source that cannot be read and before
one that the check refuses.  The number 0 went to the first of these, and the number 3 to the target of
the assignment. -/
theorem closure_keeps_its_variable :
    let start := Session.start none (.startingAt 0)
    let before : List SessionStep := [.run 40 "var g;", .run 40 "x = = 1;"]
    let source := "\x7b var a = 1; fun f() \x7b return a; \x7d g = f; \x7d"
    let later : List SessionStep := [.run 40 "\x7b var a; g; var a; \x7d", .run 40 "print g();"]
    let s := start.afterBy .drawn before
    let s₁ := (s.answerBy .drawn (.run 40 source)).2
    Stmt.labelsEach (Numbering.drawn.read s.nextId source).statements = [2, 1, 5, 4] ∧
      s₁.bindings.distance? 1 = some 1 ∧ (s₁.afterBy .drawn later).bindings.distance? 1 = some 1 := by
  intro start before source later s s₁
  have hlabels : Stmt.labelsEach (Numbering.drawn.read s.nextId source).statements = [2, 1, 5, 4] := by
    decide +kernel
  have hfound : s₁.bindings.distance? 1 = some 1 := by decide +kernel
  have hlabel : 1 ∈ (start.programsBy .drawn before ++
      [(Numbering.drawn.read s.nextId source).statements]).flatMap Stmt.labelsEach := by
    rw [List.flatMap_append, List.flatMap_singleton, hlabels]
    exact List.mem_append_right _ (by decide)
  obtain ⟨-, -, -, -, -, -, hdistance, -⟩ :=
    bindings_are_never_disturbed .drawn none (.startingAt 0) before later 40 source
  exact ⟨hlabels, hfound, (hdistance 1 hlabel).trans hfound⟩

end LoxLang
