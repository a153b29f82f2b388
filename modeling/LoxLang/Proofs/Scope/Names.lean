import LoxLang.Proofs.Scope.Placed

/-!
# Names that frames gain

An assignment needs a variable that is there, and a declaration gives a name to the frame that runs.  So
of the frames that are there when a task starts, only the one that runs can have more names when the task
has ended, and these are names that the task itself declares (`Placed.has_starts`, `Placed.has_of_exec`,
`Placed.has_of_eval`).  What calls and blocks declare goes into frames of their own.
-/

namespace LoxLang

open Scoping Evaluation

/-- The task declares the name in the frame in which it runs. -/
def Evaluation.Task.Declares (name : String) : Task → Prop
  | .exec s => ∃ token, s.declared? = some token ∧ token.lexeme = name
  | .execEach ss => ∃ s ∈ ss, ∃ token, s.declared? = some token ∧ token.lexeme = name
  | _ => False

/-- The task declares no name, and runs no block that it is given a frame for. -/
def Evaluation.Task.Quiet : Task → Prop
  | .exec s => s.declared? = none
  | .execBlock _ _ | .execEach _ => False
  | _ => True

theorem Evaluation.Task.Quiet.ne_execBlock {t : Task} (h : t.Quiet) (frame : FrameId)
    (body : List (Stmt NodeId)) : t ≠ .execBlock frame body := by
  rintro rfl
  exact h

theorem Evaluation.Task.Quiet.not_declares {t : Task} (h : t.Quiet) (name : String) :
    ¬t.Declares name := by
  cases t with
  | exec s =>
    rintro ⟨token, htoken, -⟩
    rw [show s.declared? = none from h] at htoken
    cases htoken
  | execEach => exact h.elim
  | _ => exact id

/-! ### Frames with more names -/

/-- Of the frames that were there, only the given one has names that it did not have, and only names with
the given property. -/
structure Frames.GainsIn (frame : FrameId) (N : String → Prop) (fs fs' : Frames) : Prop where
  next : fs.next ≤ fs'.next
  has : ∀ {id name}, id < fs.next → fs'.has id name = true →
    fs.has id name = true ∨ id = frame ∧ N name

namespace Frames.GainsIn

variable {frame : FrameId} {N : String → Prop} {fs fs' : Frames}

theorem refl (frame : FrameId) (N : String → Prop) (fs : Frames) : fs.GainsIn frame N fs :=
  ⟨Nat.le_refl _, fun _ => .inl⟩

theorem push (h : fs.GainsIn frame N fs') (f : Frame) : fs.GainsIn frame N (fs'.push f) where
  next := Nat.le_trans h.next (grow_push fs' f).next
  has {id name} hid hhas := by
    have hne : id ≠ fs'.next := Nat.ne_of_lt (Nat.lt_of_lt_of_le hid h.next)
    rw [Frames.has, getHere?_push, if_neg hne] at hhas
    exact h.has hid hhas

/-- A variable gets a value that was there, or in a new frame, or under a name that may be new. -/
theorem define (h : fs.GainsIn frame N fs') {target : FrameId} {name : String}
    (htarget : fs'.has target name = true ∨ fs.next ≤ target ∨ target = frame ∧ N name) (v : Value) :
    fs.GainsIn frame N (fs'.define target name v) where
  next := by rw [next_define]; exact h.next
  has {id n} hid hhas := by
    rw [Frames.has, getHere?_define] at hhas
    split at hhas
    · next hdefined =>
      obtain ⟨rfl, rfl, -⟩ := hdefined
      rcases htarget with hold | hnew | hnamed
      · exact h.has hid hold
      · exact absurd hid (Nat.not_lt_of_le hnew)
      · exact .inr hnamed
    · exact h.has hid hhas

end Frames.GainsIn

/-! ### Runs -/

section

variable {visited : Visit → Prop} {b : Bindings}

/-- The task runs in a frame that is newer than `fs`, or in the given frame with names that it may
declare there. -/
structure Gaining (fs : Frames) (frame : FrameId) (N : String → Prop) (t : Task) (m : Machine) :
    Prop where
  gains : fs.GainsIn frame N m.heap.frames
  declares : ∀ {name}, t.Declares name → fs.next ≤ m.scope ∨ m.scope = frame ∧ N name
  block : ∀ {id body}, t = .execBlock id body → fs.next ≤ id

theorem Gaining.quiet {fs : Frames} {frame : FrameId} {N : String → Prop} {t : Task} {m : Machine}
    (hgains : fs.GainsIn frame N m.heap.frames) (hquiet : t.Quiet) : Gaining fs frame N t m :=
  ⟨hgains, fun h => absurd h (hquiet.not_declares _), fun h => absurd h (hquiet.ne_execBlock _ _)⟩

theorem names_invariant (hclosed : VisitsClosed visited) (b : Bindings) (fs : Frames)
    (frame : FrameId) (N : String → Prop) :
    PlacedInvariant visited b (Gaining fs frame N) (fun h => fs.GainsIn frame N h.frames) where
  heap h := h.gains
  part := by
    intro v t m step t' m' hp h hstarts hgains
    -- branches and bodies of loops are no declarations, since programs are proper
    have hproper {s : Stmt NodeId} (hcode : v.code = .stmt s) : s.Proper := by
      have hv := hclosed.proper hp.mem
      rw [hcode] at hv
      exact hv
    cases hstarts with
    | branch => exact .quiet hgains (hproper hp.fits.1).2.1
    | thenBranch => exact .quiet hgains (hproper hp.fits.1).2.1
    | elseBranch => exact .quiet hgains (hproper hp.fits.1).2.2.2.1
    | loopBody => exact .quiet hgains (hproper hp.fits.1).2.1
    | block hframe | functionBody hframe =>
      cases hframe
      refine ⟨hgains, nofun, ?_⟩
      rintro id body ⟨⟩
      exact h.gains.next
    | statements => exact ⟨hgains, fun _ => .inl (h.block rfl), nofun⟩
    | firstStatement =>
      exact ⟨hgains, fun hname => h.declares ⟨_, List.mem_cons_self, hname⟩, nofun⟩
    | otherStatements hs =>
      refine ⟨hgains, ?_, nofun⟩
      rintro name ⟨s, hmem, hname⟩
      rw [scope_of_exec hs]
      exact h.declares ⟨s, List.mem_cons_of_mem _ hmem, hname⟩
    | _ => exact .quiet hgains trivial
  addFrame _ h _ := h.push _
  addFunction _ h := h
  addClass _ h := h
  addInstance _ h := h
  setField _ _ _ h := h
  declare x _ h hname hgains := hgains.define (.inr (h.declares ⟨_, hname, rfl⟩)) x
  assign x _ hgains hhas := hgains.define (.inl hhas) x

section

variable {v : Visit} {t : Task} {m : Machine}

theorem Placed.gaining (hp : Placed visited v t m) (ht : ∀ frame body, t ≠ .execBlock frame body) :
    (∃ v, Placed visited v t m) ∧ Gaining m.heap.frames m.scope t.Declares t m :=
  ⟨⟨v, hp⟩, .refl _ _ _, fun hname => .inr ⟨rfl, hname⟩, fun h => absurd h (ht _ _)⟩

variable (hclosed : VisitsClosed visited) {m' : Machine} {frame : FrameId} {name : String}
  (hframe : frame < m.heap.frames.next) (hhas : m'.heap.frames.has frame name = true)

include hclosed hframe hhas

/-- When a part of a task starts, a frame that was there has gained no names, but for those that the task
declares in the frame that runs. -/
theorem Placed.has_starts (hp : Placed visited v t m) (ht : ∀ frame body, t ≠ .execBlock frame body)
    {step : Step} {t' : Task} (hstarts : Starts b t m step t' m') :
    m.heap.frames.has frame name = true ∨ frame = m.scope ∧ t.Declares name := by
  have inv := (names_invariant hclosed b m.heap.frames m.scope t.Declares).invariant hclosed
  exact (inv.heap_of_starts (hp.gaining ht) hstarts).2.has hframe hhas

/-- Nor when a statement has run. -/
theorem Placed.has_of_exec {s : Stmt NodeId} (hp : Placed visited v (.exec s) m)
    (hs : Returns (exec b · s) m () m') :
    m.heap.frames.has frame name = true ∨ frame = m.scope ∧ (Task.exec s).Declares name := by
  have inv := (names_invariant hclosed b m.heap.frames m.scope (Task.exec s).Declares).invariant hclosed
  exact (inv.heap_of_exec (hp.gaining nofun) hs).2.has hframe hhas

/-- Expressions declare no names at all. -/
theorem Placed.has_of_eval {e : Expr NodeId} {x : Value} (hp : Placed visited v (.eval e) m)
    (he : Returns (eval b · e) m x m') : m.heap.frames.has frame name = true := by
  have inv := (names_invariant hclosed b m.heap.frames m.scope (Task.eval e).Declares).invariant hclosed
  exact ((inv.heap_of_eval (hp.gaining nofun) he).2.has hframe hhas).resolve_right (·.2)

end

end

end LoxLang
