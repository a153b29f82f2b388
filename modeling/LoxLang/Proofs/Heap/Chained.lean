import LoxLang.Proofs.Heap.Distance
import LoxLang.Proofs.Scope.Programs

/-!
# Chains of frames

Every frame but the global one lies in an older frame, so that the frames around a frame form a chain
that ends at the global frame (`Frames.Chained.ends`), and a search along it needs no more steps than the
number of the frame says (`Frames.Nested.ownerWithin?_eq`).  New frames are made only around frames that
are there: the one that runs, and those in which functions and methods were made.  So the frames are
chained at every moment of a session (`Session.chained_runAll`, `chained_during`).
-/

namespace LoxLang

open Scoping Evaluation

/-! ### Chained frames -/

/-- The global frame is there and no frame lies around it, and around every other frame lies an older
one. -/
structure Frames.Chained (fs : Frames) : Prop where
  global : globalFrame < fs.next
  outermost : fs.enclosing? globalFrame = none
  older : ∀ {id around}, fs.enclosing? id = some around → around < id
  enclosed : ∀ {id}, id < fs.next → id ≠ globalFrame → ∃ around, fs.enclosing? id = some around

namespace Frames.Chained

variable {fs : Frames}

/-- Some number of steps out is the global frame, and there the chain ends. -/
theorem ends (h : fs.Chained) {id : FrameId} (hid : id < fs.next) :
    ∃ n ≤ id, fs.ancestor? id n = some globalFrame ∧ fs.ancestor? id (n + 1) = none := by
  -- the frame around is older, so the induction is on the number of the frame
  induction id using Nat.strongRecOn with
  | ind id ih =>
    by_cases hglobal : id = globalFrame
    · subst hglobal
      exact ⟨0, Nat.le_refl _, rfl, by rw [ancestor?, h.outermost]; rfl⟩
    · obtain ⟨around, haround⟩ := h.enclosed hid hglobal
      have hlt := h.older haround
      obtain ⟨n, hn, hends, hnone⟩ := ih around hlt (hlt.trans hid)
      refine ⟨n + 1, Nat.succ_le_of_lt (Nat.lt_of_le_of_lt hn hlt), ?_, ?_⟩
      · rw [ancestor?, haround]
        exact hends
      · rw [ancestor?, haround]
        exact hnone

theorem nested (h : fs.Chained) : fs.Nested := fun _ _ => h.older

/-! ### Single changes -/

/-- A new frame around which lies one that is there. -/
theorem push (h : fs.Chained) (vars : NameMap Value) {around : FrameId} (haround : around < fs.next) :
    (fs.push ⟨vars, some around⟩).Chained where
  global := by
    rw [next_push]
    exact Nat.lt_succ_of_lt h.global
  outermost := by
    rw [enclosing?_push, if_neg (Nat.ne_of_lt h.global)]
    exact h.outermost
  older hid := by
    rw [enclosing?_push] at hid
    split at hid
    · next heq =>
      obtain rfl := Option.some.inj hid
      exact heq ▸ haround
    · exact h.older hid
  enclosed {id} hid hne := by
    rw [enclosing?_push]
    split
    · exact ⟨around, rfl⟩
    · next hnew =>
      rw [next_push] at hid
      exact h.enclosed (Nat.lt_of_le_of_ne (Nat.le_of_lt_succ hid) hnew) hne

theorem define (h : fs.Chained) (id : FrameId) (name : String) (v : Value) :
    (fs.define id name v).Chained where
  global := by rw [next_define]; exact h.global
  outermost := by rw [enclosing?_define]; exact h.outermost
  older hid := by rw [enclosing?_define] at hid; exact h.older hid
  enclosed hid hne := by
    rw [next_define] at hid
    rw [enclosing?_define]
    exact h.enclosed hid hne

theorem initial : Heap.initial.frames.Chained where
  global := Nat.zero_lt_one
  outermost := rfl
  older {id around} hid := by
    rw [Heap.initial, enclosing?_push] at hid
    split at hid
    · cases hid
    · cases hid
  enclosed hid hne := absurd (Nat.lt_one_iff.1 hid) hne

end Frames.Chained

/-! ### Runs -/

/-- Placed tasks leave chained frames behind. -/
theorem chained_invariant (visited : Visit → Prop) (b : Bindings) :
    PlacedInvariant visited b (fun _ m => m.heap.frames.Chained) (·.frames.Chained) where
  heap h := h
  part _ _ _ h := h
  addFrame vars h haround := h.push vars haround
  addFunction _ h := h
  addClass _ h := h
  addInstance _ h := h
  setField _ _ _ h := h
  declare x _ _ _ h := h.define _ _ x
  assign x _ h _ := h.define _ _ x

/-- After any runs the frames of a session are chained. -/
theorem Session.chained_runAll (limit? : Option Nat) (clock : Clock) (steps : List (Nat × String)) :
    ((start limit? clock).runAll steps).machine.heap.frames.Chained := by
  have hrun : ∀ s fuel source,
      (∃ programs, Sound programs s) ∧ s.machine.heap.frames.Chained →
      (∃ programs, Sound programs (s.run fuel source).2) ∧
        (s.run fuel source).2.machine.heap.frames.Chained := by
    rintro s fuel source ⟨⟨programs, hs⟩, hchained⟩
    cases h : s.accepts source with
    | true =>
      refine ⟨⟨_, hs.run h fuel⟩, ?_⟩
      rw [run_of_accepts h]
      have inv := (chained_invariant _ (s.bindingsFor source)).invariant
        (visitsClosed (hs.load h).proper)
      exact (inv.after (m := s.ready) ⟨⟨_, hs.placed h⟩, hchained⟩ fuel).2
    | false =>
      refine ⟨⟨_, hs.refuse h fuel⟩, ?_⟩
      obtain ⟨bindings, -, hrun⟩ := run_of_not_accepts h fuel
      rw [hrun]
      exact hchained
  exact (runAll_induction hrun ⟨⟨[], sound_start limit? clock⟩, .initial⟩ steps).2

/-- While an accepted source runs in a session, the frames are chained whenever a task starts and when it
has ended, however it ends. -/
theorem Session.chained_during {limit? : Option Nat} {clock : Clock} {steps : List (Nat × String)}
    {source : String} {s : Session} (hs : s = (start limit? clock).runAll steps)
    (haccepts : s.accepts source = true) {trail : List Step} {t : Task} {m : Machine}
    (hduring : During (s.bindingsFor source) (.execEach (s.program source)) s.ready trail t m) :
    m.heap.frames.Chained ∧
      ∀ fuel, (t.after (s.bindingsFor source) fuel m).heap.frames.Chained := by
  have hsound := sound_runAll (sound_start limit? clock) steps
  have hchained := chained_runAll limit? clock steps
  rw [← hs] at hsound hchained
  have inv := (chained_invariant _ (s.bindingsFor source)).invariant
    (visitsClosed (hsound.load haccepts).proper)
  have hstart := inv.during (m := s.ready) ⟨⟨_, hsound.placed haccepts⟩, hchained⟩ hduring
  exact ⟨hstart.2, fun fuel => (inv.after hstart fuel).2⟩

end LoxLang
