import LoxLang.Proofs.Run.Ends
import LoxLang.Proofs.Run.Invariant
import LoxLang.Proofs.Scope.Scopes

/-!
# Frames without variables

A frame that is made without variables stays so as long as only statements run in it that declare nothing
there, whatever else runs (`vacant_invariant`).  Assignments need a variable that is there, and calls and
blocks declare in frames of their own.
-/

namespace LoxLang

open Evaluation

/-- The frame is there, and has no variable. -/
def Frames.Vacant (frame : FrameId) (fs : Frames) : Prop :=
  frame < fs.next ∧ ∀ name, fs.has frame name = false

/-- A frame that has just been made without variables has none. -/
theorem Frames.vacant_push (fs : Frames) (around : Option FrameId) :
    (fs.push ⟨∅, around⟩).Vacant fs.next := by
  refine ⟨by rw [next_push]; exact Nat.lt_succ_self _, fun name => ?_⟩
  rw [has, getHere?_push, if_pos rfl]
  rfl

namespace Frames.Vacant

variable {frame : FrameId} {fs : Frames}

theorem push (h : fs.Vacant frame) (f : Frame) : (fs.push f).Vacant frame := by
  refine ⟨by rw [next_push]; exact Nat.lt_succ_of_lt h.1, fun name => ?_⟩
  rw [Frames.has, getHere?_push, if_neg (Nat.ne_of_lt h.1)]
  exact h.2 name

theorem define (h : fs.Vacant frame) {other : FrameId} (hne : other ≠ frame) (name : String)
    (v : Value) : (fs.define other name v).Vacant frame := by
  refine ⟨by rw [next_define]; exact h.1, fun n => ?_⟩
  rw [Frames.has, getHere?_define, if_neg fun heq => hne heq.1.symm]
  exact h.2 n

theorem ne_of_has (h : fs.Vacant frame) {other : FrameId} {name : String}
    (hhas : fs.has other name = true) : other ≠ frame := by
  rintro rfl
  simp [h.2 name] at hhas

end Frames.Vacant

/-- The names that the task declares in the frame in which it runs. -/
def Evaluation.Task.declared : Task → List Token
  | .exec s | .loop _ s => s.declares
  | .execEach ss => ss.flatMap Stmt.declares
  | _ => []

/-- The task declares nothing in the frame, which has no variable yet. -/
structure Evaluation.Spares (frame : FrameId) (t : Task) (m : Machine) : Prop where
  vacant : m.heap.frames.Vacant frame
  declared : m.scope = frame → t.declared = []
  block : ∀ body, t ≠ .execBlock frame body

theorem vacant_invariant (b : Bindings) (frame : FrameId) :
    Invariant b (Spares frame) (fun h => h.frames.Vacant frame) where
  heap h := h.vacant
  part := by
    intro t m step t' m' h hstarts hvacant
    have hscope := hstarts.scope
    -- what declares nothing as a whole has no part that declares something
    cases hstarts with
    | branch | whileLoop | again =>
      exact ⟨hvacant, fun heq => h.declared ((hscope nofun).symm.trans heq), nofun⟩
    | thenBranch =>
      refine ⟨hvacant, fun heq => ?_, nofun⟩
      exact (List.append_eq_nil_iff.1 (h.declared ((hscope nofun).symm.trans heq))).1
    | elseBranch =>
      refine ⟨hvacant, fun heq => ?_, nofun⟩
      exact (List.append_eq_nil_iff.1 (h.declared ((hscope nofun).symm.trans heq))).2
    | loopBody => exact ⟨hvacant, fun heq => h.declared ((hscope nofun).symm.trans heq), nofun⟩
    | firstStatement =>
      refine ⟨hvacant, fun heq => ?_, nofun⟩
      exact (List.append_eq_nil_iff.1 (h.declared heq)).1
    | otherStatements =>
      refine ⟨hvacant, fun heq => ?_, nofun⟩
      exact (List.append_eq_nil_iff.1 (h.declared ((hscope nofun).symm.trans heq))).2
    -- a block runs in a new frame
    | block hframe | functionBody hframe =>
      cases hframe
      refine ⟨hvacant, fun _ => rfl, ?_⟩
      rintro body ⟨⟩
      exact Nat.lt_irrefl _ h.vacant.1
    | statements => exact ⟨hvacant, fun heq => absurd (by rw [← heq]) (h.block _), nofun⟩
    | _ => exact ⟨hvacant, fun _ => rfl, nofun⟩
  addFrame _ h _ := h.vacant.push _
  bindMethod _ h _ := h.push _
  addInstance _ h := h
  setField _ _ _ h := h
  declare x h hvacant := hvacant.define (fun heq => nomatch h.declared heq) _ x
  assign x _ hvacant hhas := hvacant.define (hvacant.ne_of_has hhas) _ x
  bound _ _ h _ := h.push _
  function h := h.vacant.define (fun heq => nomatch h.declared heq) _ _
  classDecl h := h.vacant.define (fun heq => nomatch h.declared heq) _ _

/-- A statement that declares nothing leaves its frame without variables. -/
theorem vacant_of_finishes {b : Bindings} {m : Machine} {s : Stmt NodeId}
    {r : EStateM.Result Unwind Machine Unit} (hs : s.declares = [])
    (hm : m.heap.frames.Vacant m.scope) (h : Finishes (exec b · s) m r) :
    (finalMachine r).heap.frames.Vacant m.scope := by
  obtain ⟨fuel, rfl, -⟩ := h
  exact (vacant_invariant b m.scope).after (t := .exec s) ⟨hm, fun _ => hs, nofun⟩ fuel

end LoxLang
