import LoxLang.Proofs.Run.Session
import LoxLang.Proofs.Run.Stable

/-!
# Scope and depth

However a task ends, the machine is back in the frame and at the depth where the task began
(`samePlace_stable`).  So at each moment of a run the depth counts the calls in progress, and since a
call is refused beyond the greatest depth, it never exceeds that (`scope_and_depth`).
-/

namespace LoxLang

namespace Evaluation

/-- The machines run in the same frame, inside of equally many calls. -/
def SamePlace (m m' : Machine) : Prop := m'.scope = m.scope ∧ m'.depth = m.depth

theorem samePlace_stable : Stable SamePlace where
  refl _ := ⟨rfl, rfl⟩
  trans h h' := ⟨h'.1.trans h.1, h'.2.trans h.2⟩
  addFrame _ _ := ⟨rfl, rfl⟩
  addFunction _ _ := ⟨rfl, rfl⟩
  addClass _ _ := ⟨rfl, rfl⟩
  addInstance _ _ := ⟨rfl, rfl⟩
  define _ _ _ _ := ⟨rfl, rfl⟩
  setField _ _ _ _ := ⟨rfl, rfl⟩
  print _ _ := ⟨rfl, rfl⟩
  tick _ := ⟨rfl, rfl⟩
  inCall := by
    rintro m m' ⟨hscope, hdepth⟩
    exact ⟨hscope, by rw [hdepth]; rfl⟩
  inFrame := by
    rintro m frame m' ⟨-, hdepth⟩
    exact ⟨rfl, hdepth⟩

section

variable {b : Bindings} {m m' : Machine}

theorem depth_of_eval {e : Expr NodeId} {v : Value} (h : Returns (eval b · e) m v m') :
    m'.depth = m.depth :=
  (h.keeps fun fuel => (samePlace_stable.keepsAll b fuel).eval e).2

theorem depth_of_evalEach {es : List (Expr NodeId)} {vs : List Value}
    (h : Returns (evalEach b · es) m vs m') : m'.depth = m.depth :=
  (h.keeps fun fuel => (samePlace_stable.keepsAll b fuel).evalEach es).2

theorem depth_of_exec {s : Stmt NodeId} (h : Returns (exec b · s) m () m') : m'.depth = m.depth :=
  (h.keeps fun fuel => (samePlace_stable.keepsAll b fuel).exec s).2

theorem scope_of_eval {e : Expr NodeId} {v : Value} (h : Returns (eval b · e) m v m') :
    m'.scope = m.scope :=
  (h.keeps fun fuel => (samePlace_stable.keepsAll b fuel).eval e).1

theorem scope_of_evalEach {es : List (Expr NodeId)} {vs : List Value}
    (h : Returns (evalEach b · es) m vs m') : m'.scope = m.scope :=
  (h.keeps fun fuel => (samePlace_stable.keepsAll b fuel).evalEach es).1

theorem scope_of_exec {s : Stmt NodeId} (h : Returns (exec b · s) m () m') : m'.scope = m.scope :=
  (h.keeps fun fuel => (samePlace_stable.keepsAll b fuel).exec s).1

theorem depth_of_onHeap {α : Type} {f : Heap → α × Heap} {a : α}
    (h : Eval.onHeap f m = .ok a m') : m'.depth = m.depth := by cases h; rfl

/-- Only the step into a block changes the frame. -/
theorem Starts.scope {t t' : Task} {step : Step} (h : Starts b t m step t' m')
    (ht : ∀ frame body, t ≠ .execBlock frame body) : m'.scope = m.scope := by
  cases h with
  | statements => exact absurd rfl (ht _ _)
  | binaryRight h | logicalRight h | arguments h | setValue h | others h | branch h | thenBranch h
    | elseBranch h | loopBody h => exact scope_of_eval h
  | called h h' => exact (scope_of_evalEach h').trans (scope_of_eval h)
  | initializer _ _ h h' => cases h; cases h'; rfl
  | functionBody h | block h => cases h; rfl
  | again h _ h' => exact (scope_of_exec h').trans (scope_of_eval h)
  | otherStatements h => exact scope_of_exec h
  | _ => rfl

/-- Only the step into a call changes the depth, and it does so below the greatest depth. -/
theorem Starts.depth {t t' : Task} {step : Step} (h : Starts b t m step t' m') :
    m'.depth = m.depth + callsIn [step] ∧ (m.depth ≤ maxCallDepth → m'.depth ≤ maxCallDepth) := by
  have unchanged {step : Step} (hstep : step ≠ .call) (hdepth : m'.depth = m.depth) :
      m'.depth = m.depth + callsIn [step] ∧
        (m.depth ≤ maxCallDepth → m'.depth ≤ maxCallDepth) := by
    rw [callsIn, List.count_singleton, hdepth]
    exact ⟨by simp [hstep], id⟩
  cases h with
  | entered hm => exact ⟨rfl, fun _ => hm⟩
  | binaryRight h | logicalRight h | arguments h | setValue h | others h | branch h | thenBranch h
    | elseBranch h | loopBody h => exact unchanged nofun (depth_of_eval h)
  | called h h' => exact unchanged nofun ((depth_of_evalEach h').trans (depth_of_eval h))
  | initializer _ _ h h' => exact unchanged nofun ((depth_of_onHeap h').trans (depth_of_onHeap h))
  | functionBody h | block h => exact unchanged nofun (depth_of_onHeap h)
  | again h _ h' => exact unchanged nofun ((depth_of_exec h').trans (depth_of_eval h))
  | otherStatements h => exact unchanged nofun (depth_of_exec h)
  | _ => exact unchanged nofun rfl

/-- At each moment of a run the depth has grown by the calls in progress. -/
theorem During.depth {t t' : Task} {trail : List Step} (h : During b t m trail t' m') :
    m'.depth = m.depth + callsIn trail ∧ (m.depth ≤ maxCallDepth → m'.depth ≤ maxCallDepth) := by
  induction h with
  | start => exact ⟨rfl, id⟩
  | part _ hstarts ih =>
    obtain ⟨hdepth, hle⟩ := hstarts.depth
    refine ⟨?_, fun hm => hle (ih.2 hm)⟩
    rw [hdepth, ih.1]
    simp only [callsIn, List.count_cons, List.count_nil]
    omega

end

end Evaluation

end LoxLang
