import LoxLang.Proofs.Run.Fuel
import LoxLang.Proofs.Run.Task

/-!
# How runs end

`Ends out run m r` says that the run from the machine `m`, given enough fuel, ends as `r` and does not
give up with `out`.  How a run ends that goes on after another one is told by how both of them end
(`ends_bind_iff`, `ends_lift_bind_iff`), so that fuel is not spoken of again.
-/

namespace LoxLang

namespace Evaluation

open Eval Exec

/-- Given enough fuel, the run ends in this way, which is not by giving up. -/
def Ends {ε α : Type} (out : ε) (run : Nat → EStateM ε Machine α) (m : Machine)
    (r : EStateM.Result ε Machine α) : Prop :=
  ∃ fuel, run fuel m = r ∧ ∀ m', r ≠ .error out m'

/-- Given enough fuel, the statement ends in this way. -/
abbrev Finishes {α : Type} (run : Nat → Exec α) (m : Machine)
    (r : EStateM.Result Unwind Machine α) : Prop := Ends (.stopped .exhausted) run m r

/-- Given enough fuel, the run of an expression ends with an error. -/
def Fails {α : Type} (run : Nat → Eval α) (m : Machine) (e : RunError) (m' : Machine) : Prop :=
  ∃ fuel, run fuel m = .error (.failed e) m'

/-- The same end in another frame. -/
def inScope {ε α : Type} (frame : FrameId) :
    EStateM.Result ε Machine α → EStateM.Result ε Machine α
  | .ok a m => .ok a { m with scope := frame }
  | .error e m => .error e { m with scope := frame }

section

variable {ε α β : Type} {out : ε} {m m₁ : Machine}

/-- A run in a frame ends in the frame before. -/
theorem inFrame_apply (frame : FrameId) (x : Exec α) (m : Machine) :
    inFrame frame x m = inScope m.scope (x { m with scope := frame }) := by
  rw [inFrame]
  cases x { m with scope := frame } <;> rfl

@[simp] theorem inScope_inScope (frame frame' : FrameId) (r : EStateM.Result ε Machine α) :
    inScope frame (inScope frame' r) = inScope frame r := by cases r <;> rfl

/-- A run after another one ends as it does where the other has ended with a value, or else where and as
the other one has ended. -/
theorem bind_eq_iff {x : EStateM ε Machine α} {f : α → EStateM ε Machine β}
    {r : EStateM.Result ε Machine β} : (x >>= f) m = r ↔
      (∃ a m₁, x m = .ok a m₁ ∧ f a m₁ = r) ∨ ∃ e m₁, x m = .error e m₁ ∧ r = .error e m₁ := by
  cases hx : x m with
  | ok a m₁ =>
    rw [bind_of_ok hx]
    refine ⟨fun h => .inl ⟨a, m₁, rfl, h⟩, ?_⟩
    rintro (⟨_, _, ⟨⟩, h⟩ | ⟨_, _, ⟨⟩, -⟩)
    exact h
  | error e m₁ =>
    rw [bind_of_error hx]
    refine ⟨fun h => .inr ⟨e, m₁, rfl, h.symm⟩, ?_⟩
    rintro (⟨_, _, ⟨⟩, -⟩ | ⟨_, _, ⟨⟩, h⟩)
    exact h.symm

/-! ### Runs with any fuel -/

section

variable {run : Nat → EStateM ε Machine α} {r : EStateM.Result ε Machine α}

theorem ends_ok_iff {a : α} : Ends out run m (.ok a m₁) ↔ Returns run m a m₁ :=
  exists_congr fun _ => and_iff_left nofun

theorem ends_pure_iff {a : α} : Ends out (fun _ => pure a) m r ↔ r = .ok a m := by
  constructor
  · rintro ⟨_, h, _⟩
    exact h.symm
  · rintro rfl
    exact ends_ok_iff.2 ⟨0, rfl⟩

variable (hrun : ∀ fuel, Extends out (run fuel) (run (fuel + 1)))

include hrun

/-- A run that ends does so with any fuel from some amount on. -/
theorem Ends.exists_fuel (h : Ends out run m r) : ∃ n, ∀ fuel ≥ n, run fuel m = r := by
  obtain ⟨n, rfl, hr⟩ := h
  exact ⟨n, fun fuel hle => (Extends.of_le hrun hle).eq_of_ne hr⟩

/-- One unit of fuel more makes no difference. -/
theorem ends_succ_iff : Ends out (fun fuel => run (fuel + 1)) m r ↔ Ends out run m r := by
  constructor
  · rintro ⟨n, h, hr⟩
    exact ⟨n + 1, h, hr⟩
  · intro h
    obtain ⟨n, hn⟩ := h.exists_fuel hrun
    obtain ⟨-, -, hr⟩ := h
    exact ⟨n, hn (n + 1) (Nat.le_succ n), hr⟩

end

theorem Returns.exists_fuel {run : Nat → EStateM ε Machine α}
    (hrun : ∀ fuel, Extends out (run fuel) (run (fuel + 1))) {a : α} (h : Returns run m a m₁) :
    ∃ n, ∀ fuel ≥ n, run fuel m = .ok a m₁ := (ends_ok_iff.2 h).exists_fuel hrun

theorem ends_bind_iff {x : Nat → EStateM ε Machine α} {f : Nat → α → EStateM ε Machine β}
    (hx : ∀ fuel, Extends out (x fuel) (x (fuel + 1)))
    (hf : ∀ a fuel, Extends out (f fuel a) (f (fuel + 1) a)) {r : EStateM.Result ε Machine β} :
    Ends out (fun fuel => x fuel >>= f fuel) m r ↔
      (∃ a m₁, Returns x m a m₁ ∧ Ends out (f · a) m₁ r) ∨
      ∃ e m₁, Ends out x m (.error e m₁) ∧ r = .error e m₁ := by
  constructor
  · rintro ⟨fuel, hrun, hr⟩
    rcases bind_eq_iff.1 hrun with ⟨a, m₁, ha, hrun⟩ | ⟨e, m₁, he, rfl⟩
    · exact .inl ⟨a, m₁, ⟨fuel, ha⟩, fuel, hrun, hr⟩
    · exact .inr ⟨e, m₁, ⟨fuel, he, fun m' h => hr m' (by cases h; rfl)⟩, rfl⟩
  · rintro (⟨a, m₁, ha, hrun⟩ | ⟨e, m₁, he, rfl⟩)
    -- both runs have enough fuel in the larger amount
    · obtain ⟨n, hn⟩ := ha.exists_fuel hx
      obtain ⟨k, hk⟩ := hrun.exists_fuel (hf a)
      obtain ⟨-, -, hr⟩ := hrun
      refine ⟨max n k, ?_, hr⟩
      simp only [bind_of_ok (hn _ (Nat.le_max_left n k)), hk _ (Nat.le_max_right n k)]
    · obtain ⟨n, he, hr⟩ := he
      exact ⟨n, bind_of_error he _, fun m' h => hr m' (by cases h; rfl)⟩

/-- A run after one without a value. -/
theorem ends_then_iff {x : Nat → EStateM ε Machine Unit} {y : Nat → EStateM ε Machine β}
    {m : Machine} {out : ε} (hx : ∀ fuel, Extends out (x fuel) (x (fuel + 1)))
    (hy : ∀ fuel, Extends out (y fuel) (y (fuel + 1))) {r : EStateM.Result ε Machine β} :
    Ends out (fun fuel => x fuel >>= fun _ => y fuel) m r ↔
      (∃ m₁, Returns x m () m₁ ∧ Ends out y m₁ r) ∨
      ∃ e m₁, Ends out x m (.error e m₁) ∧ r = .error e m₁ := by
  rw [ends_bind_iff hx fun _ => hy]
  refine or_congr_left ⟨?_, ?_⟩
  · rintro ⟨_, h⟩
    exact h
  · intro h
    exact ⟨(), h⟩

end

/-! ### The evaluator -/

section

variable (b : Bindings)

theorem eval_extends (e : Expr NodeId) (fuel : Nat) :
    Extends .exhausted (eval b fuel e) (eval b (fuel + 1) e) := (extendsAll b fuel).eval e

theorem evalEach_extends (es : List (Expr NodeId)) (fuel : Nat) :
    Extends .exhausted (evalEach b fuel es) (evalEach b (fuel + 1) es) := (extendsAll b fuel).evalEach es

theorem exec_extends (s : Stmt NodeId) (fuel : Nat) :
    Extends (.stopped .exhausted) (exec b fuel s) (exec b (fuel + 1) s) := (extendsAll b fuel).exec s

theorem loop_extends (condition : Expr NodeId) (body : Stmt NodeId) (fuel : Nat) :
    Extends (.stopped .exhausted) (loop b fuel condition body) (loop b (fuel + 1) condition body) :=
  (extendsAll b fuel).loop condition body

theorem execEach_extends (ss : List (Stmt NodeId)) (fuel : Nat) :
    Extends (.stopped .exhausted) (execEach b fuel ss) (execEach b (fuel + 1) ss) :=
  (extendsAll b fuel).execEach ss

end

/-! ### Expressions in statements -/

section

variable {α β : Type} {m : Machine} {x : Nat → Eval α}

theorem finishes_toExec_error_iff {u : Unwind} {m₁ : Machine} :
    Finishes (fun fuel => toExec (x fuel)) m (.error u m₁) ↔
      ∃ e, Fails x m e m₁ ∧ u = .stopped (.failed e) := by
  constructor
  · rintro ⟨fuel, hrun, hr⟩
    change toExec (x fuel) m = _ at hrun
    rw [toExec] at hrun
    cases hx : x fuel m with
    | ok a m' => rw [hx] at hrun; cases hrun
    | error s m' =>
      rw [hx] at hrun
      cases hrun
      cases s with
      | failed e => exact ⟨e, ⟨fuel, hx⟩, rfl⟩
      | exhausted => exact absurd rfl (hr m₁)
  · rintro ⟨e, ⟨fuel, he⟩, rfl⟩
    refine ⟨fuel, ?_, fun m' h => ?_⟩
    · change toExec (x fuel) m = _
      rw [toExec, he]
    · cases h

theorem returns_toExec_iff {a : α} {m₁ : Machine} :
    Returns (fun fuel => toExec (x fuel)) m a m₁ ↔ Returns x m a m₁ := by
  refine exists_congr fun fuel => ?_
  change toExec (x fuel) m = _ ↔ _
  rw [toExec]
  cases x fuel m <;> simp

/-- A statement that begins with an expression fails as the expression does, or goes on after it. -/
theorem finishes_lift_bind_iff {f : Nat → α → Exec β}
    (hx : ∀ fuel, Extends .exhausted (x fuel) (x (fuel + 1)))
    (hf : ∀ a fuel, Extends (.stopped .exhausted) (f fuel a) (f (fuel + 1) a))
    {r : EStateM.Result Unwind Machine β} :
    Finishes (fun fuel => toExec (x fuel) >>= f fuel) m r ↔
      (∃ a m₁, Returns x m a m₁ ∧ Finishes (f · a) m₁ r) ∨
      ∃ e m₁, Fails x m e m₁ ∧ r = .error (.stopped (.failed e)) m₁ := by
  rw [Finishes, ends_bind_iff (fun fuel => (hx fuel).toExec) hf]
  refine or_congr ?_ ?_
  · simp only [returns_toExec_iff]
  · constructor
    · rintro ⟨u, m₁, hu, rfl⟩
      obtain ⟨e, he, rfl⟩ := finishes_toExec_error_iff.1 hu
      exact ⟨e, m₁, he, rfl⟩
    · rintro ⟨e, m₁, he, rfl⟩
      exact ⟨_, m₁, finishes_toExec_error_iff.2 ⟨e, he, rfl⟩, rfl⟩

/-- A run that does what another one does, and then goes to a frame, ends as the other one ends. -/
theorem finishes_inScope_iff {y z : Nat → Exec α} {m₁ : Machine} {frame : FrameId}
    (h : ∀ fuel, y fuel m = inScope frame (z fuel m₁)) {r : EStateM.Result Unwind Machine α} :
    Finishes y m r ↔ ∃ r', Finishes z m₁ r' ∧ r = inScope frame r' := by
  constructor
  · rintro ⟨fuel, rfl, hr⟩
    refine ⟨_, ⟨fuel, rfl, fun m' hm' => ?_⟩, h fuel⟩
    rw [h, hm'] at hr
    exact hr _ rfl
  · rintro ⟨r', ⟨fuel, rfl, hr⟩, rfl⟩
    refine ⟨fuel, h fuel, fun m' hm' => ?_⟩
    cases hz : z fuel m₁ with
    | ok a m₂ => rw [hz] at hm'; cases hm'
    | error u m₂ =>
      rw [hz] at hm'
      cases hm'
      exact hr m₂ hz

end

end Evaluation

end LoxLang
