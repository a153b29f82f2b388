import LoxLang.Evaluation
import Mathlib.Tactic.SplitIfs

/-!
# What runs ensure

`Ensures P A E x` says of a run `x` that it keeps the property `P` of the machine, that its value has
the property `A`, and that what ends it early has the property `E`.  There is one rule for each
combinator of the evaluator.
-/

namespace LoxLang

/-- If a `return` ends the statement, its value has the property. -/
def Unwind.Carries (A : Value → Prop) : Unwind → Prop
  | .stopped _ => True
  | .returned v => A v

namespace Evaluation

open Eval Exec

variable {ε α β : Type} {P Q : Machine → Prop} {A : α → Prop} {B : β → Prop} {E : ε → Prop}

/-- Where `P` holds, it holds after the run, and the run ends with a value in `A` or for a reason in
`E`. -/
def Ensures (P : Machine → Prop) (A : α → Prop) (E : ε → Prop) (x : EStateM ε Machine α) : Prop :=
  ∀ m, P m → match x m with
    | .ok a m' => A a ∧ P m'
    | .error e m' => E e ∧ P m'

namespace Ensures

theorem ok {x : EStateM ε Machine α} (hx : Ensures P A E x) {m m' : Machine} {a : α} (hm : P m)
    (h : x m = .ok a m') : A a ∧ P m' := by
  have hxm := hx m hm
  rw [h] at hxm
  exact hxm

theorem error {x : EStateM ε Machine α} (hx : Ensures P A E x) {m m' : Machine} {e : ε} (hm : P m)
    (h : x m = .error e m') : E e ∧ P m' := by
  have hxm := hx m hm
  rw [h] at hxm
  exact hxm

theorem pure {a : α} (ha : A a) : Ensures P A E (Pure.pure a : EStateM ε Machine α) :=
  fun _ hm => ⟨ha, hm⟩

theorem throw {e : ε} (he : E e) : Ensures P A E (MonadExcept.throw e : EStateM ε Machine α) :=
  fun _ hm => ⟨he, hm⟩

theorem bind {x : EStateM ε Machine α} {f : α → EStateM ε Machine β} (hx : Ensures P A E x)
    (hf : ∀ a, A a → Ensures P B E (f a)) : Ensures P B E (x >>= f) := by
  intro m hm
  change match EStateM.bind x f m with
    | .ok b m' => B b ∧ P m'
    | .error e m' => E e ∧ P m'
  rw [EStateM.bind]
  cases hr : x m with
  | ok a m' =>
    obtain ⟨ha, hm'⟩ := hx.ok hm hr
    exact hf a ha m' hm'
  | error e m' => exact hx.error hm hr

theorem get_bind {f : Machine → EStateM ε Machine β} (hf : ∀ m, P m → Ensures P B E (f m)) :
    Ensures P B E (MonadState.get >>= f) := fun m hm => hf m hm m hm

theorem ite {c : Prop} [Decidable c] {x y : EStateM ε Machine α} (hx : Ensures P A E x)
    (hy : Ensures P A E y) : Ensures P A E (if c then x else y) := by
  split_ifs
  · exact hx
  · exact hy

theorem toExec {x : Eval α} {F : Stop → Prop} {C : Value → Prop} (hx : Ensures P A F x) :
    Ensures P A (Unwind.Carries C) (toExec x) := by
  intro m hm
  rw [Eval.toExec]
  cases hr : x m with
  | ok a m' => exact hx.ok hm hr
  | error s m' => exact ⟨trivial, (hx.error hm hr).2⟩

/-- An expression inside a statement. -/
theorem lift_bind {x : Eval α} {F : Stop → Prop} {C : Value → Prop} {f : α → Exec β}
    (hx : Ensures P A F x) (hf : ∀ a, A a → Ensures P B (Unwind.Carries C) (f a)) :
    Ensures P B (Unwind.Carries C) (Eval.toExec x >>= f) := hx.toExec.bind hf

theorem catchReturn {x : Exec Unit} {U : Unit → Prop} {C : Value → Prop}
    (hx : Ensures P U (Unwind.Carries C) x) :
    Ensures P (fun r? => ∀ v, r? = some v → C v) (fun _ => True) (catchReturn x) := by
  intro m hm
  rw [Exec.catchReturn]
  cases hr : x m with
  | ok a m' => exact ⟨nofun, (hx.ok hm hr).2⟩
  | error u m' =>
    obtain ⟨hu, hm'⟩ := hx.error hm hr
    cases u with
    | stopped s => exact ⟨trivial, hm'⟩
    | returned v => exact ⟨fun v' hv' => Option.some.inj hv' ▸ hu, hm'⟩

theorem insideCall {x : Eval α} {F : Stop → Prop} (hx : Ensures P A F x)
    (hdepth : ∀ m depth, P m → P { m with depth }) : Ensures P A F (insideCall x) := by
  intro m hm
  rw [Eval.insideCall]
  have hin := hdepth m (m.depth + 1) hm
  cases hr : x { m with depth := m.depth + 1 } with
  | ok a m' =>
    obtain ⟨ha, hm'⟩ := hx.ok hin hr
    exact ⟨ha, hdepth m' _ hm'⟩
  | error s m' =>
    obtain ⟨hs, hm'⟩ := hx.error hin hr
    exact ⟨hs, hdepth m' _ hm'⟩

/-- Inside of the frame `Q` may hold instead of `P`. -/
theorem inFrame {x : Exec α} {F : Unwind → Prop} {frame : FrameId} (hx : Ensures Q A F x)
    (hin : ∀ m, P m → Q { m with scope := frame })
    (hout : ∀ m m', P m → Q m' → P { m' with scope := m.scope }) :
    Ensures P A F (inFrame frame x) := by
  intro m hm
  rw [Exec.inFrame]
  cases hr : x { m with scope := frame } with
  | ok a m' =>
    obtain ⟨ha, hm'⟩ := hx.ok (hin m hm) hr
    exact ⟨ha, hout m m' hm hm'⟩
  | error u m' =>
    obtain ⟨hu, hm'⟩ := hx.error (hin m hm) hr
    exact ⟨hu, hout m m' hm hm'⟩

theorem failAt {F : Stop → Prop} (hF : ∀ s, F s) (t : Token) (f : RuntimeFault) :
    Ensures P A F (failAt t f : Eval α) := throw (hF _)

theorem liftFault {F : Stop → Prop} (hF : ∀ s, F s) (t : Token) {r : Except RuntimeFault α}
    (hr : ∀ a, r = .ok a → A a) : Ensures P A F (liftFault t r) := by
  cases r with
  | ok a => exact pure (hr a rfl)
  | error f => exact failAt hF t f

theorem orFail {F : Stop → Prop} (hF : ∀ s, F s) (t : Token) (f : RuntimeFault) {a? : Option α}
    (ha : ∀ a, a? = some a → A a) : Ensures P A F (orFail t f a?) := by
  cases a? with
  | none => exact failAt hF t f
  | some a => exact pure (ha a rfl)

/-- A change of the heap. -/
theorem onHeap {f : Heap → α × Heap} {F : Stop → Prop}
    (hf : ∀ m, P m → A (f m.heap).1 ∧ P { m with heap := (f m.heap).2 }) :
    Ensures P A F (onHeap f) := fun m hm => hf m hm

end Ensures

end Evaluation

end LoxLang
