import LoxLang.Proofs.Scope.Inner

/-!
# What a `for` loop does

`ForLoop` says what a `for` loop does without the blocks and the `while` loop that it stands for: it runs
the initializer once in a new scope, and then, as long as the condition holds, the body and after it the
increment.  The increment is evaluated in the scope of the loop.

The tree that is run instead has the increment in the scope of the body, and so its names are one scope
further out.  With that it does what `ForLoop` says (`finishes_forLoop_iff`).
-/

namespace LoxLang

namespace Evaluation

open Eval Exec

/-- The machine in a new scope inside of the one that runs. -/
def inNewScope (m : Machine) : Machine :=
  { m with heap := (m.heap.addFrame ⟨∅, some m.scope⟩).2, scope := m.heap.frames.next }

section

variable (b : Bindings)

/-- The condition of a loop has been evaluated, and holds or does not.  One that is missing holds. -/
inductive Tests : Option (Expr NodeId) → Machine → Bool → Machine → Prop where
  | missing {m} : Tests none m true m
  | condition {e m v m'} : Returns (eval b · e) m v m' → Tests (some e) m v.isTruthy m'

/-- The increment of a loop has been evaluated, if there is one. -/
inductive Increments : Option (Expr NodeId) → Machine → Machine → Prop where
  | missing {m} : Increments none m m
  | increment {e m v m'} : Returns (eval b · e) m v m' → Increments (some e) m m'

/-- The body of a loop has run, with a scope of its own or without. -/
inductive RunsBody (body : Stmt NodeId) : (own : Bool) → Machine →
    EStateM.Result Unwind Machine Unit → Prop where
  | here {m r} : Finishes (exec b · body) m r → RunsBody body false m r
  | inside {m r} : Finishes (exec b · body) (inNewScope m) r →
    RunsBody body true m (inScope m.scope r)

/-- How a loop goes on from where the condition is about to be tested. -/
inductive Repeats (condition? increment? : Option (Expr NodeId)) (body : Stmt NodeId) :
    Machine → EStateM.Result Unwind Machine Unit → Prop where
  /-- The condition fails. -/
  | refused {c m e m'} : condition? = some c → Fails (eval b · c) m e m' →
    Repeats condition? increment? body m (.error (.stopped (.failed e)) m')
  /-- The condition does not hold. -/
  | done {m m'} : Tests b condition? m false m' → Repeats condition? increment? body m (.ok () m')
  /-- The body returns or fails, and the increment is not evaluated. -/
  | left {m m₁ u m'} : Tests b condition? m true m₁ → RunsBody b body increment?.isSome m₁ (.error u m') →
    Repeats condition? increment? body m (.error u m')
  /-- The increment fails. -/
  | stuck {i m m₁ m₂ e m'} : Tests b condition? m true m₁ →
    RunsBody b body increment?.isSome m₁ (.ok () m₂) → increment? = some i → Fails (eval b · i) m₂ e m' →
    Repeats condition? increment? body m (.error (.stopped (.failed e)) m')
  | again {m m₁ m₂ m₃ r} : Tests b condition? m true m₁ → RunsBody b body increment?.isSome m₁ (.ok () m₂) →
    Increments b increment? m₂ m₃ → Repeats condition? increment? body m₃ r →
    Repeats condition? increment? body m r

/-- What a `for` loop does. -/
inductive ForLoop (condition? increment? : Option (Expr NodeId)) (body : Stmt NodeId) :
    Option (Stmt NodeId) → Machine → EStateM.Result Unwind Machine Unit → Prop where
  | plain {m r} : Repeats b condition? increment? body m r →
    ForLoop condition? increment? body none m r
  /-- The initializer fails. -/
  | refused {s m u m'} : Finishes (exec b · s) (inNewScope m) (.error u m') →
    ForLoop condition? increment? body (some s) m (inScope m.scope (.error u m'))
  /-- The loop goes on in the scope of the initializer. -/
  | started {s m m₁ r} : Returns (exec b · s) (inNewScope m) () m₁ →
    Repeats b condition? increment? body m₁ r →
    ForLoop condition? increment? body (some s) m (inScope m.scope r)

end

/-! ### How statements end -/

section

variable {b : Bindings} {m : Machine} {r : EStateM.Result Unwind Machine Unit}

theorem finishes_expr_iff {e : Expr NodeId} : Finishes (exec b · (.expr e)) m r ↔
    (∃ v m', Returns (eval b · e) m v m' ∧ r = .ok () m') ∨
    ∃ err m', Fails (eval b · e) m err m' ∧ r = .error (.stopped (.failed err)) m' := by
  rw [Finishes, ← ends_succ_iff (exec_extends b (.expr e))]
  change Finishes (fun fuel => toExec (eval b fuel e) >>= fun _ => pure ()) m r ↔ _
  rw [finishes_lift_bind_iff (eval_extends b e) fun _ _ => .refl _]
  simp only [ends_pure_iff]

/-- However a statement ends, it ends in the frame in which it began. -/
theorem inScope_of_finishes {s : Stmt NodeId} (h : Finishes (exec b · s) m r) :
    inScope m.scope r = r := by
  obtain ⟨fuel, hr, -⟩ := h
  have hscope := ((samePlace_stable.keepsAll b fuel).exec s m).1
  rw [show exec b fuel s m = r from hr] at hscope
  cases r with
  | ok a m' | error u m' =>
    rw [← show m'.scope = m.scope from hscope]
    rfl

theorem finishes_execEach_nil_iff : Finishes (execEach b · []) m r ↔ r = .ok () m := by
  rw [Finishes, ← ends_succ_iff (execEach_extends b [])]
  exact ends_pure_iff

theorem finishes_execEach_cons_iff {s : Stmt NodeId} {ss : List (Stmt NodeId)} :
    Finishes (execEach b · (s :: ss)) m r ↔
      (∃ m₁, Returns (exec b · s) m () m₁ ∧ Finishes (execEach b · ss) m₁ r) ∨
      ∃ u m₁, Finishes (exec b · s) m (.error u m₁) ∧ r = .error u m₁ := by
  rw [Finishes, ← ends_succ_iff (execEach_extends b (s :: ss))]
  exact ends_then_iff (exec_extends b s) (execEach_extends b ss)

theorem finishes_execEach_singleton_iff {s : Stmt NodeId} :
    Finishes (execEach b · [s]) m r ↔ Finishes (exec b · s) m r := by
  simp only [finishes_execEach_cons_iff, finishes_execEach_nil_iff]
  constructor
  · rintro (⟨m₁, h, rfl⟩ | ⟨u, m₁, h, rfl⟩)
    · exact ends_ok_iff.2 h
    · exact h
  · intro h
    cases r with
    | ok a m₁ => exact .inl ⟨m₁, ends_ok_iff.1 h, rfl⟩
    | error u m₁ => exact .inr ⟨u, m₁, h, rfl⟩

/-- Two statements that run one after the other. -/
theorem finishes_execEach_pair_iff {s s' : Stmt NodeId} : Finishes (execEach b · [s, s']) m r ↔
    (∃ m₁, Returns (exec b · s) m () m₁ ∧ Finishes (exec b · s') m₁ r) ∨
      ∃ u m₁, Finishes (exec b · s) m (.error u m₁) ∧ r = .error u m₁ := by
  rw [finishes_execEach_cons_iff]
  simp only [finishes_execEach_singleton_iff]

/-- A block runs in a new scope, and goes back to the scope before. -/
theorem finishes_block_iff {body : List (Stmt NodeId)} : Finishes (exec b · (.block body)) m r ↔
    ∃ r', Finishes (execEach b · body) (inNewScope m) r' ∧ r = inScope m.scope r' := by
  rw [Finishes, ← ends_succ_iff (exec_extends b (.block body)),
    ← ends_succ_iff fun fuel => exec_extends b (.block body) (fuel + 1)]
  change Finishes (fun fuel => inFrame m.heap.frames.next (execEach b fuel body))
    { m with heap := (m.heap.addFrame ⟨∅, some m.scope⟩).2 } r ↔ _
  exact finishes_inScope_iff fun fuel => inFrame_apply ..

theorem finishes_whileLoop_iff {condition : Expr NodeId} {body : Stmt NodeId} :
    Finishes (exec b · (.whileLoop condition body)) m r ↔
      Finishes (loop b · condition body) m r := by
  rw [Finishes, ← ends_succ_iff (exec_extends b (.whileLoop condition body))]
  exact Iff.rfl

/-! ### The tree of a loop -/

/-- The labels of the increment lie one scope further out than those that are put in their place. -/
abbrev IncrementFurther (b : Bindings) (f : NodeId → NodeId) (increment? : Option (Expr NodeId)) : Prop :=
  ∀ e ∈ increment?, OneFurther b f e.labels

/-- The condition that takes the place of a missing one. -/
abbrev conditionOf (condition? : Option (Expr NodeId)) : Expr NodeId :=
  condition?.getD (.literal (.bool true))

section

variable {condition? increment? : Option (Expr NodeId)} {body : Stmt NodeId} {f : NodeId → NodeId}

theorem tests_iff {holds : Bool} {m' : Machine} : Tests b condition? m holds m' ↔
    ∃ v, Returns (eval b · (conditionOf condition?)) m v m' ∧ v.isTruthy = holds := by
  cases condition? with
  | some c =>
    refine ⟨?_, ?_⟩
    · rintro (_ | hv)
      exact ⟨_, hv, rfl⟩
    · rintro ⟨v, hv, rfl⟩
      exact .condition hv
  | none =>
    refine ⟨?_, ?_⟩
    · rintro ⟨⟩
      exact ⟨.bool true, ⟨1, rfl⟩, rfl⟩
    · rintro ⟨v, ⟨fuel, hv⟩, rfl⟩
      cases fuel <;> cases hv
      exact .missing

theorem fails_conditionOf_iff {e : RunError} {m' : Machine} :
    Fails (eval b · (conditionOf condition?)) m e m' ↔
      ∃ c, condition? = some c ∧ Fails (eval b · c) m e m' := by
  cases condition? with
  | some c =>
    refine ⟨fun h => ⟨c, rfl, h⟩, ?_⟩
    rintro ⟨_, ⟨⟩, h⟩
    exact h
  | none =>
    refine ⟨?_, nofun⟩
    rintro ⟨fuel, h⟩
    cases fuel <;> cases h

theorem RunsBody.exists_inside (h : RunsBody b body true m r) :
    ∃ r', Finishes (exec b · body) (inNewScope m) r' ∧ r = inScope m.scope r' := by
  cases h with
  | inside h => exact ⟨_, h, rfl⟩

/-- How a turn of the loop ends after its body. -/
def EndsTurn (b : Bindings) (increment? : Option (Expr NodeId)) (m : Machine)
    (r : EStateM.Result Unwind Machine Unit) : Prop :=
  (∃ m', Increments b increment? m m' ∧ r = .ok () m') ∨
    ∃ i e m', increment? = some i ∧ Fails (eval b · i) m e m' ∧
      r = .error (.stopped (.failed e)) m'

theorem endsTurn_some_iff {i : Expr NodeId} :
    EndsTurn b (some i) m r ↔ Finishes (exec b · (.expr i)) m r := by
  rw [finishes_expr_iff]
  constructor
  · rintro (⟨m', ⟨⟩ | hv, rfl⟩ | ⟨_, e, m', ⟨⟩, he, rfl⟩)
    · exact .inl ⟨_, m', hv, rfl⟩
    · exact .inr ⟨e, m', he, rfl⟩
  · rintro (⟨v, m', hv, rfl⟩ | ⟨e, m', he, rfl⟩)
    · exact .inl ⟨m', .increment hv, rfl⟩
    · exact .inr ⟨i, e, m', rfl, he, rfl⟩

/-- A turn of the loop runs the body and evaluates the increment, as if it stood in the scope of the
loop. -/
theorem finishes_turn_iff (hfurther : IncrementFurther b f increment?) :
    Finishes (exec b · (body.withIncrement increment?)) m r ↔
      (∃ u m', RunsBody b body increment?.isSome m (.error u m') ∧ r = .error u m') ∨
      ∃ m₁, RunsBody b body increment?.isSome m (.ok () m₁) ∧
        EndsTurn b (increment?.map (·.copy f)) m₁ r := by
  cases increment? with
  | none =>
    change Finishes (exec b · body) m r ↔ _
    constructor
    · intro h
      cases r with
      | ok a m' => exact .inr ⟨m', .here h, .inl ⟨m', .missing, rfl⟩⟩
      | error u m' => exact .inl ⟨u, m', .here h, rfl⟩
    · rintro (⟨u, m', ⟨h⟩, rfl⟩ | ⟨m₁, ⟨h⟩, ⟨m', ⟨⟩, rfl⟩ | ⟨_, _, _, ⟨⟩, -⟩⟩)
      · exact h
      · exact h
  | some e =>
    -- the increment is evaluated in the scope of the body, which lies in that of the loop
    have hincrement {m₁ : Machine} (hbody : Returns (exec b · body) (inNewScope m) () m₁)
        {r' : EStateM.Result Unwind Machine Unit} :
        Finishes (exec b · (.expr e)) m₁ r' ↔ ∃ r'', Finishes (exec b · (.expr (e.copy f)))
          { m₁ with scope := m.scope } r'' ∧ r' = inScope m₁.scope r'' := by
      have hscope : m₁.scope = m.heap.frames.next := scope_of_exec hbody
      have hinner : m₁.heap.frames.enclosing? m₁.scope = some m.scope := by
        rw [hscope]
        refine (hbody.keeps fun fuel => (grows_stable.keepsAll b fuel).exec body).enclosing ?_
        exact (Frames.enclosing?_push _ _ _).trans (if_pos rfl)
      exact finishes_inScope_iff fun fuel => exec_expr_inner (hfurther e rfl) fuel m₁ hinner
    change Finishes (exec b · (.block [body, .expr e])) m r ↔ _
    rw [finishes_block_iff, Option.map_some]
    simp only [finishes_execEach_pair_iff, endsTurn_some_iff]
    constructor
    · rintro ⟨r', ⟨m₁, hbody, hr'⟩ | ⟨u, m₁, hu, rfl⟩, rfl⟩
      · obtain ⟨r'', hr'', rfl⟩ := (hincrement hbody).1 hr'
        refine .inr ⟨_, .inside (ends_ok_iff.2 hbody), ?_⟩
        rw [inScope_inScope, inScope_of_finishes hr'']
        exact hr''
      · exact .inl ⟨u, _, .inside hu, rfl⟩
    · rintro (⟨u, m', hbody, rfl⟩ | ⟨m₂, hbody, hr⟩)
      · obtain ⟨r', hr', heq⟩ := hbody.exists_inside
        cases r' with
        | ok a m₁ => cases heq
        | error u' m₁ => cases heq; exact ⟨_, .inr ⟨u, m₁, hr', rfl⟩, rfl⟩
      · obtain ⟨r', hr', heq⟩ := hbody.exists_inside
        cases r' with
        | error u' m₁ => cases heq
        | ok a m₁ =>
          cases heq
          have hbody := ends_ok_iff.1 hr'
          refine ⟨_, .inl ⟨m₁, hbody, (hincrement hbody).2 ⟨r, hr, rfl⟩⟩, ?_⟩
          rw [inScope_inScope, inScope_of_finishes hr]

/-! ### The loop -/

/-- What the loop over a tree does is what the `for` loop does. -/
theorem repeats_of_loop (hfurther : IncrementFurther b f increment?) (fuel : Nat)
    (hloop : loop b fuel (conditionOf condition?) (body.withIncrement increment?) m = r)
    (hr : ∀ m', r ≠ .error (.stopped .exhausted) m') :
    Repeats b condition? (increment?.map (·.copy f)) body m r := by
  have hown : (increment?.map (·.copy f)).isSome = increment?.isSome := Option.isSome_map
  induction fuel generalizing m with
  | zero => exact absurd hloop.symm (hr m)
  | succ fuel ih =>
    rcases bind_eq_iff.1 hloop with ⟨v, m₁, hv, hloop⟩ | ⟨u, m₁, hu, rfl⟩
    · have hv : Returns (eval b · (conditionOf condition?)) m v m₁ := ⟨fuel, toExec_ok hv⟩
      have htests := tests_iff.2 ⟨v, hv, rfl⟩
      cases hholds : v.isTruthy with
      | false =>
        rw [hholds] at htests hloop
        obtain rfl : EStateM.Result.ok () m₁ = r := hloop
        exact .done htests
      | true =>
        rw [hholds] at htests hloop
        rcases bind_eq_iff.1 hloop with ⟨_, m₂, hturn, hloop⟩ | ⟨u, m₂, hturn, rfl⟩
        · -- the turn ends, and the loop goes on with less fuel
          rcases (finishes_turn_iff hfurther).1 ⟨fuel, hturn, nofun⟩ with
            ⟨_, _, _, ⟨⟩⟩ | ⟨m₃, hbody, ⟨_, hincrement, ⟨⟩⟩ | ⟨_, _, _, _, _, ⟨⟩⟩⟩
          exact .again htests (hown ▸ hbody) hincrement (ih hloop)
        · rcases (finishes_turn_iff hfurther).1 ⟨fuel, hturn, hr⟩ with
            ⟨_, _, hbody, ⟨⟩⟩ | ⟨m₃, hbody, ⟨_, _, ⟨⟩⟩ | ⟨i, e, _, hi, he, ⟨⟩⟩⟩
          · exact .left htests (hown ▸ hbody)
          · exact .stuck htests (hown ▸ hbody) hi he
    · have hu : Finishes (fun fuel => toExec (eval b fuel (conditionOf condition?))) m (.error u m₁) :=
        ⟨fuel, hu, fun m' h => hr m' (by cases h; rfl)⟩
      obtain ⟨e, he, rfl⟩ := finishes_toExec_error_iff.1 hu
      obtain ⟨c, hc, he⟩ := fails_conditionOf_iff.1 he
      exact .refused hc he

theorem finishes_loop_iff {c : Expr NodeId} {w : Stmt NodeId} : Finishes (loop b · c w) m r ↔
    (∃ v m₁, Returns (eval b · c) m v m₁ ∧ if v.isTruthy then
      (∃ m₂, Returns (exec b · w) m₁ () m₂ ∧ Finishes (loop b · c w) m₂ r) ∨
        ∃ u m₂, Finishes (exec b · w) m₁ (.error u m₂) ∧ r = .error u m₂
      else r = .ok () m₁) ∨
    ∃ e m₁, Fails (eval b · c) m e m₁ ∧ r = .error (.stopped (.failed e)) m₁ := by
  rw [Finishes, ← ends_succ_iff (loop_extends b c w)]
  refine (finishes_lift_bind_iff (f := fun fuel v => if v.isTruthy then
    exec b fuel w >>= fun _ => loop b fuel c w else pure ()) (eval_extends b c) fun v fuel =>
    .ite ((exec_extends b w fuel).bind fun _ => loop_extends b c w fuel) (.refl _)).trans ?_
  refine or_congr_left (exists_congr fun v => exists_congr fun m₁ => and_congr_right fun _ => ?_)
  cases v.isTruthy with
  | true =>
    simp only [if_true]
    exact ends_then_iff (exec_extends b w) (loop_extends b c w)
  | false => exact ends_pure_iff

/-- What the `for` loop does is what the loop over its tree does. -/
theorem Repeats.finishes (hfurther : IncrementFurther b f increment?)
    (h : Repeats b condition? (increment?.map (·.copy f)) body m r) :
    Finishes (loop b · (conditionOf condition?) (body.withIncrement increment?)) m r := by
  have hown : (increment?.map (·.copy f)).isSome = increment?.isSome := Option.isSome_map
  rw [finishes_loop_iff]
  induction h with
  | refused hc he => exact .inr ⟨_, _, fails_conditionOf_iff.2 ⟨_, hc, he⟩, rfl⟩
  | done htests =>
    obtain ⟨v, hv, hholds⟩ := tests_iff.1 htests
    exact .inl ⟨v, _, hv, by rw [hholds]; rfl⟩
  | left htests hbody =>
    obtain ⟨v, hv, hholds⟩ := tests_iff.1 htests
    have hturn := (finishes_turn_iff hfurther).2 (.inl ⟨_, _, hown ▸ hbody, rfl⟩)
    exact .inl ⟨v, _, hv, by rw [hholds]; exact .inr ⟨_, _, hturn, rfl⟩⟩
  | stuck htests hbody hi he =>
    obtain ⟨v, hv, hholds⟩ := tests_iff.1 htests
    have hturn := (finishes_turn_iff hfurther).2
      (.inr ⟨_, hown ▸ hbody, .inr ⟨_, _, _, hi, he, rfl⟩⟩)
    exact .inl ⟨v, _, hv, by rw [hholds]; exact .inr ⟨_, _, hturn, rfl⟩⟩
  | again htests hbody hincrement _ ih =>
    obtain ⟨v, hv, hholds⟩ := tests_iff.1 htests
    have hturn := (finishes_turn_iff hfurther).2
      (.inr ⟨_, hown ▸ hbody, .inl ⟨_, hincrement, rfl⟩⟩)
    refine .inl ⟨v, _, hv, ?_⟩
    rw [hholds]
    exact .inl ⟨_, ends_ok_iff.1 hturn, finishes_loop_iff.2 ih⟩

theorem repeats_iff (hfurther : IncrementFurther b f increment?) :
    Finishes (exec b · (.whileLoop (conditionOf condition?) (body.withIncrement increment?))) m r ↔
      Repeats b condition? (increment?.map (·.copy f)) body m r := by
  rw [finishes_whileLoop_iff]
  refine ⟨?_, (·.finishes hfurther)⟩
  rintro ⟨fuel, hloop, hr⟩
  exact repeats_of_loop hfurther fuel hloop hr

/-- The tree of a `for` loop does what the `for` loop does. -/
theorem finishes_forLoop_iff (hfurther : IncrementFurther b f increment?)
    {initializer? : Option (Stmt NodeId)} :
    Finishes (exec b · (.forLoop initializer? condition? increment? body)) m r ↔
      ForLoop b condition? (increment?.map (·.copy f)) body initializer? m r := by
  cases initializer? with
  | none => exact (repeats_iff hfurther).trans ⟨.plain, fun (.plain h) => h⟩
  | some s =>
    change Finishes (exec b · (.block [s, .whileLoop _ _])) m r ↔ _
    rw [finishes_block_iff]
    simp only [finishes_execEach_pair_iff, repeats_iff hfurther]
    constructor
    · rintro ⟨r', ⟨m₁, hs, h⟩ | ⟨u, m₁, hu, rfl⟩, rfl⟩
      · exact .started hs h
      · exact .refused hu
    · rintro (_ | hu | ⟨hs, h⟩)
      · exact ⟨_, .inr ⟨_, _, hu, rfl⟩, rfl⟩
      · exact ⟨_, .inl ⟨_, hs, h⟩, rfl⟩

end

end

end Evaluation

end LoxLang
