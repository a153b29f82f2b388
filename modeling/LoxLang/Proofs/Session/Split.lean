import Mathlib
import LoxLang.Proofs.Run.Discipline
import LoxLang.Proofs.Run.Finished
import LoxLang.Proofs.Run.Returns
import LoxLang.Proofs.Session.Answers
import LoxLang.Proofs.Session.Joined

/-!
# Splitting a source

Two sources run one after the other as they run together, the second one below the first
(`splitting_keeps_runs`).  The first one runs in the presence of distances for the second that it has no
use for, and the second one goes on where the first one has ended (`Session.Twin.split`).  So the run of
both is the run of the first, and if this ends without an error then that of the second below as many
empty lines (`Session.Twin.run_join`); the empty lines do no more than move its tokens down.
-/

namespace LoxLang

open Scoping Evaluation

namespace Session

/-! ### The two halves -/

section

variable {s : Session} {source : String} {b : Bindings} {fuel : Nat} {m : Machine}

/-- An accepted program does not return. -/
theorem execEach_ne_returned (h : s.accepts source = true) (v : Value) (m' : Machine) :
    execEach b fuel (s.program source) m ≠ .error (.returned v) m' := by
  intro hreturned
  have hchecked : (Visit.program (s.program source)).report.errors = [] := check_program h
  exact (((returnsAll b fuel).execEach hchecked).error trivial hreturned).1

/-- A run without an error comes to the end of the program. -/
theorem execEach_of_ok (h : s.accepts source = true) (hok : (s.run fuel source).1.outcome = .ok) :
    ∃ m, execEach (s.bindingsFor source) fuel (s.program source) s.ready = .ok () m := by
  rw [run_accepted h] at hok
  cases hr : execEach (s.bindingsFor source) fuel (s.program source) s.ready with
  | ok a m => exact ⟨m, rfl⟩
  | error u m =>
    rw [hr] at hok
    cases u with
    | returned v => exact absurd hr (execEach_ne_returned h v m)
    | stopped stop => cases stop <;> cases hok

theorem run_of_execEach (h : s.accepts source = true)
    (hm : execEach (s.bindingsFor source) fuel (s.program source) s.ready = .ok () m) :
    s.run fuel source =
      (⟨.ok, printedBetween s.machine m, []⟩, { s.loaded source with machine := m }) := by
  rw [run_accepted h, hm]
  rfl

/-- At the end of a program the machine is ready for another one. -/
theorem ready_of_execEach {ss : List (Stmt NodeId)} {s₁ : Session}
    (hm : execEach b fuel ss s.ready = .ok () s₁.machine) : s₁.ready = s₁.machine := by
  have hplace := (samePlace_stable.keepsAll b fuel).execEach ss s.ready
  rw [hm] at hplace
  obtain ⟨hscope, hdepth⟩ : s₁.machine.scope = globalFrame ∧ s₁.machine.depth = 0 := hplace
  rw [ready, ← hscope, ← hdepth]

end

/-- A run in a session of its own, and beside it the same run as the end of a longer one, whose report
has the text printed before as well. -/
theorem conclude_both {d : Difference} (hd : d.Plain) {w : World} {m m' : Machine}
    {r r' : EStateM.Result Unwind Machine Unit} (h : Simulates d (Unwind.Alike d) w m r r')
    (s s' : Session) (hsink : m'.sink = s.machine.sink) (hbefore : PrintsOn s'.machine m')
    (hafter : PrintsOn m' (finalMachine r')) :
    (s'.conclude r').1 = (s.conclude r).1.after (printedBetween s'.machine m') ∧
      ∃ w, (s.conclude r).2.machine.Twin d w (s'.conclude r').2.machine := by
  obtain ⟨hreport, hmachine⟩ := h.conclude s { s' with machine := m' } hsink
  rw [conclude_after s' hbefore hafter]
  refine ⟨congrArg (RunReport.after _) (hreport.eq hd), ?_⟩
  simpa only [Prod.map_snd, id_eq, conclude_snd] using hmachine

section

variable {d : Difference} {s : Session} {A B : String}

/-- The first source runs with the distances of both as with its own, and then the second one runs
where the first one has ended. -/
theorem Twin.split (h : s.Twin d s) (hd : d.Plain) (hA : s.accepts A = true)
    (hB : s.accepts B = true) {P : List (Stmt NodeId)}
    (hP : s.program (A ++ "\n" ++ B) = s.program A ++ P) :
    ∃ d₁ d₂ : Difference, ∃ w : World, d₁.Plain ∧ d₂.Plain ∧
      (∀ fuel, Simulates d₁ (Unwind.Alike d₁) w s.ready
        (execEach (s.bindingsFor A) fuel (s.program A) s.ready)
        (execEach (s.bindingsFor (A ++ "\n" ++ B)) fuel (s.program A) s.ready)) ∧
      ∀ w' m m', m.Twin d₁ w' m' → m.scope = globalFrame → ∀ fuel,
        Simulates d₂ (Unwind.Alike d₂) w' m
          (execEach (s.bindingsFor (A ++ "\n" ++ B)) fuel P m)
          (execEach (s.bindingsFor (A ++ "\n" ++ B)) fuel P m') := by
  obtain ⟨hreadA, -⟩ := accepts_iff.1 hA
  have hreadC := (read_below (accepts_iff.1 hB).1 (linesOf A)).1
  obtain ⟨e, hadds, htwin, halike⟩ := h.load (.refl (statementsOf A)) (MovedDown 0 A)
  have halike := halike (read_same hreadA)
  have hfollows : s.Follows A ⟨s.machine, s.bindingsFor A, s.nextAfter A⟩ := ⟨rfl, rfl⟩
  have hmachine := htwin.machine
  have htable : e.table = s.bindingsFor A := by rw [htwin.table]
  generalize (⟨s.machine, s.bindingsFor A, s.nextAfter A⟩ : Session) = s₁ at htwin hfollows
  obtain ⟨d₂, hadds₂, htwin₂, halike₂⟩ :=
    htwin.load (.refl (statementsOf (below (linesOf A) B))) (MovedDown 0 (below (linesOf A) B))
  have halike₂ := halike₂ (read_same hreadC)
  have htable₂ : d₂.table = s₁.bindingsFor (below (linesOf A) B) := by rw [htwin₂.table]
  have htable₂' : d₂.table' = s₁.bindingsFor (below (linesOf A) B) := by rw [htwin₂.table']
  obtain rfl : s₁.program (below (linesOf A) B) = P :=
    List.append_cancel_left ((program_join hA hB hfollows).symm.trans hP)
  have hplain := hadds.plain hd
  rw [bindingsFor_join hA hB hfollows]
  -- the first source runs in the presence of the distances of the second
  have hagree := htwin.agree_bindingsFor (below (linesOf A) B)
  have hwithin := Difference.within_retable hagree
  obtain ⟨w, hm⟩ := hmachine
  have hm := hm.mono hwithin
  refine ⟨e.retable _ hagree, d₂, w, hplain.retable hagree, hadds₂.plain hplain,
    fun fuel => ?_, fun w' m m' ht hscope fuel => ?_⟩
  · have hrun := (simulatesAll (e.retable _ hagree) fuel).execEach
      (show s.ready.Twin _ w s.ready from { hm with scope := rfl, depth := rfl })
      (show Chain w s.ready.heap.frames [] globalFrame from rfl) (halike.mono hwithin)
    rwa [Difference.table_retable, htable, Difference.table'_retable] at hrun
  · have hrun := (simulatesAll d₂ fuel).execEach (ht.mono (hadds₂.within.retable hagree))
      (show Chain w' m.heap.frames [] m.scope from hscope) halike₂
    rwa [htable₂, htable₂'] at hrun

/-- If the first source ends without an error, the run of both is its run and then that of the second
source as many lines further down. -/
theorem Twin.run_join (h : s.Twin d s) (hd : d.Plain) (hA : s.accepts A = true)
    (hB : s.accepts B = true) {fuel : Nat} {r₁ r₂ : RunReport} {s₁ s₂ : Session}
    (hfirst : s.run (fuel + (s.program A).length) A = (r₁, s₁)) (hok : r₁.outcome = .ok)
    (hsecond : s₁.run fuel (below (linesOf A) B) = (r₂, s₂)) :
    ∃ s', s.run (fuel + (s.program A).length) (A ++ "\n" ++ B) = (r₂.after r₁.printed, s') ∧
      ∃ d w, s₂.machine.Twin d w s'.machine := by
  obtain ⟨m, hm⟩ := execEach_of_ok hA (by rw [hfirst]; exact hok)
  rw [run_of_execEach hA hm, Prod.mk.injEq] at hfirst
  obtain ⟨rfl, hs₁⟩ := hfirst
  have hfollows : s.Follows A s₁ := by
    rw [← hs₁]
    exact ⟨rfl, rfl⟩
  obtain rfl : s₁.machine = m := by rw [← hs₁]
  have hC : s₁.accepts (below (linesOf A) B) = true := by
    rw [accepts_eq s s₁]
    exact accepts_below hB _
  have hP := program_join hA hB hfollows
  -- each statement of the first program takes one unit of the fuel
  have hrunBoth := run_accepted (accepts_join hA hB) (fuel + (s.program A).length)
  rw [hP, execEach_append] at hrunBoth
  rw [run_accepted hC, ← bindingsFor_join hA hB hfollows, ready_of_execEach hm] at hsecond
  obtain ⟨d₁, d₂, w, -, hplain, hsimulates₁, hsimulates₂⟩ := h.split hd hA hB hP
  -- with the distances of both, the first source runs as it does alone
  have hsimulates₁ := hsimulates₁ (fuel + (s.program A).length)
  have hbefore := (printsOn_stable.keepsAll (s.bindingsFor (A ++ "\n" ++ B))
    (fuel + (s.program A).length)).execEach (s.program A) s.ready
  rw [hm] at hsimulates₁
  generalize hr : execEach (s.bindingsFor (A ++ "\n" ++ B)) (fuel + (s.program A).length)
    (s.program A) s.ready = r at hsimulates₁ hbefore
  cases hsimulates₁ with
  | @ok _ w₁ _ m' hlater ht =>
    rw [bind_of_ok hr] at hrunBoth
    have hafter := (printsOn_stable.keepsAll (s.bindingsFor (A ++ "\n" ++ B)) fuel).execEach
      (s₁.program (below (linesOf A) B)) m'
    have hsink : m'.sink = (s₁.loaded (below (linesOf A) B)).machine.sink := ht.sink
    obtain ⟨hreport, hmachine⟩ :=
      conclude_both hplain (hsimulates₂ w₁ s₁.machine m' ht hlater.scope fuel) _
        (s.loaded (A ++ "\n" ++ B)) hsink hbefore hafter
    rw [hsecond] at hreport hmachine
    have hprinted : printedBetween (s.loaded (A ++ "\n" ++ B)).machine m' =
        printedBetween s.machine s₁.machine := by
      rw [printedBetween, printedBetween, ht.sink]
      rfl
    rw [hprinted] at hreport
    exact ⟨_, hrunBoth.trans (Prod.ext hreport rfl), d₂, hmachine⟩

/-- If the first source does not end without an error, the run of both is its run. -/
theorem Twin.run_join_of_ne_ok (h : s.Twin d s) (hd : d.Plain) (hA : s.accepts A = true)
    (hB : s.accepts B = true) {fuel : Nat} {r₁ : RunReport} {s₁ : Session}
    (hfirst : s.run (fuel + (s.program A).length) A = (r₁, s₁)) (hne : r₁.outcome ≠ .ok) :
    ∃ s', s.run (fuel + (s.program A).length) (A ++ "\n" ++ B) = (r₁, s') ∧
      ∃ d w, s₁.machine.Twin d w s'.machine := by
  have hfollows : s.Follows A (s.loaded A) := ⟨rfl, rfl⟩
  have hP := program_join hA hB hfollows
  have hrunBoth := run_accepted (accepts_join hA hB) (fuel + (s.program A).length)
  rw [hP, execEach_append] at hrunBoth
  rw [run_accepted hA] at hfirst
  obtain ⟨d₁, -, w, hplain, -, hsimulates, -⟩ := h.split hd hA hB hP
  have hsimulates := hsimulates (fuel + (s.program A).length)
  generalize hr' : execEach (s.bindingsFor (A ++ "\n" ++ B)) (fuel + (s.program A).length)
    (s.program A) s.ready = r' at hsimulates
  generalize execEach (s.bindingsFor A) (fuel + (s.program A).length) (s.program A) s.ready = r
    at hsimulates hfirst
  obtain ⟨halike, w', hmachine⟩ :=
    hsimulates.conclude (s.loaded A) (s.loaded (A ++ "\n" ++ B)) rfl
  have hs₁ := conclude_snd (s.loaded A) r
  rw [hfirst] at halike hs₁
  have hreport : ((s.loaded (A ++ "\n" ++ B)).conclude r').1 = r₁ := halike.eq hplain
  have hs₁ : s₁.machine = finalMachine r := congrArg Session.machine hs₁
  -- the run of both ends where that of the first source does
  cases hsimulates with
  | ok _ _ =>
    obtain ⟨rfl, -⟩ := Prod.mk.inj hfirst
    exact absurd rfl hne
  | @error _ u' _ _ m' _ _ _ =>
    rw [bind_of_error hr'] at hrunBoth
    refine ⟨((s.loaded (A ++ "\n" ++ B)).conclude (.error u' m')).2,
      hrunBoth.trans (Prod.ext hreport rfl), d₁, w', ?_⟩
    rw [conclude_snd, hs₁]
    exact hmachine

/-! ### Runs that end -/

/-- The second source runs after the first one as it does below it, but for the lines of its tokens. -/
theorem Twin.runs_join (h : s.Twin d s) (hd : d.Plain) (hA : s.accepts A = true)
    (hB : s.accepts B = true) {r₁ r₂ : RunReport} {s₁ s₂ : Session} (hfirst : s.Runs A r₁ s₁)
    (hok : r₁.outcome = .ok) (hsecond : s₁.Runs B r₂ s₂) :
    ∃ r₃ s₃ s' d₁ d₂, s₁.Runs (below (linesOf A) B) r₃ s₃ ∧
      s.Runs (A ++ "\n" ++ B) (r₃.after r₁.printed) s' ∧
      d.Adds (MovedDown 0 A) d₁ ∧ d₁.Adds (MovedDown (linesOf A) B) d₂ ∧ r₂.Alike d₂ r₃ ∧
      ∀ name, s'.see? name = s₂.see? name := by
  obtain ⟨fuel₁, hrun₁⟩ := hfirst.exists_fuel
  obtain ⟨fuel₂, hrun₂⟩ := hsecond.exists_fuel
  -- one amount of fuel with which both steps end
  have hrun₁ := hrun₁ (max fuel₁ fuel₂ + (s.program A).length) (by omega)
  have hrun₂ := hrun₂ (max fuel₁ fuel₂) (by omega)
  obtain ⟨d₁, hadds₁, htwin₁, -⟩ := h.run (max fuel₁ fuel₂ + (s.program A).length) A
  rw [hrun₁] at htwin₁
  obtain ⟨d₂, hadds₂, htwin₂, halike⟩ :=
    htwin₁.runBelow ((accepts_eq s s₁ B).trans hB) (linesOf A) (max fuel₁ fuel₂)
  rw [hrun₂] at htwin₂ halike
  obtain ⟨⟨r₃, s₃⟩, hrun₃⟩ : ∃ rs, s₁.run (max fuel₁ fuel₂) (below (linesOf A) B) = rs := ⟨_, rfl⟩
  rw [hrun₃] at htwin₂ halike
  obtain ⟨s', hboth, d₃, w₃, hm₃⟩ := h.run_join hd hA hB hrun₁ hok hrun₃
  have hends : r₃.outcome ≠ .unfinished := by
    rw [halike.outcome]
    exact hsecond.outcome_ne
  refine ⟨r₃, s₃, s', d₁, d₂, ⟨_, hrun₃, hends⟩, ⟨_, hboth, hends⟩, hadds₁, hadds₂, halike,
    fun name => ?_⟩
  obtain ⟨w₂, hm₂⟩ := htwin₂.machine
  exact (see?_eq hm₃ name).trans (see?_eq hm₂ name)

/-- The run of both ends only if that of the first source does, and if this ends without an error then
that of the second. -/
theorem Twin.runs_of_join (h : s.Twin d s) (hd : d.Plain) (hA : s.accepts A = true)
    (hB : s.accepts B = true) {r : RunReport} {s' : Session} (hboth : s.Runs (A ++ "\n" ++ B) r s') :
    ∃ r₁ s₁, s.Runs A r₁ s₁ ∧ (r₁.outcome = .ok → ∃ r₂ s₂, s₁.Runs B r₂ s₂) := by
  obtain ⟨fuel, hrun⟩ := hboth.exists_fuel
  have hrun := hrun (fuel + (s.program A).length) (Nat.le_add_right _ _)
  obtain ⟨⟨r₁, s₁⟩, hrun₁⟩ : ∃ rs, s.run (fuel + (s.program A).length) A = rs := ⟨_, rfl⟩
  by_cases hok : r₁.outcome = .ok
  · refine ⟨r₁, s₁, ⟨_, hrun₁, by rw [hok]; decide⟩, fun _ => ?_⟩
    obtain ⟨⟨r₃, s₃⟩, hrun₃⟩ : ∃ rs, s₁.run fuel (below (linesOf A) B) = rs := ⟨_, rfl⟩
    obtain ⟨s'', hrun', -⟩ := h.run_join hd hA hB hrun₁ hok hrun₃
    obtain ⟨rfl, -⟩ := Prod.mk.inj (hrun.symm.trans hrun')
    obtain ⟨d₁, -, htwin₁, -⟩ := h.run (fuel + (s.program A).length) A
    rw [hrun₁] at htwin₁
    obtain ⟨_, -, -, halike⟩ := htwin₁.runBelow ((accepts_eq s s₁ B).trans hB) (linesOf A) fuel
    rw [hrun₃] at halike
    have hends : (s₁.run fuel B).1.outcome ≠ .unfinished := by
      rw [← halike.outcome]
      exact hboth.outcome_ne
    exact ⟨_, _, runs_of_outcome hends⟩
  · obtain ⟨s'', hrun', -⟩ := h.run_join_of_ne_ok hd hA hB hrun₁ hok
    obtain ⟨rfl, -⟩ := Prod.mk.inj (hrun.symm.trans hrun')
    exact ⟨r, s₁, ⟨_, hrun₁, hboth.outcome_ne⟩, fun h => absurd h hok⟩

end

end Session

/-! ### Splitting -/

/-- The errors of a source and of the same one so many lines further down.  A fault at a token of the
source has moved down with it, and a fault at another token has not moved. -/
inductive RunError.Moved (k : Nat) (source : String) (others : Token → Prop) :
    RunError → RunError → Prop where
  | inside {t f} : t ∈ tokensOf (scan source) →
    RunError.Moved k source others (.fault t.line f) (.fault (t.line + k) f)
  | outside {t f} : others t → RunError.Moved k source others (.fault t.line f) (.fault t.line f)
  | sinkFull : RunError.Moved k source others .sinkFull .sinkFull

theorem RunError.Alike.moved {d d₁ : Difference} {k : Nat} {source : String} {others : Token → Prop}
    (hd : d.Plain) (hothers : ∀ t t', d.tokens t t' → others t)
    (hadds : d.Adds (MovedDown k source) d₁) {e e' : RunError} (h : e.Alike d₁ e') :
    e.Moved k source others e' := by
  have fault {t t' : Token} (ht : d₁.tokens t t') (f : RuntimeFault) :
      RunError.Moved k source others (.fault t.line f) (.fault t'.line f) := by
    rcases hadds.tokens ht with ht | ⟨rfl, hmem⟩
    · obtain rfl := hd.tokens ht
      exact .outside (hothers _ _ ht)
    · exact .inside hmem
  cases h with
  | fault ht => exact fault ht _
  | undefined ht =>
    rw [hadds.within.old, hadds.within.new, hd.names]
    exact fault ht _
  | sinkFull => exact .sinkFull

/-- A program may be split over two steps of a session.  Two sources that are accepted are accepted as
one, the second below the first.  If the first ends without an error, the run of both prints what the
two steps print, ends as the second step does with the error that the second source has below as many
lines, and leaves the same global variables; if the first ends with an error, the run of both is its run.
And the run of both ends only if those of the steps do. -/
theorem splitting_keeps_runs {limit? : Option Nat} {clock : Clock} {steps : List SessionStep}
    {s : Session} (hs : s = (Session.start limit? clock).after steps) {A B : String}
    (hA : s.accepts A = true) (hB : s.accepts B = true) :
    s.accepts (A ++ "\n" ++ B) = true ∧
      (∀ r₁ s₁ r₂ s₂, s.Runs A r₁ s₁ → r₁.outcome = .ok → s₁.Runs B r₂ s₂ →
        ∃ r s', s.Runs (A ++ "\n" ++ B) r s' ∧
          r.outcome = r₂.outcome ∧ r.printed = r₁.printed ++ r₂.printed ∧
          (∃ r₃ s₃, s₁.Runs (below (linesOf A) B) r₃ s₃ ∧ r.errors = r₃.errors) ∧
          List.Forall₂ (fun e e' => ∃ x x', e = .running x ∧ e' = .running x' ∧
            x.Moved (linesOf A) B
              (fun t => t ∈ tokensOf (scan A) ∨ ∃ step ∈ steps, step.Reads t) x')
            r₂.errors r.errors ∧
          ∀ name, s'.see? name = s₂.see? name) ∧
      (∀ r₁ s₁, s.Runs A r₁ s₁ → r₁.outcome = .runtimeError →
        ∃ s', s.Runs (A ++ "\n" ++ B) r₁ s' ∧ ∀ name, s'.see? name = s₁.see? name) ∧
      ∀ r s', s.Runs (A ++ "\n" ++ B) r s' →
        ∃ r₁ s₁, s.Runs A r₁ s₁ ∧ (r₁.outcome = .ok → ∃ r₂ s₂, s₁.Runs B r₂ s₂) := by
  obtain ⟨d, hd, htokens, htwin⟩ := Session.twin_after limit? clock steps
  rw [← hs] at htwin
  refine ⟨Session.accepts_join hA hB, ?_, ?_, fun r s' => htwin.runs_of_join hd hA hB⟩
  · intro r₁ s₁ r₂ s₂ hfirst hok hsecond
    obtain ⟨r₃, s₃, s', d₁, d₂, hbelow, hboth, hadds₁, hadds₂, halike, hsee⟩ :=
      htwin.runs_join hd hA hB hfirst hok hsecond
    refine ⟨r₃.after r₁.printed, s', hboth, halike.outcome, congrArg (r₁.printed ++ ·) halike.printed,
      ⟨r₃, s₃, hbelow, rfl⟩, ?_, hsee⟩
    refine halike.errors.imp fun e e' he => ?_
    obtain ⟨x, x', rfl, rfl, hx⟩ := he
    refine ⟨x, x', rfl, rfl, hx.moved (hadds₁.plain hd) (fun t t' ht => ?_) hadds₂⟩
    -- a token that corresponds to another one was read before, or in the first source
    exact (hadds₁.tokens ht).symm.imp (fun h => h.2) fun h => htokens t t' h
  · intro r₁ s₁ hfirst hfailed
    obtain ⟨fuel, hrun⟩ := hfirst.exists_fuel
    obtain ⟨s', hboth, d₁, w, hm⟩ := htwin.run_join_of_ne_ok hd hA hB
      (hrun (fuel + (s.program A).length) (Nat.le_add_right _ _)) (by rw [hfailed]; decide)
    exact ⟨s', ⟨_, hboth, hfirst.outcome_ne⟩, Session.see?_eq hm⟩

/-- A function of the first source is called by the second one, which then fails.  In the source of both
the failure is two lines further down. -/
theorem failing_call_split :
    let s := (Session.start none (.startingAt 0)).after [.run 40 "var mark = \"!\";"]
    let A := "fun f(x) \x7b return x + mark; \x7d\nprint f(\"a\");"
    let B := "print f(\"b\");\nmissing;"
    s.accepts A = true ∧ s.accepts B = true ∧ (s.run 40 A).1.outcome = .ok ∧
      ((s.run 40 A).2.run 40 B).1.errors = [.running (.fault 2 (.undefinedVariable "missing"))] ∧
      ∃ r s', s.Runs (A ++ "\n" ++ B) r s' ∧
        r.printed = (s.run 40 A).1.printed ++ ((s.run 40 A).2.run 40 B).1.printed ∧
        r.errors = [.running (.fault 4 (.undefinedVariable "missing"))] := by
  intro s A B
  have hA : s.accepts A = true := by decide +kernel
  have hB : s.accepts B = true := by decide +kernel
  have hok : (s.run 40 A).1.outcome = .ok := by decide +kernel
  have hfailed : ((s.run 40 A).2.run 40 B).1.outcome = .runtimeError := by decide +kernel
  have herrors : ((s.run 40 A).2.run 40 B).1.errors =
      [.running (.fault 2 (.undefinedVariable "missing"))] := by decide +kernel
  have hbelow : ((s.run 40 A).2.run 40 (below (linesOf A) B)).1.errors =
      [.running (.fault 4 (.undefinedVariable "missing"))] := by decide +kernel
  have hends : ((s.run 40 A).2.run 40 (below (linesOf A) B)).1.outcome ≠ .unfinished := by
    decide +kernel
  obtain ⟨-, hsplit, -⟩ := splitting_keeps_runs (s := s) rfl hA hB
  have hfirst := Session.runs_of_outcome (ne_of_eq_of_ne hok (by decide))
  have hsecond := Session.runs_of_outcome (ne_of_eq_of_ne hfailed (by decide))
  obtain ⟨r, s', hrun, -, hprinted, ⟨r₃, s₃, hrun₃, heq⟩, -, -⟩ := hsplit _ _ _ _ hfirst hok hsecond
  rw [(hrun₃.unique (Session.runs_of_outcome hends)).1] at heq
  exact ⟨hA, hB, hok, herrors, r, s', hrun, hprinted, heq.trans hbelow⟩

end LoxLang
