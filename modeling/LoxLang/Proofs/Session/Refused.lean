import Mathlib
import LoxLang.Proofs.Session.Answers

/-!
# Refused sources

A source with errors of reading, parsing or scoping uses up numbers for occurrences, and may leave
distances in the table.  It shows in nothing that the session does afterwards: no occurrence of another
source has one of these numbers (`Session.Twin.refuse`), so that the session without the refused source is
its twin (`refused_run_leaves_no_trace`).
-/

namespace LoxLang

open Evaluation

namespace Session

variable {s s' : Session} {source : String} {fuel : Nat}

theorem outcome_conclude_ne (s : Session) (r : EStateM.Result Unwind Machine Unit) :
    (s.conclude r).1.outcome ≠ .staticError := by
  cases r with
  | ok a m => nofun
  | error u m =>
    cases u with
    | returned v => nofun
    | stopped stop => cases stop <;> nofun

theorem not_accepts_of_staticError (h : (s.run fuel source).1.outcome = .staticError) :
    s.accepts source = false := by
  rw [Bool.eq_false_iff]
  intro haccepts
  rw [run_accepted haccepts] at h
  exact outcome_conclude_ne _ _ h

/-- Nothing of a refused source runs. -/
theorem printed_of_not_accepts (h : s.accepts source = false) (fuel : Nat) :
    (s.run fuel source).1.printed = .empty := by
  by_cases hread : readErrors source = []
  · have hscopes : (Scoping.check (s.program source)).errors ≠ [] := fun hscopes => by
      rw [accepts_iff.2 ⟨hread, hscopes⟩] at h
      cases h
    rw [run_misscoped hread hscopes]
  · rw [run_unread hread]

/-- A refused source leaves the table as it was but for the numbers that it used up. -/
theorem distance?_of_not_accepts (h : s.accepts source = false) (fuel : Nat) {id : NodeId}
    (hid : id < s.nextId ∨ s.nextAfter source ≤ id) :
    (s.run fuel source).2.bindings.distance? id = s.bindings.distance? id := by
  obtain ⟨bindings, hbindings, hrun⟩ := run_of_not_accepts h fuel
  rw [hrun]
  rcases hbindings with rfl | rfl
  · rfl
  · exact distance?_bindingsFor hid

/-- A refused source in one of two twin sessions leaves them twins. -/
theorem Twin.refuse {d : Difference} (h : s.Twin d s') (hrefused : s.accepts source = false)
    (fuel : Nat) (hd : d.Plain) :
    ∃ d₁ : Difference, d₁.Plain ∧ (s.run fuel source).2.Twin d₁ s' := by
  obtain ⟨bindings, -, hrun⟩ := run_of_not_accepts hrefused fuel
  have hdistance {id : NodeId} (hid : id < s.nextId ∨ s.nextAfter source ≤ id) :
      bindings.distance? id = s.bindings.distance? id := by
    rw [← distance?_of_not_accepts hrefused fuel hid, hrun]
  have hle := Twin.nextId_le_nextAfter s source
  -- labels that correspond are older than the refused source
  let d₁ : Difference :=
    { d with
      table := bindings
      distance := fun id id' hid => by
        rw [d.distance hid, h.table, hdistance (.inl (h.used hid).1)] }
  have hwithin : d.Within d₁ := by
    refine ⟨id, id, rfl, rfl, fun hid => ?_⟩
    rw [h.table, hdistance (.inl (h.used hid).1)]
  obtain ⟨w, hm⟩ := h.machine
  rw [hrun]
  exact ⟨d₁, ⟨hd.tokens, hd.names⟩, {
    machine := ⟨w, hm.mono hwithin⟩
    table := rfl
    table' := h.table'
    oneToOne := h.oneToOne
    used := fun id id' hid => ⟨Nat.lt_of_lt_of_le (h.used hid).1 hle, (h.used hid).2⟩
    unused := fun id hid => (hdistance (.inr hid)).trans (h.unused id (hle.trans hid))
    unused' := h.unused' }⟩

end Session

/-- A run that ends with an error found before anything ran prints nothing, and without it the session
gives the same answers to all other steps, before it and after it: the same outcomes, texts, errors and
values, with functions, classes and instances the same ones.  What the run leaves behind in the table of
distances and the numbers that it uses up show nowhere. -/
theorem refused_run_leaves_no_trace (limit? : Option Nat) (clock : Clock)
    (before after : List SessionStep) (fuel : Nat) (source : String)
    (hrefused : (((Session.start limit? clock).after before).run fuel source).1.outcome =
      .staticError) :
    (((Session.start limit? clock).after before).run fuel source).1.printed = .empty ∧
      ((Session.start limit? clock).answers (before ++ .run fuel source :: after)).eraseIdx
          before.length =
        (Session.start limit? clock).answers (before ++ after) := by
  -- the session is a twin of itself, and a refused source in one of the two keeps it one
  obtain ⟨d, hd, -, htwin⟩ := Session.twin_after limit? clock before
  generalize hstart : Session.start limit? clock = s at htwin hrefused ⊢
  have hnot := Session.not_accepts_of_staticError hrefused
  refine ⟨Session.printed_of_not_accepts hnot fuel, ?_⟩
  obtain ⟨d₁, hd₁, hafter⟩ := htwin.refuse hnot fuel hd
  have hanswers : (s.after before).answers after =
      ((s.after before).run fuel source).2.answers after := hafter.answers hd₁ after
  rw [Session.answers_append, Session.answers_append, ← Session.length_answers s before,
    List.eraseIdx_append_of_length_le (Nat.le_refl _), Nat.sub_self, Session.answers,
    List.eraseIdx_cons_zero, hanswers]
  rfl

/-- A variable declared twice after a use of it: the check refuses the source, but has noted the distance
of the use.  The instance made before and the method called afterwards are the same without it. -/
theorem redeclaration_leaves_no_trace :
    let s := Session.start none (.startingAt 0)
    let before : List SessionStep :=
      [.run 40 "class C \x7b m() \x7b return this; \x7d \x7d var c = C();"]
    let source := "\x7b var a; fun f() \x7b return a; \x7d var a; \x7d"
    let after : List SessionStep :=
      [.run 40 "fun g() \x7b return c.m(); \x7d print g();", .get "c", .eq "c" "c"]
    ((s.after before).run 40 source).1.outcome = .staticError ∧
      ((s.after before).run 40 source).2.bindings.distance? 4 = some 1 ∧
      ((s.after before).run 40 source).1.printed = .empty ∧
      (s.answers (before ++ .run 40 source :: after)).eraseIdx before.length =
        s.answers (before ++ after) := by
  intro s before source after
  have hrefused : ((s.after before).run 40 source).1.outcome = .staticError := by decide +kernel
  refine ⟨hrefused, by decide +kernel, ?_⟩
  exact refused_run_leaves_no_trace none (.startingAt 0) before after 40 source hrefused

end LoxLang
