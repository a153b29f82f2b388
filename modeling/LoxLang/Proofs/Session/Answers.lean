import LoxLang.Proofs.Alike.Session

/-!
# What a session shows

A session answers steps of three kinds: it runs a source, looks a global variable up, or compares two
global variables.  Twin sessions whose tokens are the same answer all steps alike
(`Session.Twin.answers`), and a session is its own twin after any steps (`Session.twin_after`).
-/

namespace LoxLang

/-! ### Steps and answers -/

/-- Something that a session is asked to do. -/
inductive SessionStep where
  | run (fuel : Nat) (source : String)
  /-- Looks a global variable up. -/
  | get (name : String)
  /-- Compares two global variables. -/
  | eq (left right : String)

/-- What can be seen of a value: what it is, its type, its two texts, and whether it counts as true.
Functions, classes and instances are told apart by what they refer to. -/
structure Seen where
  value : Value
  typeName : String
  display : String
  inspect : String
  truthy : Bool

/-- What a step shows. -/
inductive Answer where
  | report (r : RunReport)
  | value (v? : Option Seen)
  | same (b : Bool)

/-- The step runs a source with the token. -/
def SessionStep.Reads : SessionStep → Token → Prop
  | .run _ source, t => t ∈ tokensOf (scan source)
  | _, _ => False

namespace Session

/-- What can be seen of a global variable. -/
def see? (s : Session) (name : String) : Option Seen :=
  (s.global? name).map fun v =>
    ⟨v, v.typeName, s.machine.heap.display v, s.machine.heap.inspect v, v.isTruthy⟩

/-- The answer to a step, and the session after it. -/
def answer (s : Session) : SessionStep → Answer × Session
  | .run fuel source => (.report (s.run fuel source).1, (s.run fuel source).2)
  | .get name => (.value (s.see? name), s)
  | .eq left right => (.same (Value.sameOption (s.global? left) (s.global? right)), s)

/-- The answers to steps one after another. -/
def answers (s : Session) : List SessionStep → List Answer
  | [] => []
  | step :: steps => (s.answer step).1 :: (s.answer step).2.answers steps

/-- The session after steps one after another. -/
def after (s : Session) (steps : List SessionStep) : Session :=
  steps.foldl (fun s step => (s.answer step).2) s

theorem length_answers (s : Session) (steps : List SessionStep) :
    (s.answers steps).length = steps.length := by
  induction steps generalizing s with
  | nil => rfl
  | cons step steps ih => rw [answers, List.length_cons, List.length_cons, ih]

theorem answers_append (s : Session) (before steps : List SessionStep) :
    s.answers (before ++ steps) = s.answers before ++ (s.after before).answers steps := by
  induction before generalizing s with
  | nil => rfl
  | cons step before ih =>
    rw [List.cons_append, answers, answers, ih, List.cons_append]
    rfl

end Session

/-! ### Twins show the same -/

/-- Corresponding tokens are the same, and no variable has another name. -/
structure Difference.Plain (d : Difference) : Prop where
  tokens : ∀ ⦃t t'⦄, d.tokens t t' → t' = t
  names : d.new = d.old

theorem Difference.Adds.plain {source : String} {d d₁ : Difference}
    (h : d.Adds (MovedDown 0 source) d₁) (hd : d.Plain) : d₁.Plain where
  tokens := fun _ _ ht => (h.tokens ht).elim (fun h => hd.tokens h) fun h => h.1
  names := by rw [h.within.old, h.within.new, hd.names]

theorem Difference.Plain.retable {d : Difference} (hd : d.Plain) {table' : Bindings}
    (h : d.table.Agree d.labels table') : (d.retable table' h).Plain := ⟨hd.tokens, hd.names⟩

theorem RunError.Alike.eq {d : Difference} (hd : d.Plain) {e e' : RunError} (h : e.Alike d e') :
    e' = e := by
  cases h with
  | fault ht => rw [hd.tokens ht]
  | undefined ht => rw [hd.tokens ht, hd.names]
  | sinkFull => rfl

theorem RunReport.Alike.eq {d : Difference} (hd : d.Plain) {r r' : RunReport} (h : r.Alike d r') :
    r' = r := by
  have herrors : r'.errors = r.errors := by
    have hall := h.errors
    generalize r.errors = es, r'.errors = es' at hall
    induction hall with
    | nil => rfl
    | cons he _ ih =>
      obtain ⟨e, e', rfl, rfl, halike⟩ := he
      rw [halike.eq hd, ih]
  cases r
  cases r'
  simp only [RunReport.mk.injEq]
  exact ⟨h.outcome, h.printed, herrors⟩

theorem Heap.Twin.inspect {d : Difference} {w : World} {h h' : Heap} (ht : h.Twin d w h')
    (v : Value) : h'.inspect v = h.inspect v := by
  cases v <;> simp only [Heap.inspect, ht.display]

namespace Session

variable {d : Difference} {s s' : Session}

theorem see?_eq {w : World} (h : s.machine.Twin d w s'.machine) (name : String) :
    s'.see? name = s.see? name := by
  have hglobal : s'.global? name = s.global? name := h.global name
  simp only [see?, hglobal, h.heap.display, h.heap.inspect]

theorem Twin.answer (h : s.Twin d s') (hd : d.Plain) (step : SessionStep) :
    (s'.answer step).1 = (s.answer step).1 ∧
      ∃ d₁ : Difference, d₁.Plain ∧ (∀ t t', d₁.tokens t t' → d.tokens t t' ∨ step.Reads t) ∧
        (s.answer step).2.Twin d₁ (s'.answer step).2 := by
  obtain ⟨w, hm⟩ := h.machine
  cases step with
  | run fuel source =>
    obtain ⟨d₁, hadds, htwin, hreport⟩ := h.run fuel source
    have hd₁ := hadds.plain hd
    have hreport := hreport.elim id fun hreport => hreport.eq hd₁
    exact ⟨congrArg Answer.report hreport, d₁, hd₁,
      fun _ _ ht => (hadds.tokens ht).imp_right And.right, htwin⟩
  | get name => exact ⟨congrArg Answer.value (see?_eq hm name), d, hd, fun _ _ => .inl, h⟩
  | eq left right =>
    have hglobal (name : String) : s'.global? name = s.global? name := hm.global name
    exact ⟨by simp only [Session.answer, hglobal], d, hd, fun _ _ => .inl, h⟩

/-- Twin sessions answer all steps alike. -/
theorem Twin.answers (h : s.Twin d s') (hd : d.Plain) (steps : List SessionStep) :
    s'.answers steps = s.answers steps := by
  induction steps generalizing d s s' with
  | nil => rfl
  | cons step steps ih =>
    obtain ⟨hanswer, d₁, hd₁, -, htwin⟩ := h.answer hd step
    rw [Session.answers, Session.answers, hanswer, ih htwin hd₁]

end Session

/-! ### A session is its own twin -/

/-- Nothing corresponds, and no variable has another name. -/
def Difference.none : Difference where
  table := .empty
  table' := .empty
  labels _ _ := False
  tokens _ _ := False
  old := ""
  new := ""
  distance := nofun
  old_ne_this := by decide
  new_ne_this := by decide

theorem Difference.plain_none : Difference.none.Plain := ⟨fun _ _ h => h.elim, rfl⟩

theorem Heap.Twin.initial (d : Difference) : Heap.initial.Twin d (fun _ => false) Heap.initial where
  frames := .refl _
  global := Nat.succ_pos 0
  globalMark := rfl
  globalLast := rfl
  functions := ⟨rfl, fun _ => by rw [Heap.initial, Array.getElem?_empty]; exact .none⟩
  classes := ⟨rfl, fun _ => by rw [Heap.initial, Array.getElem?_empty]; exact .none⟩
  instances := rfl

namespace Session

theorem twin_start (limit? : Option Nat) (clock : Clock) :
    (start limit? clock).Twin .none (start limit? clock) where
  machine := ⟨fun _ => false, .initial _, rfl, rfl, rfl, rfl⟩
  table := rfl
  table' := rfl
  oneToOne := nofun
  used := nofun
  unused id _ := Bindings.distance?_empty id
  unused' id _ := Bindings.distance?_empty id

theorem Twin.after {d : Difference} {s : Session} (h : s.Twin d s) (hd : d.Plain)
    (steps : List SessionStep) :
    ∃ d₁ : Difference, d₁.Plain ∧
      (∀ t t', d₁.tokens t t' → d.tokens t t' ∨ ∃ step ∈ steps, step.Reads t) ∧
      (s.after steps).Twin d₁ (s.after steps) := by
  induction steps generalizing d s with
  | nil => exact ⟨d, hd, fun _ _ => .inl, h⟩
  | cons step steps ih =>
    obtain ⟨-, d₁, hd₁, htokens₁, htwin⟩ := h.answer hd step
    obtain ⟨d₂, hd₂, htokens₂, htwin⟩ := ih htwin hd₁
    refine ⟨d₂, hd₂, fun t t' ht => ?_, htwin⟩
    rcases htokens₂ t t' ht with ht | ⟨step', hmem, hreads⟩
    · exact (htokens₁ t t' ht).imp_right fun hreads => ⟨step, List.mem_cons_self, hreads⟩
    · exact .inr ⟨step', List.mem_cons_of_mem _ hmem, hreads⟩

/-- After any steps a session is its own twin, under a difference about the tokens of its sources. -/
theorem twin_after (limit? : Option Nat) (clock : Clock) (steps : List SessionStep) :
    ∃ d : Difference, d.Plain ∧ (∀ t t', d.tokens t t' → ∃ step ∈ steps, step.Reads t) ∧
      ((start limit? clock).after steps).Twin d ((start limit? clock).after steps) := by
  obtain ⟨d, hd, htokens, htwin⟩ := (twin_start limit? clock).after Difference.plain_none steps
  exact ⟨d, hd, fun t t' ht => (htokens t t' ht).resolve_left id, htwin⟩

end Session

end LoxLang
