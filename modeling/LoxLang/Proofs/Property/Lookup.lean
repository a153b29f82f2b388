import Mathlib
import LoxLang.Proofs.Property.Runs

/-!
# Properties follow the history of their instance

The log of a session has what happens to instances in all of its runs, one after another
(`Session.log`).  What a property gives depends on that history of the one instance only: on what was
stored in the field last, and else on the class that created the instance (`properties_follow_history`).
-/

namespace LoxLang

open Evaluation

namespace Session

/-- What happens to instances in the run of a source. -/
def logOf (s : Session) (fuel : Nat) (source : String) : List Access :=
  if s.accepts source then
    accesses (s.bindingsFor source) fuel (.execEach (s.program source)) s.ready
  else []

/-- What happens to instances in runs one after another. -/
def log (s : Session) : List (Nat × String) → List Access
  | [] => []
  | (fuel, source) :: steps => s.logOf fuel source ++ (s.run fuel source).2.log steps

theorem recorded_start (limit? : Option Nat) (clock : Clock) :
    Recorded [] (start limit? clock).ready :=
  ⟨.initial, Heap.whole_initial, Nat.zero_lt_one⟩

variable {s : Session} {log : List Access}

/-- The run of a source records its log. -/
theorem recorded_run (hs : Recorded log s.ready) (fuel : Nat) (source : String) :
    Told log (s.logOf fuel source) ∧
      Recorded (log ++ s.logOf fuel source) (s.run fuel source).2.ready := by
  rw [logOf]
  cases h : s.accepts source with
  | true =>
    have hrun := (recordsAll (s.bindingsFor source) fuel).execEach hs (s.program source)
    rw [run_of_accepts h]
    exact ⟨hrun.told, hrun.recorded.tells, hrun.recorded.whole, hrun.kept.has hs.scope⟩
  | false =>
    obtain ⟨bindings, -, hrun⟩ := run_of_not_accepts h fuel
    rw [hrun, if_neg Bool.false_ne_true, List.append_nil]
    exact ⟨told_of_no_read (by simp), hs⟩

/-- Runs one after another record their log. -/
theorem recorded_log (hs : Recorded log s.ready) (steps : List (Nat × String)) :
    Told log (s.log steps) ∧ Recorded (log ++ s.log steps) (s.runAll steps).ready := by
  induction steps generalizing s log with
  | nil => exact ⟨told_of_no_read (by simp [Session.log]), by simpa [Session.log, runAll] using hs⟩
  | cons step steps ih =>
    obtain ⟨htold, hrun⟩ := recorded_run hs step.1 step.2
    obtain ⟨htold', hruns⟩ := ih hrun
    rw [List.append_assoc] at hruns
    exact ⟨htold.append htold', hruns⟩

theorem log_concat (s : Session) (steps : List (Nat × String)) (fuel : Nat) (source : String) :
    s.log (steps ++ [(fuel, source)]) = s.log steps ++ (s.runAll steps).logOf fuel source := by
  induction steps generalizing s with
  | nil => simp [Session.log, runAll]
  | cons step steps ih =>
    rw [List.cons_append, Session.log, Session.log, ih, List.append_assoc]
    rfl

/-- The log of an accepted source has what the run of the source comes to. -/
theorem mem_logOf {source : String} (h : s.accepts source = true) {a : Access} {fuel : Nat} :
    a ∈ s.logOf fuel source ↔
      a ∈ accesses (s.bindingsFor source) fuel (.execEach (s.program source)) s.ready := by
  rw [logOf, if_pos h]

end Session

/-- An expression that reads a property gives what reading it gives. -/
theorem eval_get_of_returns {b : Bindings} {object : Expr NodeId} {p : Token} {m m' : Machine}
    {i : InstanceId} (ho : Returns (eval b · object) m (.instanceRef i) m') :
    ∃ n, ∀ fuel ≥ n, eval b fuel (.get object p) m = readProperty i p m' := by
  obtain ⟨n, hn⟩ := ho.exists_fuel (eval_extends b object)
  refine ⟨n + 1, fun fuel hle => ?_⟩
  obtain ⟨fuel, rfl⟩ := Nat.exists_eq_add_of_le' (Nat.one_le_of_lt hle)
  rw [eval, bind_of_ok (hn fuel (Nat.le_of_succ_le_succ hle))]

/-- In every session:

* whenever a property of an instance is read, the result is the value that was last stored in the field
  of that instance; if there is none, the method of the class that created the instance, bound to it; and
  if there is none either, an error;
* the property gives the same each time until a value is stored in that very field, whatever else
  happens;
* afterwards the field of an instance has the value that was last stored in it;
* the log has exactly what the runs come to: each assignment to a property whose object and value have
  been evaluated, each instance that a class makes, and each property that is read, with what the
  expression gives. -/
theorem properties_follow_history (limit? : Option Nat) (clock : Clock) (steps : List (Nat × String)) :
    let s := Session.start limit? clock
    (∀ earlier i p r later, s.log steps = earlier ++ .read i p r :: later → Follows earlier i p r) ∧
    (∀ earlier i p r between q r' later,
      s.log steps = earlier ++ .read i p r :: (between ++ .read i q r' :: later) →
      q.lexeme = p.lexeme → (∀ v, .stored i p.lexeme v ∉ between) → SameReading i r r') ∧
    (∀ i name, (s.runAll steps).machine.heap.field? i name = lastStored (s.log steps) i name) ∧
    ∀ source, (s.runAll steps).accepts source = true →
      let s' := s.runAll steps
      let b := s'.bindingsFor source
      let t := Task.execEach (s'.program source)
      (∀ fuel, s.log (steps ++ [(fuel, source)]) = s.log steps ++ s'.logOf fuel source) ∧
      (∀ fuel, ∀ a ∈ s'.logOf fuel source, ComesTo b t s'.ready a) ∧
      (∀ a, ComesTo b t s'.ready a → ∃ n, ∀ fuel ≥ n, a ∈ s'.logOf fuel source) ∧
      ∀ trail object p m i m', During b t s'.ready trail (.eval (.get object p)) m →
        Returns (eval b · object) m (.instanceRef i) m' →
        ∃ r n, ∀ fuel ≥ n, eval b fuel (.get object p) m = r ∧ .read i p r ∈ s'.logOf fuel source := by
  intro s
  obtain ⟨htold, hend⟩ := Session.recorded_log (Session.recorded_start limit? clock) steps
  refine ⟨htold, fun earlier i p r between q r' later hlog hname hstored => ?_, ?_, ?_⟩
  · have hfirst := htold earlier i p r _ hlog
    have hsecond := htold (earlier ++ .read i p r :: between) i q r' later (by simpa using hlog)
    exact hfirst.same hsecond hname (by simpa using hstored)
  · exact hend.tells.fields
  · intro source haccepts s' b t
    refine ⟨fun fuel => s.log_concat steps fuel source, fun fuel a ha => ?_, fun a ha => ?_, ?_⟩
    · exact comesTo_of_mem ((Session.mem_logOf haccepts).1 ha)
    · obtain ⟨n, hn⟩ := ha.mem
      exact ⟨n, fun fuel hle => (Session.mem_logOf haccepts).2 (hn fuel hle)⟩
    · intro trail object p m i m' hduring ho
      obtain ⟨n, hn⟩ := eval_get_of_returns (p := p) ho
      have hread : ComesTo b t s'.ready (.read i p (readProperty i p m')) :=
        ⟨trail, _, m, hduring, .read ho⟩
      obtain ⟨k, hk⟩ := hread.mem
      refine ⟨_, max n k, fun fuel hle => ⟨hn fuel (Nat.max_le.1 hle).1, ?_⟩⟩
      exact (Session.mem_logOf haccepts).2 (hk fuel (Nat.max_le.1 hle).2)

/-- A method of an instance is read, then the field of its name is given a value and read twice. -/
def shadowedMethod : List (Stmt NodeId) :=
  let className : Token := ⟨.symbol .identifier, "A", 1⟩
  let name : Token := ⟨.symbol .identifier, "a", 1⟩
  let method : Token := ⟨.symbol .identifier, "m", 1⟩
  [.classDecl className [⟨0, method, [], []⟩],
    .var name (some (.call (.var 1 className) ⟨.symbol .rightParen, ")", 1⟩ [])),
    .expr (.get (.var 2 name) method),
    .expr (.set (.var 3 name) method (.var 4 name)),
    .expr (.get (.var 5 name) method), .expr (.get (.var 6 name) method)]

/-- A field hides the method of the same name from the moment of the assignment on. -/
theorem field_hides_method :
    let s := Session.start none (.startingAt 0)
    let source := "class A \x7b m() \x7b\x7d \x7d var a = A(); a.m; a.m = a; a.m; a.m;"
    (∃ earlier p m q r, s.log [(20, source)] =
      earlier ++ .read 0 p (.ok (.instanceRef 0) m) :: ([] ++ .read 0 q r :: []) ∧
        SameReading 0 (.ok (.instanceRef 0) m) r) ∧
    ComesTo (s.bindingsFor source) (.execEach (s.program source)) s.ready
      (.stored 0 "m" (.instanceRef 0)) := by
  intro s source
  have haccepts : s.accepts source = true := by decide +kernel
  have hprogram : s.program source = shadowedMethod := by cbv
  have hbindings : s.bindingsFor source = .empty := by rw [Session.bindingsFor, hprogram]; rfl
  obtain ⟨log, hlog, hrun⟩ : ∃ log, s.log [(20, source)] = log ∧
      accesses .empty 20 (.execEach shadowedMethod) (Session.start none (.startingAt 0)).ready = log := by
    refine ⟨_, ?_, rfl⟩
    rw [Session.log, Session.logOf, if_pos haccepts, hbindings, hprogram]
    exact List.append_nil _
  cbv at hrun
  subst hrun
  constructor
  · obtain ⟨hfollows, hsame, -⟩ := properties_follow_history none (.startingAt 0) [(20, source)]
    obtain ⟨m, hread⟩ := (hfollows [_, _, _] 0 _ _ _ hlog).stored (.instanceRef 0) rfl
    rw [hread] at hlog
    have hagain := hsame [_, _, _] 0 _ _ [] _ _ [] hlog rfl (by simp)
    exact ⟨[_, _, _], _, m, _, _, hlog, hagain⟩
  · obtain ⟨-, -, -, hlogs⟩ := properties_follow_history none (.startingAt 0) []
    obtain ⟨hconcat, hcomes, -⟩ := hlogs source haccepts
    have hmem : .stored 0 "m" (.instanceRef 0) ∈ s.log [(20, source)] := by rw [hlog]; simp
    rw [show s.log [(20, source)] = s.logOf 20 source from hconcat 20] at hmem
    exact hcomes 20 _ hmem

end LoxLang
