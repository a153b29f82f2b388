import LoxLang.Proofs.Run.Finished

/-!
# Runs with a bounded sink

A run whose sink has a limit follows the run without a limit as long as the text fits.  If all of it
does, the two end alike; if not, the print that crosses the limit fills the sink and fails, and nothing
takes this back (`Truncated`).  Each way of composing runs keeps this, and so does the evaluator
(`Truncates.all`).
-/

namespace LoxLang

/-! ### Sinks -/

namespace Sink

variable {s : Sink} {limit : Nat}

/-- The sink that takes so many bytes in all. -/
def limited (s : Sink) (limit : Nat) : Sink := { s with limit? := some limit }

/-- The sink with all the bytes of a text. -/
def append (s : Sink) (bytes : ByteArray) : Sink := { s with written := s.written ++ bytes }

theorem write_of_fits {bytes : ByteArray} (h : s.fits bytes = true) :
    s.write bytes = s.append bytes := by
  rw [write, append, fits_iff.1 h, ByteArray.extract_zero_size]

theorem fits_of_unlimited (h : s.limit? = none) (bytes : ByteArray) : s.fits bytes = true := by
  rw [fits_iff, room, h]

/-- A text that fits. -/
theorem fits_limited {bytes : ByteArray} (h : s.written.size + bytes.size ≤ limit) :
    (s.limited limit).fits bytes = true := by
  rw [fits_iff]
  change min bytes.size (limit - s.written.size) = bytes.size
  omega

section

variable {bytes : ByteArray} (hle : s.written.size ≤ limit)
  (hcut : limit < s.written.size + bytes.size)

include hle hcut

theorem room_limited : (s.limited limit).room bytes.size = limit - s.written.size := by
  change min bytes.size (limit - s.written.size) = _
  omega

/-- A text that does not fit. -/
theorem not_fits_limited : (s.limited limit).fits bytes = false := by
  rw [fits, room_limited hle hcut, beq_eq_false_iff_ne]
  omega

/-- What does not fit is cut off. -/
theorem written_limited :
    ((s.limited limit).write bytes).written = (s.written ++ bytes).extract 0 limit := by
  have hall : s.written.extract 0 limit = s.written := by
    have hmax := ByteArray.extract_zero_max_size (a := s.written) (i := limit)
    rwa [Nat.max_eq_left hle] at hmax
  rw [write, room_limited hle hcut, ByteArray.extract_append, hall, Nat.zero_sub]
  rfl

end

end Sink

/-- The machine whose sink takes so many bytes in all. -/
def Machine.limited (m : Machine) (limit : Nat) : Machine := { m with sink := m.sink.limited limit }

namespace Evaluation

open Eval Exec

/-- The number of bytes printed at the end of a run. -/
def finalSize {ε α : Type} (r : EStateM.Result ε Machine α) : Nat :=
  (finalMachine r).sink.written.size

/-- The result on the machine whose sink takes so many bytes in all. -/
def limitedResult {ε α : Type} (limit : Nat) :
    EStateM.Result ε Machine α → EStateM.Result ε Machine α
  | .ok a m => .ok a (m.limited limit)
  | .error e m => .error e (m.limited limit)

/-- The results of a run without a limit and with one.  They are the same if all text fits; if it does
not then the second one is the given error, and its text is cut off at the limit. -/
inductive Truncated {ε α : Type} (full : ε) (limit : Nat) :
    EStateM.Result ε Machine α → EStateM.Result ε Machine α → Prop where
  | fits {r} : finalSize r ≤ limit → Truncated full limit r (limitedResult limit r)
  | cut {r m'} : limit < finalSize r →
    m'.sink.written = (finalMachine r).sink.written.extract 0 limit →
    Truncated full limit r (.error full m')

/-- The sinks of the machines have the same limit. -/
def SameLimit (m m' : Machine) : Prop := m'.sink.limit? = m.sink.limit?

theorem sameLimit_stable : Stable SameLimit where
  refl _ := rfl
  trans h h' := h'.trans h
  addFrame _ _ := rfl
  addFunction _ _ := rfl
  addClass _ _ := rfl
  addInstance _ _ := rfl
  define _ _ _ _ := rfl
  setField _ _ _ _ := rfl
  print _ _ := rfl
  tick _ := rfl
  inCall := id
  inFrame := id

/-- With a limit the run is truncated.  It prints to the end of the text, and leaves the limit alone. -/
structure Truncates {ε α : Type} (full : ε) (x : EStateM ε Machine α) : Prop where
  truncated : ∀ m limit, m.sink.limit? = none → m.sink.written.size ≤ limit →
    Truncated full limit (x m) (x (m.limited limit))
  prints : Keeps PrintsOn x
  sameLimit : Keeps SameLimit x

namespace Truncates

variable {ε α β : Type} {full : ε}

/-! ### Ways of composing runs -/

/-- A run that does not see the sink. -/
theorem silent {x : EStateM ε Machine α} (hsink : ∀ m, (finalMachine (x m)).sink = m.sink)
    (hsame : ∀ m limit, x (m.limited limit) = limitedResult limit (x m)) : Truncates full x where
  truncated m limit _ hle := by
    rw [hsame]
    exact .fits (by rw [finalSize, hsink]; exact hle)
  prints m := ⟨.empty, by rw [hsink, ByteArray.append_empty]⟩
  sameLimit m := congrArg Sink.limit? (hsink m)

theorem pure (a : α) : Truncates full (Pure.pure a : EStateM ε Machine α) :=
  silent (fun _ => rfl) fun _ _ => rfl

theorem throw (e : ε) : Truncates full (MonadExcept.throw e : EStateM ε Machine α) :=
  silent (fun _ => rfl) fun _ _ => rfl

/-- A run that looks at the machine, but not at the sink. -/
theorem get {f : Machine → EStateM ε Machine α} (hf : ∀ m limit, f (m.limited limit) = f m)
    (h : ∀ m, Truncates full (f m)) : Truncates full (MonadState.get >>= f) where
  truncated m limit hm hle := by
    change Truncated full limit (f m m) (f (m.limited limit) (m.limited limit))
    rw [hf]
    exact (h m).truncated m limit hm hle
  prints m := (h m).prints m
  sameLimit m := (h m).sameLimit m

theorem bind {x : EStateM ε Machine α} {f : α → EStateM ε Machine β} (hx : Truncates full x)
    (hf : ∀ a, Truncates full (f a)) : Truncates full (x >>= f) where
  truncated m limit hm hle := by
    have htruncated := hx.truncated m limit hm hle
    have hlimit := hx.sameLimit m
    change Truncated full limit (EStateM.bind x f m) (EStateM.bind x f (m.limited limit))
    rw [EStateM.bind, EStateM.bind]
    generalize x m = r, x (m.limited limit) = r' at htruncated hlimit
    cases htruncated with
    | fits hfits =>
      cases r with
      | ok a m₁ => exact (hf a).truncated m₁ limit (hlimit.trans hm) hfits
      | error e m₁ => exact .fits hfits
    | cut hcut hwritten =>
      cases r with
      | ok a m₁ =>
        -- what is printed after the crossing print does not matter
        obtain ⟨text, htext⟩ := (hf a).prints m₁
        have hcut : limit < m₁.sink.written.size := hcut
        refine .cut ?_ (hwritten.trans ?_)
        · rw [finalSize, htext, ByteArray.size_append]
          omega
        · rw [htext, ByteArray.extract_append, Nat.sub_eq_zero_of_le (Nat.le_of_lt hcut)]
          simp [finalMachine]
      | error e m₁ => exact .cut hcut hwritten
  prints := printsOn_stable.bind hx.prints fun a => (hf a).prints
  sameLimit := sameLimit_stable.bind hx.sameLimit fun a => (hf a).sameLimit

theorem ite {c : Prop} [Decidable c] {x y : EStateM ε Machine α} (hx : Truncates full x)
    (hy : Truncates full y) : Truncates full (if c then x else y) := by
  split_ifs
  · exact hx
  · exact hy

/-- The error of a sink that is full. -/
abbrev sinkFull : Stop := .failed .sinkFull

/-- A run on a machine that is changed before and after, but for its sink. -/
theorem around {ε' : Type} {full' : ε'} {x : EStateM ε Machine α} {y : EStateM ε' Machine β}
    (hx : Truncates full x) (before : Machine → Machine)
    (after : Machine → EStateM.Result ε Machine α → EStateM.Result ε' Machine β)
    (hy : ∀ m, y m = after m (x (before m))) (hbefore : ∀ m, (before m).sink = m.sink)
    (hbefore' : ∀ m limit, before (m.limited limit) = (before m).limited limit)
    (hafter : ∀ m r, (finalMachine (after m r)).sink = (finalMachine r).sink)
    (hafter' : ∀ m limit r,
      after (m.limited limit) (limitedResult limit r) = limitedResult limit (after m r))
    (hfull : ∀ m m₁, ∃ m₂, after m (.error full m₁) = .error full' m₂ ∧ m₂.sink = m₁.sink) :
    Truncates full' y where
  truncated m limit hm hle := by
    have htruncated := hx.truncated (before m) limit (by rwa [hbefore]) (by rwa [hbefore])
    have hsize (r) : finalSize (after m r) = finalSize r := by
      rw [finalSize, finalSize, hafter]
    rw [hy, hy, hbefore']
    generalize x (before m) = r, x ((before m).limited limit) = r' at htruncated
    cases htruncated with
    | fits hfits =>
      rw [hafter']
      exact .fits (by rwa [hsize])
    | @cut m₁ hcut hwritten =>
      obtain ⟨m₂, heq, hsink⟩ := hfull (m.limited limit) m₁
      rw [heq]
      exact .cut (by rwa [hsize]) (by rw [hsink, hwritten, hafter])
  prints m := by
    obtain ⟨text, htext⟩ := hx.prints (before m)
    exact ⟨text, by rw [hy, hafter, htext, hbefore]⟩
  sameLimit m := by
    have hlimit := hx.sameLimit (before m)
    rw [SameLimit, hbefore] at hlimit
    rw [SameLimit, hy, hafter, hlimit]

theorem toExec {x : Eval α} (hx : Truncates sinkFull x) :
    Truncates (.stopped sinkFull) (toExec x) :=
  hx.around id (fun m r => Eval.toExec (fun _ => r) m)
    (fun _ => rfl) (fun _ => rfl) (fun _ _ => rfl) (fun _ r => by cases r <;> rfl)
    (fun _ _ r => by cases r <;> rfl) fun _ m₁ => ⟨m₁, rfl, rfl⟩

theorem catchReturn {x : Exec Unit} (hx : Truncates (.stopped sinkFull) x) :
    Truncates sinkFull (catchReturn x) :=
  hx.around id (fun m r => Exec.catchReturn (fun _ => r) m)
    (fun _ => rfl) (fun _ => rfl) (fun _ _ => rfl)
    (fun _ r => by rcases r with _ | ⟨_ | _, _⟩ <;> rfl)
    (fun _ _ r => by rcases r with _ | ⟨_ | _, _⟩ <;> rfl) fun _ m₁ => ⟨m₁, rfl, rfl⟩

theorem insideCall {x : Eval α} (hx : Truncates sinkFull x) : Truncates sinkFull (insideCall x) :=
  hx.around (fun m => { m with depth := m.depth + 1 })
    (fun m r => Eval.insideCall (fun _ => r) m)
    (fun _ => rfl) (fun _ => rfl) (fun _ _ => rfl) (fun _ r => by cases r <;> rfl)
    (fun _ _ r => by cases r <;> rfl) fun _ m₁ => ⟨_, rfl, rfl⟩

theorem inFrame {u : Unwind} {x : Exec α} (hx : Truncates u x) (frame : FrameId) :
    Truncates u (inFrame frame x) :=
  hx.around (fun m => { m with scope := frame })
    (fun m r => Exec.inFrame frame (fun _ => r) m)
    (fun _ => rfl) (fun _ => rfl) (fun _ _ => rfl) (fun _ r => by cases r <;> rfl)
    (fun _ _ r => by cases r <;> rfl) fun _ m₁ => ⟨_, rfl, rfl⟩

/-! ### Single changes of the machine -/

theorem onHeap (f : Heap → α × Heap) : Truncates sinkFull (onHeap f) :=
  silent (fun _ => rfl) fun _ _ => rfl

theorem newFrame (vars : NameMap Value) (enclosing : FrameId) :
    Truncates sinkFull (newFrame vars enclosing) := onHeap _

theorem newFunction (c : Closure) : Truncates sinkFull (newFunction c) := onHeap _

theorem newClass (name : Token) (methods : List (Function NodeId)) (frame : FrameId) :
    Truncates sinkFull (newClass name methods frame) := onHeap _

theorem failAt (t : Token) (f : RuntimeFault) : Truncates sinkFull (failAt t f : Eval α) :=
  throw _

theorem liftFault (t : Token) (r : Except RuntimeFault α) : Truncates sinkFull (liftFault t r) := by
  cases r with
  | ok a => exact pure a
  | error f => exact failAt t f

theorem orFail (t : Token) (f : RuntimeFault) (o : Option α) :
    Truncates sinkFull (orFail t f o) := by
  cases o with
  | some a => exact pure a
  | none => exact failAt t f

theorem readVariable (b : Bindings) (id : NodeId) (name : Token) :
    Truncates sinkFull (readVariable b id name) := by
  refine silent (fun m => ?_) fun m limit => ?_
  · unfold Evaluation.readVariable
    dsimp only
    split <;> rfl
  · have hread : (m.limited limit).heap.frames.getAt? (place b (m.limited limit) id).1
        (place b (m.limited limit) id).2 name.lexeme =
          m.heap.frames.getAt? (place b m id).1 (place b m id).2 name.lexeme := rfl
    unfold Evaluation.readVariable
    dsimp only
    rw [hread]
    split <;> rfl

theorem assignVariable (b : Bindings) (id : NodeId) (name : Token) (v : Value) :
    Truncates sinkFull (assignVariable b id name v) := by
  refine silent (fun m => ?_) fun m limit => ?_
  · unfold Evaluation.assignVariable
    split <;> rfl
  · have hholder : holder? b (m.limited limit) id name.lexeme = holder? b m id name.lexeme := rfl
    unfold Evaluation.assignVariable
    rw [hholder]
    split <;> rfl

theorem defineVariable (name : Token) (v : Value) : Truncates sinkFull (defineVariable name v) :=
  silent (fun _ => rfl) fun _ _ => rfl

theorem readProperty (i : InstanceId) (name : Token) : Truncates sinkFull (readProperty i name) := by
  refine get (fun _ _ => rfl) fun m => (orFail _ _ _).bind fun p => ?_
  cases p with
  | field v => exact pure v
  | method c => exact (onHeap _).bind newFunction

theorem checkDepth (paren : Token) : Truncates sinkFull (checkDepth paren) :=
  get (fun _ _ => rfl) fun _ => (failAt _ _).ite (pure ())

theorem checkArity (paren : Token) (expected got : Nat) :
    Truncates sinkFull (checkArity paren expected got) := (pure ()).ite (failAt _ _)

theorem callNative (n : Native) : Truncates sinkFull (callNative n) := by
  cases n with
  | clock => exact silent (fun _ => rfl) fun _ _ => rfl

theorem callResult (c : Closure) (returned? : Option Value) :
    Truncates sinkFull (callResult c returned?) :=
  (get (fun _ _ => rfl) fun _ => pure _).ite (pure _)

/-- The print that crosses the limit fills the sink. -/
theorem printLine (text : String) : Truncates sinkFull (printLine text) where
  truncated m limit hm hle := by
    unfold Eval.printLine
    dsimp only
    generalize (text.push '\n').toUTF8 = bytes
    have hall := Sink.fits_of_unlimited hm bytes
    have hsize : (m.sink.append bytes).written.size = m.sink.written.size + bytes.size :=
      ByteArray.size_append
    rw [if_pos hall, Sink.write_of_fits hall]
    by_cases hcut : limit < m.sink.written.size + bytes.size
    · have hfull : ¬(m.limited limit).sink.fits bytes = true :=
        Bool.eq_false_iff.1 (Sink.not_fits_limited hle hcut)
      rw [if_neg hfull]
      exact .cut (by rwa [← hsize] at hcut) (Sink.written_limited hle hcut)
    · have hfits : (m.limited limit).sink.fits bytes = true :=
        Sink.fits_limited (Nat.le_of_not_lt hcut)
      rw [if_pos hfits, Sink.write_of_fits hfits]
      exact .fits (r := .ok () { m with sink := m.sink.append bytes })
        (by rw [← hsize] at hcut; exact Nat.le_of_not_lt hcut)
  prints := printsOn_stable.printLine text
  sameLimit := sameLimit_stable.printLine text

/-! ### The evaluator -/

/-- Whatever is evaluated with some fuel is truncated by a limit. -/
structure All (b : Bindings) (fuel : Nat) : Prop where
  eval : ∀ e, Truncates sinkFull (eval b fuel e)
  evalEach : ∀ es, Truncates sinkFull (evalEach b fuel es)
  call : ∀ callee paren args, Truncates sinkFull (call b fuel callee paren args)
  dispatch : ∀ callee paren args, Truncates sinkFull (dispatch b fuel callee paren args)
  apply : ∀ c args, Truncates sinkFull (apply b fuel c args)
  exec : ∀ s, Truncates (.stopped sinkFull) (exec b fuel s)
  loop : ∀ condition body, Truncates (.stopped sinkFull) (loop b fuel condition body)
  execBlock : ∀ frame body, Truncates (.stopped sinkFull) (execBlock b fuel frame body)
  execEach : ∀ ss, Truncates (.stopped sinkFull) (execEach b fuel ss)

section

variable {b : Bindings} {fuel : Nat}

theorem eval_succ (ih : All b fuel) (e : Expr NodeId) :
    Truncates sinkFull (eval b (fuel + 1) e) := by
  cases e with
  | literal value => exact pure _
  | group inner => exact ih.eval inner
  | unary op operand => exact (ih.eval operand).bind fun v => liftFault _ _
  | binary left op right =>
    exact (ih.eval left).bind fun l => (ih.eval right).bind fun r => liftFault _ _
  | logical left op right => exact (ih.eval left).bind fun l => (pure l).ite (ih.eval right)
  | var id name => exact readVariable b id name
  | thisRef id keyword => exact readVariable b id keyword
  | assign id name value =>
    exact (ih.eval value).bind fun v => (assignVariable b id name v).bind fun _ => pure v
  | call callee paren args =>
    exact (ih.eval callee).bind fun f => (ih.evalEach args).bind fun vs => ih.call f paren vs
  | get object name =>
    refine (ih.eval object).bind fun o => ?_
    cases o with
    | instanceRef i => exact readProperty i name
    | _ => exact failAt _ _
  | set object name value =>
    refine (ih.eval object).bind fun o => ?_
    cases o with
    | instanceRef i => exact (ih.eval value).bind fun v => (onHeap _).bind fun _ => pure v
    | _ => exact failAt _ _

theorem dispatch_succ (ih : All b fuel) (callee : Value) (paren : Token)
    (args : List Value) : Truncates sinkFull (dispatch b (fuel + 1) callee paren args) := by
  cases callee with
  | native n => exact (checkArity _ _ _).bind fun _ => callNative n
  | functionRef id =>
    refine get (fun _ _ => rfl) fun m => ?_
    cases m.heap.functions[id]? with
    | none => exact failAt _ _
    | some c => exact (checkArity _ _ _).bind fun _ => ih.apply c args
  | classRef id =>
    refine get (fun _ _ => rfl) fun m => (checkArity _ _ _).bind fun _ =>
      (onHeap _).bind fun i => ?_
    cases m.heap.method? id initializerName with
    | none => exact pure _
    | some c => exact (onHeap _).bind fun bound => (ih.apply bound args).bind fun _ => pure _
  | _ => exact failAt _ _

/-- A statement that goes on with the value of an expression that may be missing. -/
theorem optional (ih : All b fuel) (value? : Option (Expr NodeId))
    {f : Value → Exec Unit} (hf : ∀ v, Truncates (.stopped sinkFull) (f v)) :
    Truncates (.stopped sinkFull) (do
      let v ← match value? with
        | some e => (eval b fuel e : Exec Value)
        | none => Pure.pure Value.nil
      f v) := by
  cases value? with
  | none => exact (pure Value.nil).bind hf
  | some e => exact (ih.eval e).toExec.bind hf

theorem exec_succ (ih : All b fuel) (s : Stmt NodeId) :
    Truncates (.stopped sinkFull) (exec b (fuel + 1) s) := by
  cases s with
  | expr e => exact (ih.eval e).toExec.bind fun _ => pure ()
  | print e =>
    exact (ih.eval e).toExec.bind fun v => get (fun _ _ => rfl) fun m => (printLine _).toExec
  | var name value? => exact optional ih value? fun v => (defineVariable name v).toExec
  | block body =>
    exact get (fun _ _ => rfl) fun m => (newFrame _ _).toExec.bind fun frame => ih.execBlock frame body
  | ifThen condition s => exact (ih.eval condition).toExec.bind fun c => (ih.exec s).ite (pure ())
  | ifElse condition s t =>
    exact (ih.eval condition).toExec.bind fun c => (ih.exec s).ite (ih.exec t)
  | whileLoop condition body => exact ih.loop condition body
  | function decl =>
    exact get (fun _ _ => rfl) fun m => (newFunction _).toExec.bind fun f =>
      (defineVariable _ f).toExec
  | ret keyword value? => exact optional ih value? fun v => throw _
  | classDecl name methods =>
    exact get (fun _ _ => rfl) fun m => (newClass _ _ _).toExec.bind fun c =>
      (defineVariable name c).toExec

theorem all (b : Bindings) (fuel : Nat) : All b fuel := by
  induction fuel with
  | zero => constructor <;> intros <;> exact throw _
  | succ fuel ih =>
    constructor
    case eval => exact eval_succ ih
    case evalEach =>
      rintro (_ | ⟨e, es⟩)
      · exact pure []
      · exact (ih.eval e).bind fun v => (ih.evalEach es).bind fun vs => pure _
    case call =>
      exact fun callee paren args =>
        (checkDepth paren).bind fun _ => (ih.dispatch callee paren args).insideCall
    case dispatch => exact dispatch_succ ih
    case apply =>
      exact fun c args => (newFrame _ _).bind fun frame =>
        (ih.execBlock frame c.decl.body).catchReturn.bind fun r => callResult c r
    case exec => exact exec_succ ih
    case loop =>
      exact fun condition body => (ih.eval condition).toExec.bind fun c =>
        ((ih.exec body).bind fun _ => ih.loop condition body).ite (pure ())
    case execBlock => exact fun frame body => (ih.execEach body).inFrame frame
    case execEach =>
      rintro (_ | ⟨s, ss⟩)
      · exact pure ()
      · exact (ih.exec s).bind fun _ => ih.execEach ss

end

end Truncates

end Evaluation

end LoxLang
