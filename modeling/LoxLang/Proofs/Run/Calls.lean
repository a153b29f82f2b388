import LoxLang.Proofs.Run.Fuel
import LoxLang.Proofs.Run.Invariant

/-!
# Calls that end

What a call that ends with a value has done: a class has made an instance, which is the value, and has
applied its initializer if it has one (`dispatch_classRef_ok`); a function has run its body
(`apply_ok`).  A run ends with at most one value, whatever the fuel (`Returns.unique`).
-/

namespace LoxLang

namespace Evaluation

open Eval Exec

section

variable {α : Type} {m m' : Machine}

theorem insideCall_ok {x : Eval α} {a : α} (h : insideCall x m = .ok a m') :
    ∃ m₁, x { m with depth := m.depth + 1 } = .ok a m₁ ∧ m'.heap = m₁.heap := by
  rw [insideCall] at h
  cases hx : x { m with depth := m.depth + 1 } with
  | ok a₁ m₁ => rw [hx] at h; cases h; exact ⟨m₁, rfl, rfl⟩
  | error s m₁ => rw [hx] at h; cases h

/-- A run ends with at most one value. -/
theorem Returns.unique {run : Nat → EStateM Stop Machine α}
    (hrun : ∀ fuel, Extends .exhausted (run fuel) (run (fuel + 1))) {a a' : α} {m'' : Machine}
    (h : Returns run m a m') (h' : Returns run m a' m'') : a = a' ∧ m' = m'' := by
  obtain ⟨fuel, hfuel⟩ := h
  obtain ⟨fuel', hfuel'⟩ := h'
  have hmost := (Extends.of_le hrun (Nat.le_max_left fuel fuel')).eq_of_ne (m := m)
    (by rw [hfuel]; exact nofun)
  have hmost' := (Extends.of_le hrun (Nat.le_max_right fuel fuel')).eq_of_ne (m := m)
    (by rw [hfuel']; exact nofun)
  have hsame := (hfuel.symm.trans hmost.symm).trans (hmost'.trans hfuel')
  cases hsame
  exact ⟨rfl, rfl⟩

end

section

variable {b : Bindings} {fuel : Nat} {paren : Token} {args : List Value} {v : Value}
  {m m' : Machine}

theorem call_ok {callee : Value} (h : call b fuel callee paren args m = .ok v m') :
    m.depth < maxCallDepth ∧ ∃ m₁,
      Returns (dispatch b · callee paren args) { m with depth := m.depth + 1 } v m₁ ∧
      m'.heap = m₁.heap := by
  cases fuel with
  | zero => cases h
  | succ fuel =>
    rw [call] at h
    obtain ⟨_, _, hdepth, hcall⟩ := bind_ok h
    obtain ⟨rfl, hdepth⟩ := checkDepth_ok hdepth
    obtain ⟨m₁, hdispatch, hheap⟩ := insideCall_ok hcall
    exact ⟨hdepth, m₁, ⟨fuel, hdispatch⟩, hheap⟩

/-- The call of a function applies its closure. -/
theorem dispatch_functionRef_ok {id : FunctionId}
    (h : Returns (dispatch b · (.functionRef id) paren args) m v m') :
    ∃ c, m.heap.functions[id]? = some c ∧ c.decl.arity = args.length ∧
      Returns (apply b · c args) m v m' := by
  obtain ⟨fuel, h⟩ := h
  cases fuel with
  | zero => cases h
  | succ fuel =>
    replace h : dispatch b (fuel + 1) (.functionRef id) paren args m = .ok v m' := h
    rw [dispatch] at h
    obtain ⟨_, _, hget, h⟩ := bind_ok h
    cases hget
    cases hc : m.heap.functions[id]? with
    | none => rw [hc] at h; cases h
    | some c =>
      rw [hc] at h
      obtain ⟨_, m₁, hcheck, happly⟩ := bind_ok h
      obtain ⟨hm, harity⟩ := checkArity_ok hcheck
      subst m₁
      exact ⟨c, rfl, harity, fuel, happly⟩

/-- The call of a class yields a new instance of it, to which its initializer has been applied. -/
theorem dispatch_classRef_ok {id : ClassId}
    (h : Returns (dispatch b · (.classRef id) paren args) m v m') :
    v = .instanceRef m.heap.instances.size ∧ (m'.heap = (m.heap.addInstance ⟨id, ∅⟩).2 ∨
      ∃ bound m₁ v₁, Starts b (.dispatch (.classRef id) paren args) m .same (.apply bound args) m₁ ∧
        m₁.heap.instances = (m.heap.addInstance ⟨id, ∅⟩).2.instances ∧
        Returns (apply b · bound args) m₁ v₁ m') := by
  obtain ⟨fuel, h⟩ := h
  cases fuel with
  | zero => cases h
  | succ fuel =>
    replace h : dispatch b (fuel + 1) (.classRef id) paren args m = .ok v m' := h
    rw [dispatch] at h
    obtain ⟨_, _, hget, h⟩ := bind_ok h
    cases hget
    obtain ⟨_, m₀, hcheck, h⟩ := bind_ok h
    obtain ⟨hm, harity⟩ := checkArity_ok hcheck
    subst m₀
    obtain ⟨i, m₁, hi, h⟩ := bind_ok h
    cases hc : m.heap.method? id initializerName with
    | none =>
      rw [hc] at h
      cases hi
      cases h
      exact ⟨rfl, .inl rfl⟩
    | some c =>
      rw [hc] at h harity
      obtain ⟨bound, m₂, hbound, h⟩ := bind_ok h
      obtain ⟨v₁, m₃, happly, h⟩ := bind_ok h
      have hstarts : Starts b (.dispatch (.classRef id) paren args) m .same (.apply bound args) m₂ :=
        .initializer hc harity hi hbound
      cases h
      cases hi
      cases hbound
      exact ⟨rfl, .inr ⟨_, _, v₁, hstarts, rfl, fuel, happly⟩⟩

/-- A method that is looked up is a new function. -/
theorem eval_get_method {object : Expr NodeId} {name : Token} {i : InstanceId} {method : Closure}
    (ho : Returns (eval b · object) m (.instanceRef i) m')
    (hproperty : m'.heap.property? i name.lexeme = some (.method method)) :
    Returns (eval b · (.get object name)) m (.functionRef m'.heap.functions.size)
      { m' with heap := ((m'.heap.bind method i).2.addFunction (m'.heap.bind method i).1).2 } := by
  obtain ⟨fuel, ho⟩ := ho
  refine ⟨fuel + 1, ?_⟩
  change eval b (fuel + 1) (.get object name) m = _
  rw [eval, bind_of_ok ho]
  change (orFail name (.undefinedProperty name.lexeme) (m'.heap.property? i name.lexeme) >>= _) m' = _
  rw [hproperty]
  rfl

/-- The body of the closure, run with the arguments, ends with a `return` of the value or, if there is
none, at its end. -/
def BodyEnds (b : Bindings) (c : Closure) (args : List Value) (m : Machine)
    (returned? : Option Value) (m' : Machine) : Prop :=
  ∃ fuel frame m₁, newFrame (parameterVars c.decl args) c.frame m = .ok frame m₁ ∧
    catchReturn (execBlock b fuel frame c.decl.body) m₁ = .ok returned? m'

/-- An initializer yields the instance in its frame, whatever its body has returned. -/
theorem apply_ok {c : Closure} (h : Returns (apply b · c args) m v m') :
    ∃ returned?, BodyEnds b c args m returned? m' ∧
      v = if c.isInitializer then (m'.heap.frames.getHere? c.frame thisName).getD .nil
        else returned?.getD .nil := by
  obtain ⟨fuel, h⟩ := h
  cases fuel with
  | zero => cases h
  | succ fuel =>
    replace h : apply b (fuel + 1) c args m = .ok v m' := h
    rw [apply] at h
    obtain ⟨frame, m₁, hframe, h⟩ := bind_ok h
    obtain ⟨returned?, m₂, hbody, h⟩ := bind_ok h
    rw [callResult] at h
    split_ifs at h with hinit
    · cases h
      exact ⟨returned?, ⟨fuel, frame, m₁, hframe, hbody⟩, by rw [if_pos hinit]⟩
    · cases h
      exact ⟨returned?, ⟨fuel, frame, m₁, hframe, hbody⟩, by rw [if_neg hinit]⟩

end

end Evaluation

end LoxLang
