import LoxLang.Proofs.Run.Ends
import LoxLang.Proofs.Run.Invariant

/-!
# The log of a run

What happens to instances in a run, in the order in which it happens: instances are created, fields are
stored, and properties are read.  `accesses` follows the evaluator step by step and lists it.

Where a part of a run starts, what the part does to instances is in the log of the whole
(`accesses_of_starts`).  So the log has all that the run comes to at any of its moments
(`ComesTo.mem`), and it has nothing else (`comesTo_of_mem`).
-/

namespace LoxLang

namespace Evaluation

open Eval Exec

/-- Something that happens to an instance. -/
inductive Access where
  /-- A class has made the instance.  The class is as it was then. -/
  | created (i : InstanceId) (id : ClassId) (k : Class)
  /-- A field of the instance has been given a value. -/
  | stored (i : InstanceId) (name : String) (v : Value)
  /-- A property of the instance has been read, with this result. -/
  | read (i : InstanceId) (name : Token) (result : EStateM.Result Stop Machine Value)

/-- What happens after a run, if the run ends with a value. -/
def followedBy {ε α : Type} (r : EStateM.Result ε Machine α) (next : α → Machine → List Access) :
    List Access :=
  match r with
  | .ok a m => next a m
  | .error _ _ => []

/-- The next instance, made by a class that is there. -/
def creation (h : Heap) (id : ClassId) : List Access :=
  (h.classes[id]?.map fun k => .created h.instances.size id k).toList

/-- What happens to instances when a task runs, in the order in which it happens. -/
def accesses (b : Bindings) : (fuel : Nat) → Task → Machine → List Access
  | 0, _, _ => []
  | fuel + 1, .eval e, m => match e with
    | .literal _ | .var _ _ | .thisRef _ _ => []
    | .group inner => accesses b fuel (.eval inner) m
    | .unary _ operand => accesses b fuel (.eval operand) m
    | .binary left _ right =>
      accesses b fuel (.eval left) m ++
        followedBy (eval b fuel left m) fun _ m => accesses b fuel (.eval right) m
    | .logical left op right =>
      accesses b fuel (.eval left) m ++ followedBy (eval b fuel left m) fun l m =>
        if l.isTruthy == op.is .orKw then [] else accesses b fuel (.eval right) m
    | .assign _ _ value => accesses b fuel (.eval value) m
    | .call callee paren args =>
      accesses b fuel (.eval callee) m ++ followedBy (eval b fuel callee m) fun f m =>
        accesses b fuel (.evalEach args) m ++ followedBy (evalEach b fuel args m) fun vs m =>
          accesses b fuel (.call f paren vs) m
    | .get object name =>
      accesses b fuel (.eval object) m ++ followedBy (eval b fuel object m) fun o m =>
        match o with
        | .instanceRef i => [.read i name (readProperty i name m)]
        | _ => []
    | .set object name value =>
      accesses b fuel (.eval object) m ++ followedBy (eval b fuel object m) fun o m =>
        match o with
        | .instanceRef i =>
          accesses b fuel (.eval value) m ++ followedBy (eval b fuel value m) fun v _ =>
            [.stored i name.lexeme v]
        | _ => []
  | fuel + 1, .evalEach es, m => match es with
    | [] => []
    | e :: es =>
      accesses b fuel (.eval e) m ++
        followedBy (eval b fuel e m) fun _ m => accesses b fuel (.evalEach es) m
  | fuel + 1, .call callee paren args, m =>
    followedBy (checkDepth paren m) fun _ m =>
      accesses b fuel (.dispatch callee paren args) { m with depth := m.depth + 1 }
  | fuel + 1, .dispatch callee paren args, m => match callee with
    | .functionRef id => match m.heap.functions[id]? with
      | some c =>
        followedBy (checkArity paren c.decl.arity args.length m) fun _ m =>
          accesses b fuel (.apply c args) m
      | none => []
    | .classRef id =>
      let initializer? := m.heap.method? id initializerName
      followedBy (checkArity paren ((initializer?.map (·.decl.arity)).getD 0) args.length m) fun _ m =>
        creation m.heap id ++ followedBy (onHeap (·.addInstance ⟨id, ∅⟩) m) fun i m =>
          match initializer? with
          | some c =>
            followedBy (onHeap (·.bind c i) m) fun bound m => accesses b fuel (.apply bound args) m
          | none => []
    | _ => []
  | fuel + 1, .apply c args, m =>
    followedBy (newFrame (parameterVars c.decl args) c.frame m) fun frame m =>
      accesses b fuel (.execBlock frame c.decl.body) m
  | fuel + 1, .exec s, m => match s with
    | .expr e | .print e => accesses b fuel (.eval e) m
    | .var _ value? | .ret _ value? => match value? with
      | some e => accesses b fuel (.eval e) m
      | none => []
    | .block body =>
      followedBy (newFrame ∅ m.scope m) fun frame m => accesses b fuel (.execBlock frame body) m
    | .ifThen condition s =>
      accesses b fuel (.eval condition) m ++ followedBy (eval b fuel condition m) fun c m =>
        if c.isTruthy then accesses b fuel (.exec s) m else []
    | .ifElse condition s s' =>
      accesses b fuel (.eval condition) m ++ followedBy (eval b fuel condition m) fun c m =>
        if c.isTruthy then accesses b fuel (.exec s) m else accesses b fuel (.exec s') m
    | .whileLoop condition body => accesses b fuel (.loop condition body) m
    | .function _ | .classDecl _ _ => []
  | fuel + 1, .loop condition body, m =>
    accesses b fuel (.eval condition) m ++ followedBy (eval b fuel condition m) fun c m =>
      if c.isTruthy then
        accesses b fuel (.exec body) m ++
          followedBy (exec b fuel body m) fun _ m => accesses b fuel (.loop condition body) m
      else []
  | fuel + 1, .execBlock frame body, m => accesses b fuel (.execEach body) { m with scope := frame }
  | fuel + 1, .execEach ss, m => match ss with
    | [] => []
    | s :: ss =>
      accesses b fuel (.exec s) m ++
        followedBy (exec b fuel s m) fun _ m => accesses b fuel (.execEach ss) m

theorem creation_eq {h : Heap} {id : ClassId} {k : Class} (hk : h.classes[id]? = some k) :
    creation h id = [.created h.instances.size id k] := by
  rw [creation, hk]
  rfl

/-! ### The logs of parts -/

section

variable {b : Bindings} {m m' : Machine} {t t' : Task} {step : Step}

theorem infix_following {ε α : Type} {r : EStateM.Result ε Machine α}
    {next : α → Machine → List Access} {as : List Access} {a : α} (hr : r = .ok a m')
    (h : as <:+: next a m') : as <:+: followedBy r next := by
  subst hr
  exact h

theorem infix_followedBy {ε α : Type} {r : EStateM.Result ε Machine α}
    {next : α → Machine → List Access} {as : List Access} {a : α} (hr : r = .ok a m')
    (h : as <:+: next a m') (before : List Access) : as <:+: before ++ followedBy r next :=
  (infix_following hr h).trans (List.suffix_append _ _).isInfix

theorem checkDepth_of_lt {paren : Token} (h : m.depth < maxCallDepth) :
    checkDepth paren m = .ok () m := by
  change (if maxCallDepth ≤ m.depth then failAt paren .tooManyCalls else pure ()) m = _
  rw [if_neg (Nat.not_le_of_lt h)]
  rfl

theorem checkArity_of_eq {paren : Token} {expected got : Nat} (h : expected = got) :
    checkArity paren expected got m = .ok () m := by
  rw [checkArity, if_pos h]
  rfl

/-- What a part does to instances is in the log of the whole. -/
theorem accesses_of_starts (h : Starts b t m step t' m') :
    ∃ n, ∀ fuel ≥ n, accesses b fuel t' m' <:+: accesses b (fuel + 1) t m := by
  cases h with
  | group | unary | assigned | expression | printed | varInitializer | returned | whileLoop
    | statements => exact ⟨0, fun _ _ => List.infix_rfl⟩
  | binaryLeft | logicalLeft | callee | object | setObject | first | condition | elseCondition
    | loopCondition | firstStatement => exact ⟨0, fun _ _ => (List.prefix_append _ _).isInfix⟩
  -- a part that comes later needs the fuel with which the ones before have ended
  | binaryRight hv | others hv =>
    obtain ⟨n, hn⟩ := hv.exists_fuel (eval_extends b _)
    refine ⟨n, fun fuel hle => infix_followedBy (hn fuel hle) ?_ _⟩
    exact List.infix_rfl
  | logicalRight hl hcontinues =>
    obtain ⟨n, hn⟩ := hl.exists_fuel (eval_extends b _)
    refine ⟨n, fun fuel hle => infix_followedBy (hn fuel hle) ?_ _⟩
    rw [hcontinues]
    exact List.infix_rfl
  | arguments hf =>
    obtain ⟨n, hn⟩ := hf.exists_fuel (eval_extends b _)
    exact ⟨n, fun fuel hle => infix_followedBy (hn fuel hle) (List.prefix_append _ _).isInfix _⟩
  | called hf hvs =>
    obtain ⟨n, hn⟩ := hf.exists_fuel (eval_extends b _)
    obtain ⟨k, hk⟩ := hvs.exists_fuel (evalEach_extends b _)
    refine ⟨max n k, fun fuel hle => infix_followedBy (hn fuel (Nat.max_le.1 hle).1) ?_ _⟩
    refine infix_followedBy (hk fuel (Nat.max_le.1 hle).2) ?_ _
    exact List.infix_rfl
  | setValue ho =>
    obtain ⟨n, hn⟩ := ho.exists_fuel (eval_extends b _)
    exact ⟨n, fun fuel hle => infix_followedBy (hn fuel hle) (List.prefix_append _ _).isInfix _⟩
  | entered hdepth =>
    refine ⟨0, fun fuel _ => infix_following (checkDepth_of_lt hdepth) ?_⟩
    exact List.infix_rfl
  | function hc harity =>
    refine ⟨0, fun fuel _ => ?_⟩
    rw [accesses, hc]
    refine infix_following (checkArity_of_eq harity) ?_
    exact List.infix_rfl
  | initializer hc harity hi hbound =>
    refine ⟨0, fun fuel _ => ?_⟩
    rw [accesses, hc]
    refine infix_following (checkArity_of_eq harity) ?_
    refine infix_followedBy hi ?_ _
    refine infix_following hbound ?_
    exact List.infix_rfl
  | functionBody hframe | block hframe =>
    refine ⟨0, fun fuel _ => ?_⟩
    rw [accesses]
    refine infix_following hframe ?_
    exact List.infix_rfl
  | branch hc ht | thenBranch hc ht | elseBranch hc ht =>
    obtain ⟨n, hn⟩ := hc.exists_fuel (eval_extends b _)
    refine ⟨n, fun fuel hle => infix_followedBy (hn fuel hle) ?_ _⟩
    rw [ht]
    exact List.infix_rfl
  | loopBody hc ht =>
    obtain ⟨n, hn⟩ := hc.exists_fuel (eval_extends b _)
    refine ⟨n, fun fuel hle => infix_followedBy (hn fuel hle) ?_ _⟩
    rw [if_pos ht]
    exact (List.prefix_append _ _).isInfix
  | again hc ht hs =>
    obtain ⟨n, hn⟩ := hc.exists_fuel (eval_extends b _)
    obtain ⟨k, hk⟩ := hs.exists_fuel (exec_extends b _)
    refine ⟨max n k, fun fuel hle => infix_followedBy (hn fuel (Nat.max_le.1 hle).1) ?_ _⟩
    rw [if_pos ht]
    refine infix_followedBy (hk fuel (Nat.max_le.1 hle).2) ?_ _
    exact List.infix_rfl
  | otherStatements hs =>
    obtain ⟨n, hn⟩ := hs.exists_fuel (exec_extends b _)
    refine ⟨n, fun fuel hle => infix_followedBy (hn fuel hle) ?_ _⟩
    exact List.infix_rfl

theorem accesses_of_during {trail : List Step} (h : During b t m trail t' m') :
    ∃ k n, ∀ fuel ≥ n, accesses b fuel t' m' <:+: accesses b (fuel + k) t m := by
  induction h with
  | start => exact ⟨0, 0, fun _ _ => List.infix_rfl⟩
  | part _ hstarts ih =>
    obtain ⟨k, n, hn⟩ := ih
    obtain ⟨n', hn'⟩ := accesses_of_starts hstarts
    refine ⟨k + 1, max n n', fun fuel hle => ?_⟩
    have hpart := hn' fuel (Nat.max_le.1 hle).2
    have hwhole := hn (fuel + 1) (Nat.le_succ_of_le (Nat.max_le.1 hle).1)
    rw [Nat.add_right_comm, Nat.add_assoc] at hwhole
    exact hpart.trans hwhole

/-! ### What is in a log -/

/-- The task itself, rather than a part of it, does this to an instance. -/
inductive Does (b : Bindings) : Task → Machine → Access → Prop where
  | created {id paren args m k} :
    m.heap.classes[id]? = some k →
    ((m.heap.method? id initializerName).map (·.decl.arity)).getD 0 = args.length →
    Does b (.dispatch (.classRef id) paren args) m (.created m.heap.instances.size id k)
  | stored {object name value m i m' v m''} :
    Returns (eval b · object) m (.instanceRef i) m' → Returns (eval b · value) m' v m'' →
    Does b (.eval (.set object name value)) m (.stored i name.lexeme v)
  | read {object name m i m'} :
    Returns (eval b · object) m (.instanceRef i) m' →
    Does b (.eval (.get object name)) m (.read i name (readProperty i name m'))

/-- At some moment of the run of the task this is done to an instance. -/
def ComesTo (b : Bindings) (t : Task) (m : Machine) (a : Access) : Prop :=
  ∃ trail t' m', During b t m trail t' m' ∧ Does b t' m' a

variable {a : Access}

theorem ComesTo.of_part (hstarts : Starts b t m step t' m') (h : ComesTo b t' m' a) :
    ComesTo b t m a := by
  obtain ⟨trail, t'', m'', hduring, hdoes⟩ := h
  obtain ⟨trail', hduring'⟩ := During.of_part hstarts hduring
  exact ⟨trail', t'', m'', hduring', hdoes⟩

theorem ComesTo.here (h : Does b t m a) : ComesTo b t m a := ⟨[], t, m, .start, h⟩

theorem Does.logged (h : Does b t m a) :
    ∃ n, ∀ fuel ≥ n, [a] <:+: accesses b (fuel + 1) t m := by
  cases h with
  | @created id paren args _ k hk harity =>
    refine ⟨0, fun fuel _ => ?_⟩
    rw [accesses, ← creation_eq hk]
    exact infix_following (checkArity_of_eq harity) (List.prefix_append _ _).isInfix
  | stored ho hv =>
    obtain ⟨n, hn⟩ := ho.exists_fuel (eval_extends b _)
    obtain ⟨k, hk⟩ := hv.exists_fuel (eval_extends b _)
    refine ⟨max n k, fun fuel hle => infix_followedBy (hn fuel (Nat.max_le.1 hle).1) ?_ _⟩
    refine infix_followedBy (hk fuel (Nat.max_le.1 hle).2) ?_ _
    exact List.infix_rfl
  | read ho =>
    obtain ⟨n, hn⟩ := ho.exists_fuel (eval_extends b _)
    refine ⟨n, fun fuel hle => infix_followedBy (hn fuel hle) ?_ _⟩
    exact List.infix_rfl

/-- All that a run comes to is in its log. -/
theorem ComesTo.mem (h : ComesTo b t m a) : ∃ n, ∀ fuel ≥ n, a ∈ accesses b fuel t m := by
  obtain ⟨trail, t', m', hduring, hdoes⟩ := h
  obtain ⟨k, n, hn⟩ := accesses_of_during hduring
  obtain ⟨n', hn'⟩ := hdoes.logged
  refine ⟨max n n' + 1 + k, fun fuel hle => ?_⟩
  obtain ⟨d, rfl⟩ := Nat.exists_eq_add_of_le hle
  have hpart := hn' (max n n' + d) (by omega)
  have hwhole := hn (max n n' + d + 1) (by omega)
  rw [show max n n' + d + 1 + k = max n n' + 1 + k + d by omega] at hwhole
  exact (hpart.trans hwhole).subset List.mem_cons_self

theorem mem_followedBy {ε α : Type} {r : EStateM.Result ε Machine α}
    {next : α → Machine → List Access} (h : a ∈ followedBy r next) :
    ∃ v m', r = .ok v m' ∧ a ∈ next v m' := by
  cases r with
  | ok v m' => exact ⟨v, m', rfl, h⟩
  | error e m' => exact absurd h List.not_mem_nil

/-- What is in the log of two parts is in that of one of them. -/
theorem ComesTo.of_append {ε α : Type} {before : List Access} {r : EStateM.Result ε Machine α}
    {next : α → Machine → List Access} (h : a ∈ before ++ followedBy r next)
    (hbefore : a ∈ before → ComesTo b t m a)
    (hnext : ∀ v m', r = .ok v m' → a ∈ next v m' → ComesTo b t m a) : ComesTo b t m a := by
  rcases List.mem_append.1 h with h | h
  · exact hbefore h
  · obtain ⟨v, m', hr, h⟩ := mem_followedBy h
    exact hnext v m' hr h

section

variable {fuel : Nat} (ih : ∀ {t m}, a ∈ accesses b fuel t m → ComesTo b t m a)

include ih

theorem comesTo_eval {e : Expr NodeId} (h : a ∈ accesses b (fuel + 1) (.eval e) m) :
    ComesTo b (.eval e) m a := by
  cases e with
  | literal | var | thisRef => exact absurd h List.not_mem_nil
  | group => exact .of_part .group (ih h)
  | unary => exact .of_part .unary (ih h)
  | assign => exact .of_part .assigned (ih h)
  | binary =>
    refine .of_append h (fun h => .of_part .binaryLeft (ih h)) fun l m' hl h => ?_
    exact .of_part (.binaryRight ⟨fuel, hl⟩) (ih h)
  | logical =>
    refine .of_append h (fun h => .of_part .logicalLeft (ih h)) fun l m' hl h => ?_
    split_ifs at h with hstops
    · exact absurd h List.not_mem_nil
    · exact .of_part (.logicalRight ⟨fuel, hl⟩ (by simpa using hstops)) (ih h)
  | call =>
    refine .of_append h (fun h => .of_part .callee (ih h)) fun f m' hf h => ?_
    refine .of_append h (fun h => .of_part (.arguments ⟨fuel, hf⟩) (ih h)) fun vs m'' hvs h => ?_
    exact .of_part (.called ⟨fuel, hf⟩ ⟨fuel, hvs⟩) (ih h)
  | get =>
    refine .of_append h (fun h => .of_part .object (ih h)) fun o m' ho h => ?_
    cases o with
    | instanceRef i =>
      obtain rfl := List.mem_singleton.1 h
      exact .here (.read ⟨fuel, ho⟩)
    | _ => exact absurd h List.not_mem_nil
  | set =>
    refine .of_append h (fun h => .of_part .setObject (ih h)) fun o m' ho h => ?_
    cases o with
    | instanceRef i =>
      refine .of_append h (fun h => .of_part (.setValue ⟨fuel, ho⟩) (ih h)) fun v m'' hv h => ?_
      obtain rfl := List.mem_singleton.1 h
      exact .here (.stored ⟨fuel, ho⟩ ⟨fuel, hv⟩)
    | _ => exact absurd h List.not_mem_nil

theorem comesTo_dispatch {callee : Value} {paren : Token} {args : List Value}
    (h : a ∈ accesses b (fuel + 1) (.dispatch callee paren args) m) :
    ComesTo b (.dispatch callee paren args) m a := by
  cases callee with
  | functionRef id =>
    rw [accesses] at h
    cases hc : m.heap.functions[id]? with
    | none => rw [hc] at h; exact absurd h List.not_mem_nil
    | some c =>
      rw [hc] at h
      obtain ⟨_, m', hr, hnext⟩ := mem_followedBy h
      obtain ⟨rfl, harity⟩ := checkArity_ok hr
      exact .of_part (.function hc harity) (ih hnext)
  | classRef id =>
    obtain ⟨_, m', hr, hnext⟩ := mem_followedBy h
    obtain ⟨rfl, harity⟩ := checkArity_ok hr
    refine .of_append hnext (fun hcreation => ?_) fun i m₁ hi hnext => ?_
    · obtain ⟨k, hk, rfl⟩ := Option.map_eq_some_iff.1 (Option.mem_toList.1 hcreation)
      exact .here (.created hk harity)
    · cases hc : m'.heap.method? id initializerName with
      | none => rw [hc] at hnext; exact absurd hnext List.not_mem_nil
      | some c =>
        rw [hc] at hnext harity
        obtain ⟨bound, m₂, hbound, hnext⟩ := mem_followedBy hnext
        exact .of_part (.initializer hc harity hi hbound) (ih hnext)
  | _ => exact absurd h List.not_mem_nil

theorem comesTo_exec {s : Stmt NodeId} (h : a ∈ accesses b (fuel + 1) (.exec s) m) :
    ComesTo b (.exec s) m a := by
  cases s with
  | expr => exact .of_part .expression (ih h)
  | print => exact .of_part .printed (ih h)
  | var _ value? =>
    cases value? with
    | some e => exact .of_part .varInitializer (ih h)
    | none => exact absurd h List.not_mem_nil
  | ret _ value? =>
    cases value? with
    | some e => exact .of_part .returned (ih h)
    | none => exact absurd h List.not_mem_nil
  | block =>
    rw [accesses] at h
    obtain ⟨frame, m', hframe, h⟩ := mem_followedBy h
    exact .of_part (.block hframe) (ih h)
  | ifThen =>
    refine .of_append h (fun h => .of_part .condition (ih h)) fun c m' hc h => ?_
    split_ifs at h with ht
    · exact .of_part (.branch ⟨fuel, hc⟩ ht) (ih h)
    · exact absurd h List.not_mem_nil
  | ifElse =>
    refine .of_append h (fun h => .of_part .elseCondition (ih h)) fun c m' hc h => ?_
    split_ifs at h with ht
    · exact .of_part (.thenBranch ⟨fuel, hc⟩ ht) (ih h)
    · exact .of_part (.elseBranch ⟨fuel, hc⟩ (by simpa using ht)) (ih h)
  | whileLoop => exact .of_part .whileLoop (ih h)
  | function | classDecl => exact absurd h List.not_mem_nil

end

/-- Nothing else is in a log. -/
theorem comesTo_of_mem {fuel : Nat} (h : a ∈ accesses b fuel t m) : ComesTo b t m a := by
  induction fuel generalizing t m with
  | zero => exact absurd h List.not_mem_nil
  | succ fuel ih =>
    cases t with
    | eval e => exact comesTo_eval ih h
    | evalEach es =>
      cases es with
      | nil => exact absurd h List.not_mem_nil
      | cons e es =>
        refine .of_append h (fun h => .of_part .first (ih h)) fun v m' hv h => ?_
        exact .of_part (.others ⟨fuel, hv⟩) (ih h)
    | call callee paren args =>
      obtain ⟨_, m', hr, hnext⟩ := mem_followedBy h
      obtain ⟨rfl, hdepth⟩ := checkDepth_ok hr
      exact .of_part (.entered hdepth) (ih hnext)
    | dispatch callee paren args => exact comesTo_dispatch ih h
    | apply c args =>
      obtain ⟨frame, m', hframe, h⟩ := mem_followedBy h
      exact .of_part (.functionBody hframe) (ih h)
    | exec s => exact comesTo_exec ih h
    | loop condition body =>
      refine .of_append h (fun h => .of_part .loopCondition (ih h)) fun c m' hc h => ?_
      split_ifs at h with ht
      · refine .of_append h (fun h => .of_part (.loopBody ⟨fuel, hc⟩ ht) (ih h)) fun _ m'' hs h => ?_
        exact .of_part (.again ⟨fuel, hc⟩ ht ⟨fuel, hs⟩) (ih h)
      · exact absurd h List.not_mem_nil
    | execBlock frame body => exact .of_part .statements (ih h)
    | execEach ss =>
      cases ss with
      | nil => exact absurd h List.not_mem_nil
      | cons s ss =>
        refine .of_append h (fun h => .of_part .firstStatement (ih h)) fun _ m' hs h => ?_
        exact .of_part (.otherStatements ⟨fuel, hs⟩) (ih h)

end

end Evaluation

end LoxLang
