import LoxLang.Proofs.Run.Invariant
import LoxLang.Proofs.Tree.Numbering
import Mathlib.Data.Finset.Range
import Mathlib.Data.Finset.Dedup

/-!
# Runs with other tables

A table of distances is asked for nothing but the names to which a run comes.  With tables that agree
there the run is the same (`run_congr`).  The names to which it comes are written in the code that runs
first and in the code on the heap (`label_mem_of_during`), so that it is enough that the tables agree on
those (`exec_congr`).
-/

namespace LoxLang

namespace Evaluation

open Eval Exec

/-- The occurrence of a name that the task itself looks up. -/
def Task.label? : Task → Option NodeId
  | .eval (.var id _) | .eval (.thisRef id _) | .eval (.assign id _ _) => some id
  | _ => none

/-- The tables agree on every name to which the run of the task comes. -/
def Agree (b b' : Bindings) (t : Task) (m : Machine) : Prop :=
  ∀ trail t' m', During b t m trail t' m' → ∀ id ∈ t'.label?, b.distance? id = b'.distance? id

section

variable {b b' : Bindings} {fuel : Nat} {m m' : Machine} {t t' : Task} {step : Step}

theorem Agree.part (h : Agree b b' t m) (hstarts : Starts b t m step t' m') : Agree b b' t' m' := by
  intro trail t'' m'' hduring
  obtain ⟨trail', hduring'⟩ := During.of_part hstarts hduring
  exact h trail' t'' m'' hduring'

theorem Agree.label (h : Agree b b' t m) {id : NodeId} (hid : t.label? = some id) :
    b.distance? id = b'.distance? id := h [] t m .start id hid

/-! ### Runs that are the same -/

section

variable {ε α β : Type}

theorem bind_congr_ok {x y : EStateM ε Machine α} {f g : α → EStateM ε Machine β} (hx : x m = y m)
    (hf : ∀ a m', x m = .ok a m' → f a m' = g a m') : (x >>= f) m = (y >>= g) m := by
  change EStateM.bind x f m = EStateM.bind y g m
  rw [EStateM.bind, EStateM.bind, ← hx]
  cases h : x m with
  | ok a m' => exact hf a m' h
  | error e m' => rfl

theorem toExec_congr {x y : Eval α} (h : x m = y m) : toExec x m = toExec y m := by
  rw [toExec, toExec, h]

theorem lift_bind_congr {x y : Eval α} {f g : α → Exec β} (hx : x m = y m)
    (hf : ∀ a m', x m = .ok a m' → f a m' = g a m') : (toExec x >>= f) m = (toExec y >>= g) m :=
  bind_congr_ok (toExec_congr hx) fun a m' h => hf a m' (toExec_ok h)

theorem ite_congr_run {c : Prop} [Decidable c] {x y x' y' : EStateM ε Machine α}
    (hx : c → x m = x' m) (hy : ¬c → y m = y' m) :
    (if c then x else y) m = (if c then x' else y') m := by
  split_ifs with hc
  · exact hx hc
  · exact hy hc

end

theorem place_congr {id : NodeId} (h : b.distance? id = b'.distance? id) (m : Machine) :
    place b m id = place b' m id := by rw [place, place, h]

theorem readVariable_congr {id : NodeId} (h : b.distance? id = b'.distance? id) (name : Token)
    (m : Machine) : readVariable b id name m = readVariable b' id name m := by
  rw [readVariable, readVariable, place_congr h]

theorem assignVariable_congr {id : NodeId} (h : b.distance? id = b'.distance? id) (name : Token)
    (v : Value) (m : Machine) : assignVariable b id name v m = assignVariable b' id name v m := by
  rw [assignVariable, assignVariable, holder?, holder?, place_congr h]

/-- Whatever starts with tables that agree runs in the same way with both, with this much fuel. -/
structure CongrAll (b b' : Bindings) (fuel : Nat) : Prop where
  eval : ∀ {e m}, Agree b b' (.eval e) m → Evaluation.eval b fuel e m = Evaluation.eval b' fuel e m
  evalEach : ∀ {es m}, Agree b b' (.evalEach es) m →
    Evaluation.evalEach b fuel es m = Evaluation.evalEach b' fuel es m
  call : ∀ {callee paren args m}, Agree b b' (.call callee paren args) m →
    Evaluation.call b fuel callee paren args m = Evaluation.call b' fuel callee paren args m
  dispatch : ∀ {callee paren args m}, Agree b b' (.dispatch callee paren args) m →
    Evaluation.dispatch b fuel callee paren args m = Evaluation.dispatch b' fuel callee paren args m
  apply : ∀ {c args m}, Agree b b' (.apply c args) m →
    Evaluation.apply b fuel c args m = Evaluation.apply b' fuel c args m
  exec : ∀ {s m}, Agree b b' (.exec s) m → Evaluation.exec b fuel s m = Evaluation.exec b' fuel s m
  loop : ∀ {condition body m}, Agree b b' (.loop condition body) m →
    Evaluation.loop b fuel condition body m = Evaluation.loop b' fuel condition body m
  execBlock : ∀ {frame body m}, Agree b b' (.execBlock frame body) m →
    Evaluation.execBlock b fuel frame body m = Evaluation.execBlock b' fuel frame body m
  execEach : ∀ {ss m}, Agree b b' (.execEach ss) m →
    Evaluation.execEach b fuel ss m = Evaluation.execEach b' fuel ss m

theorem eval_congr_succ (ih : CongrAll b b' fuel) {e : Expr NodeId} (h : Agree b b' (.eval e) m) :
    eval b (fuel + 1) e m = eval b' (fuel + 1) e m := by
  cases e with
  | literal l => rfl
  | group inner => exact ih.eval (h.part .group)
  | unary op operand => exact bind_congr_ok (ih.eval (h.part .unary)) fun _ _ _ => rfl
  | binary left op right =>
    refine bind_congr_ok (ih.eval (h.part .binaryLeft)) fun l m₁ hl => ?_
    exact bind_congr_ok (ih.eval (h.part (.binaryRight ⟨fuel, hl⟩))) fun _ _ _ => rfl
  | logical left op right =>
    refine bind_congr_ok (ih.eval (h.part .logicalLeft)) fun l m₁ hl => ?_
    refine ite_congr_run (fun _ => rfl) fun hc => ?_
    exact ih.eval (h.part (.logicalRight ⟨fuel, hl⟩ (by simpa using hc)))
  | var id name | thisRef id name => exact readVariable_congr (h.label rfl) name m
  | assign id name value =>
    refine bind_congr_ok (ih.eval (h.part .assigned)) fun v m₁ _ => ?_
    exact bind_congr_ok (assignVariable_congr (h.label rfl) name v m₁) fun _ _ _ => rfl
  | call callee paren args =>
    refine bind_congr_ok (ih.eval (h.part .callee)) fun f m₁ hf => ?_
    refine bind_congr_ok (ih.evalEach (h.part (.arguments ⟨fuel, hf⟩))) fun vs m₂ hvs => ?_
    exact ih.call (h.part (.called ⟨fuel, hf⟩ ⟨fuel, hvs⟩))
  | get object name => exact bind_congr_ok (ih.eval (h.part .object)) fun _ _ _ => rfl
  | set object name value =>
    refine bind_congr_ok (ih.eval (h.part .setObject)) fun o m₁ ho => ?_
    cases o with
    | instanceRef i =>
      exact bind_congr_ok (ih.eval (h.part (.setValue ⟨fuel, ho⟩))) fun _ _ _ => rfl
    | _ => rfl

theorem dispatch_congr_succ (ih : CongrAll b b' fuel) {callee : Value} {paren : Token}
    {args : List Value} (h : Agree b b' (.dispatch callee paren args) m) :
    dispatch b (fuel + 1) callee paren args m = dispatch b' (fuel + 1) callee paren args m := by
  cases callee with
  | functionRef id =>
    refine bind_congr_ok rfl fun m₁ _ hm₁ => ?_
    cases hm₁
    cases hc : m.heap.functions[id]? with
    | none => rfl
    | some c =>
      refine bind_congr_ok rfl fun _ m₂ hm₂ => ?_
      obtain ⟨rfl, harity⟩ := checkArity_ok hm₂
      exact ih.apply (h.part (.function hc harity))
  | classRef id =>
    refine bind_congr_ok rfl fun m₁ _ hm₁ => ?_
    cases hm₁
    refine bind_congr_ok rfl fun _ m₁ hm₁ => ?_
    obtain ⟨rfl, harity⟩ := checkArity_ok hm₁
    refine bind_congr_ok rfl fun i m₂ hi => ?_
    cases hc : m₁.heap.method? id initializerName with
    | none => rfl
    | some c =>
      rw [hc] at harity
      refine bind_congr_ok rfl fun bound m₃ hbound => ?_
      exact bind_congr_ok (ih.apply (h.part (.initializer hc harity hi hbound))) fun _ _ _ => rfl
  | _ => rfl

/-- A value that may be missing, as part of a statement that goes on with it. -/
theorem optional_congr (ih : CongrAll b b' fuel) {value? : Option (Expr NodeId)}
    (hvalue : ∀ e, value? = some e → Agree b b' (.eval e) m) (f : Value → Exec Unit) :
    (do
      let v ← match value? with
        | some e => (eval b fuel e : Exec Value)
        | none => pure Value.nil
      f v) m = (do
      let v ← match value? with
        | some e => (eval b' fuel e : Exec Value)
        | none => pure Value.nil
      f v) m := by
  cases value? with
  | none => rfl
  | some e => exact lift_bind_congr (ih.eval (hvalue e rfl)) fun _ _ _ => rfl

theorem exec_congr_succ (ih : CongrAll b b' fuel) {s : Stmt NodeId} (h : Agree b b' (.exec s) m) :
    exec b (fuel + 1) s m = exec b' (fuel + 1) s m := by
  cases s with
  | expr e => exact lift_bind_congr (ih.eval (h.part .expression)) fun _ _ _ => rfl
  | print e => exact lift_bind_congr (ih.eval (h.part .printed)) fun _ _ _ => rfl
  | var name value? =>
    refine optional_congr ih (fun e he => ?_) _
    subst he
    exact h.part .varInitializer
  | block body =>
    refine bind_congr_ok rfl fun m₁ _ hm₁ => ?_
    cases hm₁
    refine lift_bind_congr rfl fun frame m₁ hframe => ?_
    exact ih.execBlock (h.part (.block hframe))
  | ifThen condition s =>
    refine lift_bind_congr (ih.eval (h.part .condition)) fun c m₁ hc => ?_
    exact ite_congr_run (fun ht => ih.exec (h.part (.branch ⟨fuel, hc⟩ ht))) fun _ => rfl
  | ifElse condition s s' =>
    refine lift_bind_congr (ih.eval (h.part .elseCondition)) fun c m₁ hc => ?_
    refine ite_congr_run (fun ht => ih.exec (h.part (.thenBranch ⟨fuel, hc⟩ ht))) fun ht => ?_
    exact ih.exec (h.part (.elseBranch ⟨fuel, hc⟩ (by simpa using ht)))
  | whileLoop condition body => exact ih.loop (h.part .whileLoop)
  | function decl => rfl
  | ret keyword value? =>
    refine optional_congr ih (fun e he => ?_) _
    subst he
    exact h.part .returned
  | classDecl name methods => rfl

theorem congrAll (b b' : Bindings) (fuel : Nat) : CongrAll b b' fuel := by
  induction fuel with
  | zero => constructor <;> intros <;> rfl
  | succ fuel ih =>
    constructor
    case eval => exact eval_congr_succ ih
    case evalEach =>
      rintro (_ | ⟨e, es⟩) m h
      · rfl
      · refine bind_congr_ok (ih.eval (h.part .first)) fun v m₁ hv => ?_
        exact bind_congr_ok (ih.evalEach (h.part (.others ⟨fuel, hv⟩))) fun _ _ _ => rfl
    case call =>
      intro callee paren args m h
      refine bind_congr_ok rfl fun _ m₁ hm₁ => ?_
      obtain ⟨rfl, hdepth⟩ := checkDepth_ok hm₁
      rw [insideCall, insideCall, ih.dispatch (h.part (.entered hdepth))]
    case dispatch => exact dispatch_congr_succ ih
    case apply =>
      intro c args m h
      refine bind_congr_ok rfl fun frame m₁ hframe => ?_
      refine bind_congr_ok ?_ fun _ _ _ => rfl
      rw [catchReturn, catchReturn, ih.execBlock (h.part (.functionBody hframe))]
    case exec => exact exec_congr_succ ih
    case loop =>
      intro condition body m h
      refine lift_bind_congr (ih.eval (h.part .loopCondition)) fun c m₁ hc => ?_
      refine ite_congr_run (fun ht => ?_) fun _ => rfl
      refine bind_congr_ok (ih.exec (h.part (.loopBody ⟨fuel, hc⟩ ht))) fun _ m₂ hb => ?_
      exact ih.loop (h.part (.again ⟨fuel, hc⟩ ht ⟨fuel, hb⟩))
    case execBlock =>
      intro frame body m h
      change inFrame frame _ m = inFrame frame _ m
      rw [inFrame, inFrame, ih.execEach (h.part .statements)]
    case execEach =>
      rintro (_ | ⟨s, ss⟩) m h
      · rfl
      · refine bind_congr_ok (ih.exec (h.part .firstStatement)) fun _ m₁ hs => ?_
        exact ih.execEach (h.part (.otherStatements ⟨fuel, hs⟩))

end

end Evaluation

/-! ### The labels of the code -/

/-- The labels of the code on the heap satisfy `P`. -/
structure Heap.Labelled (P : NodeId → Prop) (h : Heap) : Prop where
  functions : ∀ {f : FunctionId} {c}, h.functions[f]? = some c → ∀ id ∈ Stmt.labelsEach c.decl.body, P id
  methods : ∀ {k name c}, h.method? k name = some c → ∀ id ∈ Stmt.labelsEach c.decl.body, P id

theorem Stmt.mem_labelsFunctions {d : Function NodeId} {methods : List (Function NodeId)}
    (hd : d ∈ methods) {id : NodeId} (hid : id ∈ Stmt.labelsEach d.body) :
    id ∈ Stmt.labelsFunctions methods := by
  induction methods with
  | nil => cases hd
  | cons d' methods ih =>
    rcases List.mem_cons.1 hd with rfl | hd
    · obtain ⟨label, name, params, body⟩ := d
      exact List.mem_append_left _ (List.mem_cons_of_mem _ hid)
    · exact List.mem_append_right _ (ih hd)

namespace Heap.Labelled

variable {P : NodeId → Prop} {h : Heap}

theorem addFunction (hh : h.Labelled P) {c : Closure}
    (hc : ∀ id ∈ Stmt.labelsEach c.decl.body, P id) :
    (h.addFunction c).2.Labelled P where
  functions hf := by
    rw [Heap.addFunction, Array.getElem?_push] at hf
    split_ifs at hf
    · cases hf
      exact hc
    · exact hh.functions hf
  methods := hh.methods

theorem addClass (hh : h.Labelled P) {k : Class}
    (hk : ∀ {name c}, k.methods.get? name = some c → ∀ id ∈ Stmt.labelsEach c.decl.body, P id) :
    (h.addClass k).2.Labelled P where
  functions := hh.functions
  methods hc := by
    simp only [Heap.method?, Heap.addClass, Array.getElem?_push] at hc
    split_ifs at hc
    · exact hk hc
    · exact hh.methods hc

/-- Only finitely many labels are on a heap. -/
theorem exists_bound (h : Heap) : ∃ n, h.Labelled (· < n) := by
  let labels (c : Closure) := Stmt.labelsEach c.decl.body
  obtain ⟨n, hn⟩ := (h.functions.toList.flatMap labels ++
    h.classes.toList.flatMap fun k => k.methods.entries.flatMap (labels ·.2)).toFinset.exists_nat_subset_range
  have hlt {id : NodeId} (hid : id ∈ _) : id < n := Finset.mem_range.1 (hn (List.mem_toFinset.2 hid))
  refine ⟨n, fun {f c} hc id hid => ?_, fun {k name c} hc id hid => ?_⟩
  · exact hlt (List.mem_append_left _ (List.mem_flatMap.2 ⟨c, by simpa using Array.mem_of_getElem? hc, hid⟩))
  · obtain ⟨k, hk, hc⟩ := Option.bind_eq_some_iff.1 hc
    obtain ⟨before, after, hentries, -⟩ := List.lookup_eq_some_iff.1 hc
    have hentry : (name, c) ∈ k.methods.entries := hentries ▸ List.mem_append_right _ List.mem_cons_self
    exact hlt (List.mem_append_right _ (List.mem_flatMap.2 ⟨k, by simpa using Array.mem_of_getElem? hk,
      List.mem_flatMap.2 ⟨_, hentry, hid⟩⟩))

end Heap.Labelled

namespace Evaluation

/-- The labels of the code that the task runs. -/
def Task.labels : Task → List NodeId
  | .eval e => e.labels
  | .evalEach es => Expr.labelsEach es
  | .call .. | .dispatch .. => []
  | .apply c _ => Stmt.labelsEach c.decl.body
  | .exec s => s.labels
  | .loop condition body => condition.labels ++ body.labels
  | .execBlock _ ss | .execEach ss => Stmt.labelsEach ss

theorem labelled_invariant (b : Bindings) (P : NodeId → Prop) :
    Invariant b (fun t m => (∀ id ∈ t.labels, P id) ∧ m.heap.Labelled P) (Heap.Labelled P) where
  heap h := h.2
  part := by
    rintro t m step t' m' ⟨hlabels, hh⟩ hstarts hh'
    refine ⟨fun id hid => ?_, hh'⟩
    -- the code of a part is part of the code of the task, or that of a function on the heap
    cases hstarts with
    | called | entered => cases hid
    | function hc => exact hh.functions hc id hid
    | initializer hc _ _ hbound => cases hbound; exact hh.methods hc id hid
    | _ =>
      refine hlabels id ?_
      simp_all [Task.labels, Expr.labels, Expr.labelsEach, Stmt.labels, Stmt.labelsEach, Expr.labels?]
  addFrame _ h _ := ⟨h.2.functions, h.2.methods⟩
  bindMethod _ h _ := ⟨h.functions, h.methods⟩
  addInstance _ h := ⟨h.functions, h.methods⟩
  setField _ _ _ h := ⟨h.functions, h.methods⟩
  declare _ _ h := ⟨h.functions, h.methods⟩
  assign _ _ h _ := ⟨h.functions, h.methods⟩
  bound := by
    intro object name m i m' c _ _ hh hproperty
    obtain ⟨o, -, hc⟩ := method?_of_property? hproperty
    have hbody : ∀ id ∈ Stmt.labelsEach c.decl.body, P id := hh.methods hc
    have hbound : (m'.heap.bind c i).2.Labelled P := ⟨hh.functions, hh.methods⟩
    exact hbound.addFunction (c := (m'.heap.bind c i).1) hbody
  function := by
    rintro ⟨label, name, params, body⟩ m ⟨hlabels, hh⟩
    obtain ⟨hfunctions, hmethods⟩ := hh.addFunction (c := ⟨⟨label, name, params, body⟩, m.scope, false⟩)
      fun id hid => hlabels id (List.mem_cons_of_mem _ hid)
    exact ⟨hfunctions, hmethods⟩
  classDecl := by
    rintro name methods m ⟨hlabels, hh⟩
    have hmethod {d : Function NodeId} (hd : d ∈ methods) {id : NodeId}
        (hid : id ∈ Stmt.labelsEach d.body) : P id := hlabels id (Stmt.mem_labelsFunctions hd hid)
    obtain ⟨hfunctions, hmethods⟩ := hh.addClass (k := ⟨name.lexeme, .ofList (methods.map fun d =>
      (d.name.lexeme, ⟨d, m.scope, d.isInitializer⟩))⟩) fun hc id hid => by
        obtain ⟨d, hd, heq⟩ := List.mem_map.1 (NameMap.mem_of_get?_ofList hc)
        cases heq
        exact hmethod hd hid
    exact ⟨hfunctions, hmethods⟩

/-- With tables that agree on all labels of the code, a statement runs in the same way. -/
theorem exec_congr {b b' : Bindings} {s : Stmt NodeId} {m : Machine}
    (hs : ∀ id ∈ s.labels, b.distance? id = b'.distance? id)
    (hm : m.heap.Labelled fun id => b.distance? id = b'.distance? id) (fuel : Nat) :
    exec b fuel s m = exec b' fuel s m := by
  refine (congrAll b b' fuel).exec fun trail t m' hduring id hid => ?_
  have hinv := labelled_invariant b fun id => b.distance? id = b'.distance? id
  refine (hinv.during (t := .exec s) ⟨hs, hm⟩ hduring).1 id ?_
  cases t with
  | eval e => cases e <;> cases hid <;> exact List.mem_cons_self
  | _ => cases hid

end Evaluation

end LoxLang
