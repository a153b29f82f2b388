import LoxLang.Proofs.Property.History
import LoxLang.Proofs.Run.Confined

/-!
# Runs and their logs

`Records log h A E r as` says of the result `r` of a run on the heap `h`, of which `log` tells, that `as`
is what happens to instances in the run: every property that is read in the run follows the log up
to there, and the longer log tells of the heap that the run leaves behind.  `A` and `E` are what is known
of the value and of what ends the run early, on that heap; this is that they refer to nothing that is
not there, since a store to an instance that is not there would be in the log, but not on the heap.

There is one rule for each combinator of the evaluator and for each of its single steps.
-/

namespace LoxLang

namespace Evaluation

open Eval Exec

/-- The log tells of the heap, on which every reference leads to something, and so does the frame that
runs. -/
structure Recorded (log : List Access) (m : Machine) : Prop where
  tells : Tells log m.heap
  whole : m.heap.Whole
  scope : m.heap.Has (.frame m.scope)

/-- What happens in a run on the heap `h` that ends with `r`. -/
structure Records {ε α : Type} (log : List Access) (h : Heap) (A : α → Heap → Prop)
    (E : ε → Heap → Prop) (r : EStateM.Result ε Machine α) (as : List Access) : Prop where
  told : Told log as
  recorded : Recorded (log ++ as) (finalMachine r)
  kept : h.Kept (finalMachine r).heap
  ok : ∀ {a m'}, r = .ok a m' → A a m'.heap
  error : ∀ {e m'}, r = .error e m' → E e m'.heap

/-- The value refers to nothing that is not there. -/
def Refers (v : Value) (h : Heap) : Prop := v.In h.Has

/-- The values refer to nothing that is not there. -/
def ReferAll (vs : List Value) (h : Heap) : Prop := AllIn h.Has vs

/-- A value that is returned refers to nothing that is not there. -/
def ReturnRefers (u : Unwind) (h : Heap) : Prop := u.Carries (Value.In h.Has)

/-- Nothing needs to be known. -/
def Whatever {α : Type} (_ : α) (_ : Heap) : Prop := True

theorem ReferAll.kept {vs : List Value} {h h' : Heap} (hvs : ReferAll vs h) (hk : h.Kept h') :
    ReferAll vs h' := fun v hv => hk.value (hvs v hv)

section

variable {ε ε' α β : Type} {log as : List Access} {h : Heap} {m : Machine} {A : α → Heap → Prop}
  {B : β → Heap → Prop} {E : ε → Heap → Prop} {F : ε' → Heap → Prop}
  {b : Bindings}

namespace Records

/-! ### Combinators -/

theorem after {r : EStateM.Result ε Machine α} {a : α} {m' : Machine} (hr : Records log h A E r as)
    (heq : r = .ok a m') : Recorded (log ++ as) m' ∧ h.Kept m'.heap ∧ A a m'.heap := by
  subst heq
  exact ⟨hr.recorded, hr.kept, hr.ok rfl⟩

/-- A run that leaves the same heap behind as another one. -/
theorem congr {r : EStateM.Result ε Machine α} {r' : EStateM.Result ε' Machine β}
    (hr : Records log h A E r as) (hheap : (finalMachine r').heap = (finalMachine r).heap)
    (hscope : (finalMachine r).heap.Has (.frame (finalMachine r').scope))
    (hok : ∀ {b m}, r' = .ok b m → B b m.heap)
    (herror : ∀ {e m}, r' = .error e m → F e m.heap) : Records log h B F r' as where
  told := hr.told
  recorded := ⟨hheap ▸ hr.recorded.tells, hheap ▸ hr.recorded.whole, hheap ▸ hscope⟩
  kept := by rw [hheap]; exact hr.kept
  ok := hok
  error := herror

theorem pure {a : α} (hm : Recorded log m) (hheap : m.heap = h) (ha : A a h) :
    Records log h A E (.ok a m) [] where
  told := told_of_no_read (by simp)
  recorded := by rw [List.append_nil]; exact hm
  kept := by rw [← hheap]; exact .refl _
  ok h := by cases h; rw [hheap]; exact ha
  error h := by cases h

theorem throw {e : ε} (hm : Recorded log m) (hheap : m.heap = h) (he : E e h) :
    Records log h A E (.error e m) [] where
  told := told_of_no_read (by simp)
  recorded := by rw [List.append_nil]; exact hm
  kept := by rw [← hheap]; exact .refl _
  ok h := by cases h
  error h := by cases h; rw [hheap]; exact he

/-- The log of what comes second begins where that of the first ends. -/
theorem bind {x : EStateM ε Machine α} {f : α → EStateM ε Machine β}
    {next : α → Machine → List Access} (hx : Records log m.heap A E (x m) as)
    (hf : ∀ a m', x m = .ok a m' → Recorded (log ++ as) m' → m.heap.Kept m'.heap → A a m'.heap →
      Records (log ++ as) m'.heap B E (f a m') (next a m')) :
    Records log m.heap B E ((x >>= f) m) (as ++ followedBy (x m) next) := by
  change Records log m.heap B E (EStateM.bind x f m) _
  rw [EStateM.bind]
  cases hr : x m with
  | ok a m' =>
    obtain ⟨hm', hk, ha⟩ := hx.after hr
    have hsecond := hf a m' hr hm' hk ha
    exact {
      told := hx.told.append hsecond.told
      recorded := by rw [followedBy, ← List.append_assoc]; exact hsecond.recorded
      kept := hk.trans hsecond.kept
      ok := hsecond.ok
      error := hsecond.error }
  | error e m' =>
    rw [hr] at hx
    rw [followedBy, List.append_nil]
    exact hx.congr rfl hx.recorded.scope (fun h => by cases h) fun h => by
      cases h; exact hx.error rfl

theorem get_bind {f : Machine → EStateM ε Machine β} (hf : Records log h B E (f m m) as) :
    Records log h B E ((MonadState.get >>= f) m) as := hf

/-- Nothing happens in what comes first. -/
theorem then_bind {x : EStateM ε Machine α} {f : α → EStateM ε Machine β}
    {next : α → Machine → List Access} (hx : Records log m.heap A E (x m) [])
    (hf : ∀ a m', x m = .ok a m' → Recorded log m' → m.heap.Kept m'.heap → A a m'.heap →
      Records log m'.heap B E (f a m') (next a m')) :
    Records log m.heap B E ((x >>= f) m) (followedBy (x m) next) := by
  refine hx.bind fun a m' hr hm' hk ha => ?_
  rw [List.append_nil] at hm' ⊢
  exact hf a m' hr hm' hk ha

/-- Nothing happens in what comes second. -/
theorem bind_quiet {x : EStateM ε Machine α} {f : α → EStateM ε Machine β}
    (hx : Records log m.heap A E (x m) as)
    (hf : ∀ a m', Recorded (log ++ as) m' → m.heap.Kept m'.heap → A a m'.heap →
      Records (log ++ as) m'.heap B E (f a m') []) : Records log m.heap B E ((x >>= f) m) as := by
  have h : Records log m.heap B E ((x >>= f) m) (as ++ followedBy (x m) fun _ _ => []) :=
    hx.bind fun a m' _ hm' hk ha => hf a m' hm' hk ha
  have hnil : followedBy (x m) (fun _ _ => []) = [] := by cases x m <;> rfl
  rw [hnil, List.append_nil] at h
  exact h

theorem ite {c : Prop} [Decidable c] {x y : EStateM ε Machine α} {as' : List Access}
    (hx : c → Records log m.heap A E (x m) as) (hy : ¬c → Records log m.heap A E (y m) as') :
    Records log m.heap A E ((if c then x else y) m) (if c then as else as') := by
  split_ifs with hc
  · exact hx hc
  · exact hy hc

theorem toExec {x : Eval α} {F : Stop → Heap → Prop} (h : Records log m.heap A F (x m) as) :
    Records log m.heap A ReturnRefers (toExec x m) as := by
  rw [Eval.toExec]
  cases hr : x m with
  | ok a m' =>
    rw [hr] at h
    exact h.congr rfl h.recorded.scope (fun h' => by cases h'; exact h.ok rfl) fun h' => by cases h'
  | error s m' =>
    rw [hr] at h
    exact h.congr rfl h.recorded.scope (fun h' => by cases h') fun h' => by cases h'; trivial

theorem catchReturn {x : Exec Unit} {U : Unit → Heap → Prop}
    (h : Records log m.heap U ReturnRefers (x m) as) :
    Records log m.heap (fun r? heap => ∀ v, r? = some v → Refers v heap) Whatever (catchReturn x m) as := by
  rw [Exec.catchReturn]
  cases hr : x m with
  | ok a m' =>
    rw [hr] at h
    refine h.congr rfl h.recorded.scope (fun h' => ?_) fun h' => by cases h'
    cases h'
    exact fun v hv => by cases hv
  | error u m' =>
    rw [hr] at h
    cases u with
    | stopped s =>
      exact h.congr rfl h.recorded.scope (fun h' => by cases h') fun h' => trivial
    | returned v =>
      refine h.congr rfl h.recorded.scope (fun h' => ?_) fun h' => by cases h'
      cases h'
      exact fun v' hv' => Option.some.inj hv' ▸ h.error rfl

theorem insideCall {x : Eval α} {F : Stop → Heap → Prop}
    (h : Records log m.heap A F (x { m with depth := m.depth + 1 }) as) :
    Records log m.heap A F (insideCall x m) as := by
  rw [Eval.insideCall]
  cases hr : x { m with depth := m.depth + 1 } with
  | ok a m' =>
    rw [hr] at h
    have ha : A a m'.heap := h.ok rfl
    exact h.congr rfl h.recorded.scope (fun h' => by cases h'; exact ha) fun h' => by cases h'
  | error s m' =>
    rw [hr] at h
    have hs : F s m'.heap := h.error rfl
    exact h.congr rfl h.recorded.scope (fun h' => by cases h') fun h' => by cases h'; exact hs

/-- The frame before is still there. -/
theorem inFrame {x : Exec α} {F : Unwind → Heap → Prop} {frame : FrameId} (hm : Recorded log m)
    (h : Records log m.heap A F (x { m with scope := frame }) as) :
    Records log m.heap A F (inFrame frame x m) as := by
  have hscope := h.kept.has hm.scope
  rw [Exec.inFrame]
  cases hr : x { m with scope := frame } with
  | ok a m' =>
    rw [hr] at h hscope
    have ha : A a m'.heap := h.ok rfl
    exact h.congr rfl hscope (fun h' => by cases h'; exact ha) fun h' => by cases h'
  | error u m' =>
    rw [hr] at h hscope
    have hu : F u m'.heap := h.error rfl
    exact h.congr rfl hscope (fun h' => by cases h') fun h' => by cases h'; exact hu

/-! ### Single steps -/

/-- A property that is read, where the run is quiet otherwise. -/
theorem read {r : EStateM.Result ε Machine α} {i : InstanceId} {p : Token}
    {result : EStateM.Result Stop Machine Value} (h : Records log m.heap A E r [])
    (hresult : Follows log i p result) : Records log m.heap A E r [.read i p result] where
  told := told_read hresult
  recorded := by
    have hm' := h.recorded
    rw [List.append_nil] at hm'
    exact ⟨hm'.tells.read i p result, hm'.whole, hm'.scope⟩
  kept := h.kept
  ok := h.ok
  error := h.error

/-- A change of the heap. -/
theorem onHeap {f : Heap → α × Heap} {F : Stop → Heap → Prop} (hm : Recorded log m)
    (htold : Told log as) (htells : Tells (log ++ as) (f m.heap).2) (hwhole : (f m.heap).2.Whole)
    (hk : m.heap.Kept (f m.heap).2) (ha : A (f m.heap).1 (f m.heap).2) :
    Records log m.heap A F (onHeap f m) as where
  told := htold
  recorded := ⟨htells, hwhole, hk.has hm.scope⟩
  kept := hk
  ok h := by cases h; exact ha
  error h := by cases h

/-- A change of the heap that leaves instances alone. -/
theorem onHeap_quiet {f : Heap → α × Heap} {F : Stop → Heap → Prop} (hm : Recorded log m)
    (hinstances : (f m.heap).2.instances = m.heap.instances) (hwhole : (f m.heap).2.Whole)
    (hk : m.heap.Kept (f m.heap).2) (ha : A (f m.heap).1 (f m.heap).2) :
    Records log m.heap A F (Eval.onHeap f m) [] := by
  refine .onHeap hm (told_of_no_read (by simp)) ?_ hwhole hk ha
  rw [List.append_nil]
  exact hm.tells.kept hk hinstances

theorem liftFault (hm : Recorded log m) (t : Token) {r : Except RuntimeFault α}
    (hr : ∀ a, r = .ok a → A a m.heap) : Records log m.heap A Whatever (liftFault t r m) [] := by
  cases r with
  | ok a => exact .pure hm rfl (hr a rfl)
  | error f => exact .throw hm rfl trivial

end Records

variable (hm : Recorded log m)

include hm

theorem records_readVariable (id : NodeId) (name : Token) :
    Records log m.heap Refers Whatever (readVariable b id name m) [] := by
  unfold readVariable
  dsimp only
  cases hv : m.heap.frames.getAt? (place b m id).1 (place b m id).2 name.lexeme with
  | none => exact .throw hm rfl trivial
  | some v => exact .pure hm rfl (hm.whole.getAt hv)

theorem records_assignVariable (id : NodeId) (name : Token) {v : Value} (hv : Refers v m.heap) :
    Records log m.heap Whatever Whatever (assignVariable b id name v m) [] := by
  unfold assignVariable
  cases ha : holder? b m id name.lexeme with
  | none => exact .throw hm rfl trivial
  | some frame =>
    exact .onHeap_quiet hm rfl (hm.whole.define frame name.lexeme hv) (m.heap.kept_define _ _ _) trivial

theorem records_defineVariable (name : Token) {v : Value} (hv : Refers v m.heap) :
    Records log m.heap Whatever Whatever (defineVariable name v m) [] := by
  change Records log m.heap _ _ (onHeap (fun h => ((), h.define m.scope name.lexeme v)) m) []
  exact .onHeap_quiet hm rfl (hm.whole.define m.scope name.lexeme hv) (m.heap.kept_define _ _ _) trivial

theorem records_newFrame {vars : NameMap Value} {around : FrameId}
    (hvars : ∀ name v, vars.get? name = some v → Refers v m.heap)
    (haround : m.heap.Has (.frame around)) :
    Records log m.heap (fun id heap => heap.Has (.frame id)) Whatever (newFrame vars around m) [] := by
  refine .onHeap_quiet hm rfl (hm.whole.addFrame hvars fun a ha => ?_) (m.heap.kept_addFrame _) ?_
  · exact Option.some.inj ha ▸ haround
  · exact Nat.lt_of_lt_of_eq (Nat.lt_succ_self _) (Frames.next_push _ _).symm

theorem records_newFunction {c : Closure} (hc : m.heap.Has (.frame c.frame)) :
    Records log m.heap Refers Whatever (newFunction c m) [] := by
  refine .onHeap_quiet hm rfl (hm.whole.addFunction hc) (m.heap.kept_addFunction c) ?_
  intro n hn
  obtain rfl := Option.some.inj hn
  exact Nat.lt_of_lt_of_eq (Nat.lt_succ_self _) (Array.size_push _).symm

theorem records_newClass (name : Token) (methods : List (Function NodeId)) {around : FrameId}
    (haround : m.heap.Has (.frame around)) :
    Records log m.heap Refers Whatever (newClass name methods around m) [] := by
  refine .onHeap_quiet hm rfl (hm.whole.addClass fun n c hc => ?_) (m.heap.kept_addClass _) ?_
  · obtain ⟨d, -, heq⟩ := List.mem_map.1 (NameMap.mem_of_get?_ofList hc)
    obtain ⟨-, rfl⟩ := Prod.mk.inj heq
    exact haround
  · intro n hn
    obtain rfl := Option.some.inj hn
    exact Nat.lt_of_lt_of_eq (Nat.lt_succ_self _) (Array.size_push _).symm

theorem records_bind {c : Closure} (hc : m.heap.Has (.frame c.frame)) {i : InstanceId}
    (hi : m.heap.Has (.object i)) :
    Records log m.heap (fun c heap => heap.Has (.frame c.frame)) Whatever (onHeap (·.bind c i) m) [] := by
  refine .onHeap_quiet hm rfl (hm.whole.bind hc hi) (m.heap.kept_addFrame _) ?_
  exact Nat.lt_of_lt_of_eq (Nat.lt_succ_self _) (Frames.next_push _ _).symm

theorem records_addInstance {id : ClassId} (hid : m.heap.Has (.cls id)) :
    Records log m.heap (fun i heap => heap.Has (.object i)) Whatever
      (onHeap (·.addInstance ⟨id, ∅⟩) m) (creation m.heap id) := by
  refine .onHeap hm ?_ (hm.tells.create hid) (hm.whole.addInstance hid) (m.heap.kept_addInstance _) ?_
  · exact told_of_no_read (by simp [creation])
  · exact Nat.lt_of_lt_of_eq (Nat.lt_succ_self _) (Array.size_push _).symm

theorem records_readProperty {i : InstanceId} (hi : m.heap.Has (.object i)) (p : Token) :
    Records log m.heap Refers Whatever (readProperty i p m) [.read i p (readProperty i p m)] := by
  -- a method is bound to the instance before it is made a function
  have hquiet : Records log m.heap Refers Whatever (readProperty i p m) [] := by
    cases hp : m.heap.property? i p.lexeme with
    | none =>
      rw [readProperty_of_none hp]
      exact .throw hm rfl trivial
    | some property =>
      cases property with
      | field v =>
        rw [readProperty_of_field hp]
        exact .pure hm rfl (hm.whole.property hp)
      | method c =>
        rw [readProperty_of_method hp]
        change Records log m.heap _ _ ((onHeap (·.bind c i) >>= newFunction) m) []
        refine .bind_quiet (records_bind hm (hm.whole.property hp) hi) fun bound m' hm' _ hbound => ?_
        exact records_newFunction hm' hbound
  exact hquiet.read (hm.tells.follows hi p)

theorem records_assignField {i : InstanceId} (hi : m.heap.Has (.object i)) (name : Token) {v : Value}
    (hv : Refers v m.heap) :
    Records log m.heap Whatever Whatever (assignField i name v m) [.stored i name.lexeme v] := by
  refine .onHeap hm ?_ (hm.tells.store hi name.lexeme v) (hm.whole.setField i name.lexeme hv)
    (m.heap.kept_setField _ _ _) trivial
  exact told_of_no_read (by simp)

theorem records_checkArity (paren : Token) (expected got : Nat) :
    Records log m.heap Whatever Whatever (checkArity paren expected got m) [] := by
  unfold checkArity
  split_ifs
  · exact .pure hm rfl trivial
  · exact .throw hm rfl trivial

theorem records_checkDepth (paren : Token) :
    Records log m.heap Whatever Whatever (checkDepth paren m) [] := by
  change Records log m.heap Whatever Whatever
    ((if maxCallDepth ≤ m.depth then failAt paren .tooManyCalls else pure ()) m) []
  split_ifs
  · exact .throw hm rfl trivial
  · exact .pure hm rfl trivial

theorem records_callNative (n : Native) : Records log m.heap Refers Whatever (callNative n m) [] := by
  cases n with
  | clock => exact .pure (A := Refers) ⟨hm.tells, hm.whole, hm.scope⟩ rfl (in_of_node?_eq_none rfl)

theorem records_callResult {c : Closure} {returned? : Option Value}
    (hreturned : ∀ v, returned? = some v → Refers v m.heap) :
    Records log m.heap Refers Whatever (callResult c returned? m) [] := by
  rw [callResult]
  split_ifs
  · refine .pure hm rfl ?_
    cases hv : m.heap.frames.getHere? c.frame thisName with
    | none => exact in_of_node?_eq_none rfl
    | some v => exact hm.whole.getHere hv
  · refine .pure hm rfl ?_
    cases returned? with
    | none => exact in_of_node?_eq_none rfl
    | some v => exact hreturned v rfl

theorem records_printLine (text : String) :
    Records log m.heap Whatever Whatever (printLine text m) [] := by
  rw [printLine]
  split_ifs
  · exact .pure ⟨hm.tells, hm.whole, hm.scope⟩ rfl trivial
  · exact .throw ⟨hm.tells, hm.whole, hm.scope⟩ rfl trivial

end

end Evaluation

end LoxLang
