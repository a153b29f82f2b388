import LoxLang.Proofs.Heap.Whole
import LoxLang.Proofs.Property.Log

/-!
# What the log tells of a heap

`Tells log h` says that the fields of every instance of the heap hold what was last stored in them
according to the log, and that the class of every instance is the one that created it.  A property that
is read from such a heap is the one that the log gives (`Follows`, `Tells.follows`).  What happens to an
instance keeps the two together, and whatever else changes on the heap does not touch them.
-/

namespace LoxLang

/-! ### Properties of instances -/

/-- The function is the method, bound to the instance: it runs inside of a frame that has `this` and
nothing else, and lies in the frame of the method. -/
structure Frames.Binds (fs : Frames) (method : Closure) (i : InstanceId) (c : Closure) : Prop where
  decl : c.decl = method.decl
  isInitializer : c.isInitializer = method.isInitializer
  enclosing : fs.enclosing? c.frame = some method.frame
  vars : ∀ name, fs.getHere? c.frame name = if name = thisName then some (.instanceRef i) else none

namespace Heap

/-- The value of a field of an instance. -/
def field? (h : Heap) (i : InstanceId) (name : String) : Option Value :=
  h.instances[i]?.bind (·.fields.get? name)

variable {h : Heap} {i : InstanceId} {name : String}

/-- A store shows in the one field of the one instance, and only if the instance exists. -/
theorem field?_setField (h : Heap) (i : InstanceId) (name : String) (v : Value) (j : InstanceId)
    (other : String) :
    (h.setField i name v).field? j other =
      if j = i ∧ other = name ∧ i < h.instances.size then some v else h.field? j other := by
  simp only [field?, setField, Array.getElem?_modify]
  by_cases hij : i = j
  · subst hij
    by_cases hlt : i < h.instances.size
    · simp only [Array.getElem?_eq_getElem hlt, ↓reduceIte, Option.map_some, Option.bind_some,
        NameMap.get?_insert, hlt, and_true, true_and]
    · simp [hlt]
  · simp [hij, Ne.symm hij]

theorem field?_addInstance (h : Heap) (c : ClassId) (j : InstanceId) (name : String) :
    (h.addInstance ⟨c, ∅⟩).2.field? j name = h.field? j name := by
  simp only [field?, addInstance, Array.getElem?_push]
  by_cases hj : j = h.instances.size <;> simp [hj]

theorem property?_of_field {v : Value} (hv : h.field? i name = some v) :
    h.property? i name = some (.field v) := by
  obtain ⟨o, ho, hv⟩ := Option.bind_eq_some_iff.1 hv
  simp only [property?, ho, Option.bind_some, hv]

theorem property?_of_no_field {o : Instance} (ho : h.instances[i]? = some o)
    (hv : h.field? i name = none) :
    h.property? i name = (h.method? o.classId name).map .method := by
  rw [field?, ho, Option.bind_some] at hv
  simp only [property?, ho, Option.bind_some, hv]

theorem binds_bind (h : Heap) (method : Closure) (i : InstanceId) :
    (h.bind method i).2.frames.Binds method i (h.bind method i).1 where
  decl := rfl
  isInitializer := rfl
  enclosing := by
    change (h.frames.push _).enclosing? h.frames.next = _
    rw [Frames.enclosing?_push, if_pos rfl]
  vars name := by
    change (h.frames.push _).getHere? h.frames.next name = _
    rw [Frames.getHere?_push, if_pos rfl, NameMap.get?_insert]
    rfl

end Heap

namespace Evaluation

open Eval Exec

section

variable {i : InstanceId} {name : Token} {m : Machine}

theorem readProperty_of_field {v : Value} (h : m.heap.property? i name.lexeme = some (.field v)) :
    readProperty i name m = .ok v m := by
  change (orFail name (.undefinedProperty name.lexeme) (m.heap.property? i name.lexeme) >>= _) m = _
  rw [h]
  rfl

theorem readProperty_of_method {c : Closure}
    (h : m.heap.property? i name.lexeme = some (.method c)) :
    readProperty i name m = newFunction (m.heap.bind c i).1 (withHeap m (m.heap.bind c i).2) := by
  change (orFail name (.undefinedProperty name.lexeme) (m.heap.property? i name.lexeme) >>= _) m = _
  rw [h]
  rfl

theorem readProperty_of_none (h : m.heap.property? i name.lexeme = none) :
    readProperty i name m = failAt name (.undefinedProperty name.lexeme) m := by
  change (orFail name (.undefinedProperty name.lexeme) (m.heap.property? i name.lexeme) >>= _) m = _
  rw [h]
  rfl

end

/-! ### What has happened to an instance -/

/-- The value that is stored in the field, if the access stores one there. -/
def Access.stored? (i : InstanceId) (name : String) : Access → Option Value
  | .stored j other v => if j = i ∧ other = name then some v else none
  | _ => none

/-- The value most recently stored in a field. -/
def lastStored (log : List Access) (i : InstanceId) (name : String) : Option Value :=
  (log.filterMap (Access.stored? i name)).getLast?

theorem lastStored_append (log as : List Access) (i : InstanceId) (name : String) :
    lastStored (log ++ as) i name = (lastStored as i name).or (lastStored log i name) := by
  rw [lastStored, List.filterMap_append, List.getLast?_append]
  rfl

/-- Nothing else that happens changes what was stored last. -/
theorem lastStored_append_of_notMem {log as : List Access} {i : InstanceId} {name : String}
    (h : ∀ v, .stored i name v ∉ as) : lastStored (log ++ as) i name = lastStored log i name := by
  have hnone : as.filterMap (Access.stored? i name) = [] := by
    refine List.filterMap_eq_nil_iff.2 fun a ha => ?_
    cases a with
    | stored j other v =>
      rw [Access.stored?]
      split_ifs with heq
      · obtain ⟨rfl, rfl⟩ := heq
        exact absurd ha (h v)
      · rfl
    | _ => rfl
  rw [lastStored_append, lastStored, hnone]
  rfl

/-- The result is what the log has the instance give for the property: the value last stored in the
field; if there is none, the method of the class that created the instance, bound to the instance; and
if there is none either, an error. -/
structure Follows (log : List Access) (i : InstanceId) (p : Token)
    (result : EStateM.Result Stop Machine Value) : Prop where
  stored : ∀ v, lastStored log i p.lexeme = some v → ∃ m, result = .ok v m
  unstored : lastStored log i p.lexeme = none →
    ∃ c k, .created i c k ∈ log ∧ (∀ c' k', .created i c' k' ∈ log → c' = c ∧ k' = k) ∧
      (∀ method, k.methods.get? p.lexeme = some method →
        ∃ f bound m, result = .ok (.functionRef f) m ∧ m.heap.functions[f]? = some bound ∧
          m.heap.frames.Binds method i bound) ∧
      (k.methods.get? p.lexeme = none →
        ∃ fault m, result = .error (.failed (.fault p.line fault)) m ∧
          fault.message = "Undefined property '" ++ p.lexeme ++ "'.")

/-- Two readings of a property of the instance give the same: the same value, the same method bound to
the instance, or a failure with the same message. -/
inductive SameReading (i : InstanceId) :
    EStateM.Result Stop Machine Value → EStateM.Result Stop Machine Value → Prop where
  | value {v m m'} : SameReading i (.ok v m) (.ok v m')
  | method {method f c m f' c' m'} :
    m.heap.functions[f]? = some c → m.heap.frames.Binds method i c →
    m'.heap.functions[f']? = some c' → m'.heap.frames.Binds method i c' →
    SameReading i (.ok (.functionRef f) m) (.ok (.functionRef f') m')
  | failure {line line' fault fault' m m'} :
    fault.message = fault'.message →
    SameReading i (.error (.failed (.fault line fault)) m) (.error (.failed (.fault line' fault')) m')

/-- If nothing is stored in the field meanwhile, the property stays what it is. -/
theorem Follows.same {log as : List Access} {i : InstanceId} {p q : Token}
    {r r' : EStateM.Result Stop Machine Value} (h : Follows log i p r)
    (h' : Follows (log ++ as) i q r') (hname : q.lexeme = p.lexeme)
    (hstored : ∀ v, .stored i p.lexeme v ∉ as) : SameReading i r r' := by
  have hlast : lastStored (log ++ as) i q.lexeme = lastStored log i p.lexeme := by
    rw [hname]
    exact lastStored_append_of_notMem hstored
  cases hv : lastStored log i p.lexeme with
  | some v =>
    obtain ⟨m, rfl⟩ := h.stored v hv
    obtain ⟨m', rfl⟩ := h'.stored v (hlast.trans hv)
    exact .value
  | none =>
    obtain ⟨c, k, hcreated, -, hmethod, hnone⟩ := h.unstored hv
    obtain ⟨c', k', -, hunique, hmethod', hnone'⟩ := h'.unstored (hlast.trans hv)
    -- the creation of the instance is in the shorter log
    obtain ⟨-, rfl⟩ := hunique c k (List.mem_append_left _ hcreated)
    rw [hname] at hmethod' hnone'
    cases hk : k.methods.get? p.lexeme with
    | some method =>
      obtain ⟨f, c₁, m, rfl, hf, hbinds⟩ := hmethod method hk
      obtain ⟨f', c₂, m', rfl, hf', hbinds'⟩ := hmethod' method hk
      exact .method hf hbinds hf' hbinds'
    | none =>
      obtain ⟨fault, m, rfl, hmessage⟩ := hnone hk
      obtain ⟨fault', m', rfl, hmessage'⟩ := hnone' hk
      exact .failure (hmessage.trans hmessage'.symm)

/-- Every property that is read follows what has happened before. -/
def Told (log as : List Access) : Prop :=
  ∀ earlier i p r later, as = earlier ++ .read i p r :: later → Follows (log ++ earlier) i p r

section

variable {log as as' : List Access}

theorem told_of_no_read (h : ∀ i p r, .read i p r ∉ as) : Told log as := by
  rintro earlier i p r later rfl
  exact absurd (List.mem_append_right _ List.mem_cons_self) (h i p r)

theorem told_read {i : InstanceId} {p : Token} {r : EStateM.Result Stop Machine Value}
    (h : Follows log i p r) : Told log [.read i p r] := by
  intro earlier j q r' later heq
  cases earlier with
  | nil =>
    obtain ⟨hread, -⟩ := List.cons.inj heq
    cases hread
    rw [List.append_nil]
    exact h
  | cons a earlier => simp at heq

theorem Told.append (h : Told log as) (h' : Told (log ++ as) as') : Told log (as ++ as') := by
  intro earlier i p r later heq
  rcases List.append_eq_append_iff.1 heq with ⟨between, hearlier, has'⟩ | ⟨rest, has, hrest⟩
  · rw [hearlier, ← List.append_assoc]
    exact h' between i p r later has'
  · cases rest with
    | nil =>
      rw [List.append_nil] at has
      rw [← has]
      simpa using h' [] i p r later hrest.symm
    | cons a rest =>
      obtain ⟨rfl, -⟩ := List.cons.inj hrest
      exact h earlier i p r rest has

end

/-! ### What a log tells -/

/-- Fields hold what was last stored in them, and the class of an instance is the one that created
it. -/
structure Tells (log : List Access) (h : Heap) : Prop where
  fields : ∀ i name, h.field? i name = lastStored log i name
  created : ∀ {i : InstanceId} {o : Instance}, h.instances[i]? = some o →
    ∃ k, .created i o.classId k ∈ log
  creator : ∀ {i c k}, .created i c k ∈ log →
    h.classes[c]? = some k ∧ ∃ o, h.instances[i]? = some o ∧ o.classId = c

namespace Tells

variable {log : List Access} {h h' : Heap} {i : InstanceId}

/-- A new heap has no instances. -/
theorem initial : Tells [] Heap.initial where
  fields _ _ := rfl
  created ho := by cases ho
  creator hc := by cases hc

/-- A change that leaves instances alone, and classes what they are. -/
theorem kept (ht : Tells log h) (hk : h.Kept h') (hinstances : h'.instances = h.instances) :
    Tells log h' where
  fields i name := by rw [Heap.field?, hinstances]; exact ht.fields i name
  created ho := by rw [hinstances] at ho; exact ht.created ho
  creator hc := by
    obtain ⟨hclass, ho⟩ := ht.creator hc
    rw [hinstances]
    exact ⟨hk.classes hclass, ho⟩

theorem created_append (ht : Tells log h) {o : Instance} (ho : h.instances[i]? = some o)
    (as : List Access) : ∃ k, .created i o.classId k ∈ log ++ as := by
  obtain ⟨k, hk⟩ := ht.created ho
  exact ⟨k, List.mem_append_left _ hk⟩

/-- To read a property does not change the history of an instance. -/
theorem read (ht : Tells log h) (i : InstanceId) (p : Token)
    (r : EStateM.Result Stop Machine Value) : Tells (log ++ [.read i p r]) h where
  fields j name := by rw [lastStored_append]; exact ht.fields j name
  created ho := ht.created_append ho _
  creator hc := ht.creator ((List.mem_append.1 hc).resolve_right (by simp))

theorem store (ht : Tells log h) (hi : h.Has (.object i)) (name : String) (v : Value) :
    Tells (log ++ [.stored i name v]) (h.setField i name v) where
  fields j other := by
    have hlt : i < h.instances.size := hi
    rw [Heap.field?_setField, lastStored_append, ← ht.fields]
    by_cases heq : j = i ∧ other = name
    · obtain ⟨rfl, rfl⟩ := heq
      simp [lastStored, Access.stored?, hlt]
    · have hne : ¬(i = j ∧ name = other) := fun h => heq ⟨h.1.symm, h.2.symm⟩
      rw [if_neg fun h => heq ⟨h.1, h.2.1⟩]
      simp [lastStored, Access.stored?, hne]
  created {j o} ho := by
    rw [Heap.setField, Array.getElem?_modify] at ho
    split_ifs at ho
    · obtain ⟨o, ho', rfl⟩ := Option.map_eq_some_iff.1 ho
      exact ht.created_append ho' _
    · exact ht.created_append ho _
  creator {j c k} hc := by
    obtain ⟨hclass, o, ho, rfl⟩ := ht.creator ((List.mem_append.1 hc).resolve_right (by simp))
    obtain ⟨o', ho', hsame, -⟩ := (h.kept_setField i name v).instances ho
    exact ⟨hclass, o', ho', hsame⟩

theorem create (ht : Tells log h) {c : ClassId} (hc : h.Has (.cls c)) :
    Tells (log ++ creation h c) (h.addInstance ⟨c, ∅⟩).2 := by
  obtain ⟨k, hk⟩ : ∃ k, h.classes[c]? = some k := ⟨_, Array.getElem?_eq_getElem hc⟩
  rw [creation_eq hk]
  constructor
  case fields =>
    intro j name
    rw [Heap.field?_addInstance, lastStored_append]
    exact ht.fields j name
  case created =>
    intro j o ho
    rw [Heap.addInstance, Array.getElem?_push] at ho
    split_ifs at ho with hj
    · obtain rfl := Option.some.inj ho
      exact ⟨k, by simp [hj]⟩
    · exact ht.created_append ho _
  case creator =>
    intro j c' k' hc'
    rcases List.mem_append.1 hc' with hc' | hc'
    · obtain ⟨hclass, o, ho, rfl⟩ := ht.creator hc'
      exact ⟨hclass, o, Heap.getElem?_push_of_some ho _, rfl⟩
    · obtain ⟨rfl, rfl, rfl⟩ := Access.created.inj (List.mem_singleton.1 hc')
      exact ⟨hk, _, Array.getElem?_push_size, rfl⟩

/-- What is read from the heap follows the log. -/
theorem follows {m : Machine} (ht : Tells log m.heap) (hi : m.heap.Has (.object i)) (p : Token) :
    Follows log i p (readProperty i p m) where
  stored v hv := by
    rw [← ht.fields] at hv
    exact ⟨m, readProperty_of_field (Heap.property?_of_field hv)⟩
  unstored hv := by
    rw [← ht.fields] at hv
    have ho := Array.getElem?_eq_getElem hi
    have hproperty := Heap.property?_of_no_field ho hv
    obtain ⟨k, hk⟩ := ht.created ho
    obtain ⟨hclass, -⟩ := ht.creator hk
    rw [Heap.method?, hclass, Option.bind_some] at hproperty
    refine ⟨_, k, hk, fun c' k' hk' => ?_, fun method hmethod => ?_, fun hnone => ?_⟩
    · obtain ⟨hclass', o, ho', rfl⟩ := ht.creator hk'
      obtain rfl := Option.some.inj (ho.symm.trans ho')
      exact ⟨rfl, Option.some.inj (hclass'.symm.trans hclass)⟩
    · rw [hmethod] at hproperty
      rw [readProperty_of_method hproperty]
      exact ⟨_, _, _, rfl, Array.getElem?_push_size, m.heap.binds_bind method i⟩
    · rw [hnone] at hproperty
      exact ⟨_, m, readProperty_of_none hproperty, rfl⟩

end Tells

end Evaluation

end LoxLang
