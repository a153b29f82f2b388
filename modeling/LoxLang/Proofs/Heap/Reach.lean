import LoxLang.Heap
import Mathlib.Logic.Relation
import Mathlib.Tactic.SplitIfs

/-!
# Reachability on the heap

The heap is a graph: a frame leads to the frame around it and to what its variables refer to, a
function to its frame, a class to the frames of its methods, and an instance to its class and to what
its fields refer to (`Heap.Edge`).

A heap `h` is `Confined` to a set of nodes since an earlier heap `h₀` if it differs from `h₀` in nodes
of the set only, and no edge leads out of the set.  Whatever is made belongs to the set.  There is one
lemma for each change of the heap: it stays confined if the change takes place in the set and brings in
nothing from outside.
-/

namespace LoxLang

/-- Something on the heap. -/
inductive Node where
  | frame (id : FrameId)
  | function (id : FunctionId)
  | cls (id : ClassId)
  | object (id : InstanceId)

/-- What a value refers to. -/
def Value.node? : Value → Option Node
  | .functionRef id => some (.function id)
  | .classRef id => some (.cls id)
  | .instanceRef id => some (.object id)
  | _ => none

/-- What the value refers to is in the set, if it refers to something. -/
def Value.In (S : Node → Prop) (v : Value) : Prop := ∀ n, v.node? = some n → S n

/-- The one variable of the frame of a bound method is the instance. -/
theorem in_of_get?_this {S : Node → Prop} {i : InstanceId} (hi : S (.object i)) {name : String}
    {v : Value} (hv : (NameMap.empty.insert thisName (.instanceRef i)).get? name = some v) :
    v.In S := by
  rw [NameMap.get?_insert] at hv
  split_ifs at hv
  · obtain rfl := Option.some.inj hv
    rintro n hn
    obtain rfl := Option.some.inj hn
    exact hi
  · cases hv

/-- The value of the field, or the frame of the method, is in the set. -/
def Property.In (S : Node → Prop) : Property → Prop
  | .field v => v.In S
  | .method c => S (.frame c.frame)

namespace Heap

/-- The node is there. -/
def Has (h : Heap) : Node → Prop
  | .frame id => id < h.frames.next
  | .function id => id < h.functions.size
  | .cls id => id < h.classes.size
  | .object id => id < h.instances.size

/-- The node is the same on both heaps. -/
def SameAt (h h' : Heap) : Node → Prop
  | .frame id => h'.frames.list[id]? = h.frames.list[id]?
  | .function id => h'.functions[id]? = h.functions[id]?
  | .cls id => h'.classes[id]? = h.classes[id]?
  | .object id => h'.instances[id]? = h.instances[id]?

theorem SameAt.trans {h h' h'' : Heap} {n : Node} (hn : h.SameAt h' n) (hn' : h'.SameAt h'' n) :
    h.SameAt h'' n := by
  cases n with
  | frame | function | cls | object => exact Eq.trans hn' hn

/-- A node leads directly to another one. -/
inductive Edge (h : Heap) : Node → Node → Prop where
  | enclosing {id around} :
    h.frames.enclosing? id = some around → Edge h (.frame id) (.frame around)
  | value {id name v n} :
    h.frames.getHere? id name = some v → v.node? = some n → Edge h (.frame id) n
  | closure {id : FunctionId} {c : Closure} :
    h.functions[id]? = some c → Edge h (.function id) (.frame c.frame)
  | method {id name c} : h.method? id name = some c → Edge h (.cls id) (.frame c.frame)
  | ofClass {id : InstanceId} {o : Instance} :
    h.instances[id]? = some o → Edge h (.object id) (.cls o.classId)
  | field {id : InstanceId} {o : Instance} {name v n} :
    h.instances[id]? = some o → o.fields.get? name = some v → v.node? = some n →
    Edge h (.object id) n

/-- Edges lead from one of the roots to the node. -/
def Reachable (h : Heap) (roots : Node → Prop) (n : Node) : Prop :=
  ∃ root, roots root ∧ Relation.ReflTransGen h.Edge root n

theorem Reachable.root {h : Heap} {roots : Node → Prop} {n : Node} (hn : roots n) :
    h.Reachable roots n := ⟨n, hn, .refl⟩

theorem Reachable.edge {h : Heap} {roots : Node → Prop} {n n' : Node} (hn : h.Reachable roots n)
    (he : h.Edge n n') : h.Reachable roots n' := by
  obtain ⟨root, hroot, hpath⟩ := hn
  exact ⟨root, hroot, hpath.tail he⟩

/-- A set that no edge leaves has everything that can be reached from it. -/
theorem Reachable.mem_of_closed {h : Heap} {roots S : Node → Prop}
    (hclosed : ∀ {n n'}, S n → h.Edge n n' → S n') (hroots : ∀ n, roots n → S n) {n : Node}
    (hn : h.Reachable roots n) : S n := by
  obtain ⟨root, hroot, hpath⟩ := hn
  induction hpath with
  | refl => exact hroots root hroot
  | tail _ he ih => exact hclosed ih he

/-- Where nothing is there is no edge. -/
theorem Edge.has {h : Heap} {n n' : Node} (he : h.Edge n n') : h.Has n := by
  cases he with
  | enclosing henclosing =>
    rw [Frames.enclosing?, Option.bind_eq_some_iff] at henclosing
    obtain ⟨f, hf, -⟩ := henclosing
    exact (Array.getElem?_eq_some_iff.1 hf).1
  | value hv =>
    rw [Frames.getHere?, Option.bind_eq_some_iff] at hv
    obtain ⟨f, hf, -⟩ := hv
    exact (Array.getElem?_eq_some_iff.1 hf).1
  | closure hc => exact (Array.getElem?_eq_some_iff.1 hc).1
  | method hc =>
    rw [Heap.method?, Option.bind_eq_some_iff] at hc
    obtain ⟨k, hk, -⟩ := hc
    exact (Array.getElem?_eq_some_iff.1 hk).1
  | ofClass ho => exact (Array.getElem?_eq_some_iff.1 ho).1
  | field ho => exact (Array.getElem?_eq_some_iff.1 ho).1

/-! ### Edges after a change

Each change brings in only edges to what it is given. -/

section

variable {h : Heap} {n n' : Node}

theorem edge_define {frame : FrameId} {name : String} {v : Value}
    (he : (h.define frame name v).Edge n n') : h.Edge n n' ∨ v.node? = some n' := by
  cases he with
  | enclosing henclosing =>
    rw [Heap.define, Frames.enclosing?_define] at henclosing
    exact .inl (.enclosing henclosing)
  | value hget hnode =>
    rw [Heap.define, Frames.getHere?_define] at hget
    split_ifs at hget
    · obtain rfl := Option.some.inj hget
      exact .inr hnode
    · exact .inl (.value hget hnode)
  | closure hc => exact .inl (.closure hc)
  | method hc => exact .inl (.method hc)
  | ofClass ho => exact .inl (.ofClass ho)
  | field ho hget hnode => exact .inl (.field ho hget hnode)

theorem edge_addFrame {f : Frame} (he : (h.addFrame f).2.Edge n n') :
    h.Edge n n' ∨ (∃ a, f.enclosing? = some a ∧ n' = .frame a) ∨
      ∃ name v, f.vars.get? name = some v ∧ v.node? = some n' := by
  cases he with
  | enclosing henclosing =>
    rw [Heap.addFrame, Frames.enclosing?_push] at henclosing
    split_ifs at henclosing
    · exact .inr (.inl ⟨_, henclosing, rfl⟩)
    · exact .inl (.enclosing henclosing)
  | value hget hnode =>
    rw [Heap.addFrame, Frames.getHere?_push] at hget
    split_ifs at hget
    · exact .inr (.inr ⟨_, _, hget, hnode⟩)
    · exact .inl (.value hget hnode)
  | closure hc => exact .inl (.closure hc)
  | method hc => exact .inl (.method hc)
  | ofClass ho => exact .inl (.ofClass ho)
  | field ho hget hnode => exact .inl (.field ho hget hnode)

theorem edge_addFunction {c : Closure} (he : (h.addFunction c).2.Edge n n') :
    h.Edge n n' ∨ n' = .frame c.frame := by
  cases he with
  | closure hc =>
    rw [Heap.addFunction, Array.getElem?_push] at hc
    split_ifs at hc
    · obtain rfl := Option.some.inj hc
      exact .inr rfl
    · exact .inl (.closure hc)
  | enclosing henclosing => exact .inl (.enclosing henclosing)
  | value hget hnode => exact .inl (.value hget hnode)
  | method hc => exact .inl (.method hc)
  | ofClass ho => exact .inl (.ofClass ho)
  | field ho hget hnode => exact .inl (.field ho hget hnode)

theorem edge_addClass {k : Class} (he : (h.addClass k).2.Edge n n') :
    h.Edge n n' ∨ ∃ name c, k.methods.get? name = some c ∧ n' = .frame c.frame := by
  cases he with
  | method hc =>
    simp only [Heap.method?, Heap.addClass, Array.getElem?_push] at hc
    split_ifs at hc
    · exact .inr ⟨_, _, hc, rfl⟩
    · exact .inl (.method hc)
  | enclosing henclosing => exact .inl (.enclosing henclosing)
  | value hget hnode => exact .inl (.value hget hnode)
  | closure hc => exact .inl (.closure hc)
  | ofClass ho => exact .inl (.ofClass ho)
  | field ho hget hnode => exact .inl (.field ho hget hnode)

theorem edge_addInstance {id : ClassId} (he : (h.addInstance ⟨id, ∅⟩).2.Edge n n') :
    h.Edge n n' ∨ n' = .cls id := by
  cases he with
  | ofClass ho =>
    rw [Heap.addInstance, Array.getElem?_push] at ho
    split_ifs at ho
    · obtain rfl := Option.some.inj ho
      exact .inr rfl
    · exact .inl (.ofClass ho)
  | field ho hget hnode =>
    rw [Heap.addInstance, Array.getElem?_push] at ho
    split_ifs at ho
    · obtain rfl := Option.some.inj ho
      cases hget
    · exact .inl (.field ho hget hnode)
  | enclosing henclosing => exact .inl (.enclosing henclosing)
  | value hget hnode => exact .inl (.value hget hnode)
  | closure hc => exact .inl (.closure hc)
  | method hc => exact .inl (.method hc)

theorem edge_setField {i : InstanceId} {name : String} {v : Value}
    (he : (h.setField i name v).Edge n n') : h.Edge n n' ∨ v.node? = some n' := by
  cases he with
  -- the instance stays one of its class
  | ofClass ho =>
    rw [Heap.setField, Array.getElem?_modify] at ho
    split_ifs at ho
    · obtain ⟨o, ho', rfl⟩ := Option.map_eq_some_iff.1 ho
      have he : h.Edge _ (.cls o.classId) := .ofClass ho'
      exact .inl he
    · exact .inl (.ofClass ho)
  | field ho hget hnode =>
    rw [Heap.setField, Array.getElem?_modify] at ho
    split_ifs at ho
    · obtain ⟨o, ho', rfl⟩ := Option.map_eq_some_iff.1 ho
      rw [NameMap.get?_insert] at hget
      split_ifs at hget
      · obtain rfl := Option.some.inj hget
        exact .inr hnode
      · exact .inl (.field ho' hget hnode)
    · exact .inl (.field ho hget hnode)
  | enclosing henclosing => exact .inl (.enclosing henclosing)
  | value hget hnode => exact .inl (.value hget hnode)
  | closure hc => exact .inl (.closure hc)
  | method hc => exact .inl (.method hc)

end

/-- A property is a value of the instance or a method of its class. -/
theorem in_of_property? {h : Heap} {S : Node → Prop} {i : InstanceId} {name : String} {p : Property}
    (hfield : ∀ {n}, h.Edge (.object i) n → S n)
    (hmethod : ∀ {c n}, h.Edge (.object i) (.cls c) → h.Edge (.cls c) n → S n)
    (hp : h.property? i name = some p) : p.In S := by
  rw [Heap.property?, Option.bind_eq_some_iff] at hp
  obtain ⟨o, ho, hp⟩ := hp
  split at hp
  · next v hv =>
    obtain rfl := Option.some.inj hp
    exact fun n hn => hfield (.field ho hv hn)
  · obtain ⟨c, hc, rfl⟩ := Option.map_eq_some_iff.1 hp
    exact hmethod (.ofClass ho) (.method hc)

/-! ### Confined heaps -/

/-- Since the heap `h₀` only nodes of the set have changed or come into being, and no edge leaves the
set. -/
structure Confined (S : Node → Prop) (h₀ h : Heap) : Prop where
  closed : ∀ {n n'}, S n → h.Edge n n' → S n'
  unchanged : ∀ n, ¬S n → h₀.SameAt h n
  grown : ∀ n, h₀.Has n → h.Has n
  fresh : ∀ n, ¬h₀.Has n → S n

/-- The heap as it is, and all that can be reached from the roots or is not there yet. -/
theorem Confined.start (h : Heap) (roots : Node → Prop) :
    Confined (fun n => h.Reachable roots n ∨ ¬h.Has n) h h where
  closed := by
    rintro n n' (hn | hn) he
    · exact .inl (hn.edge he)
    · exact absurd he.has hn
  unchanged n _ := by cases n <;> rfl
  grown _ := id
  fresh _ := .inr

namespace Confined

variable {S : Node → Prop} {h₀ h : Heap} {frame : FrameId} {v : Value}

/-! What is found in the set leads to the set. -/

theorem ancestor (hh : Confined S h₀ h) (hframe : S (.frame frame)) {distance : Nat} {a : FrameId}
    (ha : h.frames.ancestor? frame distance = some a) : S (.frame a) := by
  induction distance generalizing frame with
  | zero => cases ha; exact hframe
  | succ distance ih =>
    rw [Frames.ancestor?, Option.bind_eq_some_iff] at ha
    obtain ⟨around, haround, ha⟩ := ha
    exact ih (hh.closed hframe (.enclosing haround)) ha

theorem holder (hh : Confined S h₀ h) (hframe : S (.frame frame)) {distance : Nat} {name : String}
    {a : FrameId} (ha : h.frames.holder? frame distance name = some a) : S (.frame a) :=
  hh.ancestor hframe (Frames.holder?_eq_some_iff.1 ha).1

theorem getHere (hh : Confined S h₀ h) (hframe : S (.frame frame)) {name : String}
    (hv : h.frames.getHere? frame name = some v) : v.In S :=
  fun _ hn => hh.closed hframe (.value hv hn)

theorem getAt (hh : Confined S h₀ h) (hframe : S (.frame frame)) {distance : Nat} {name : String}
    (hv : h.frames.getAt? frame distance name = some v) : v.In S := by
  rw [Frames.getAt?, Option.bind_eq_some_iff] at hv
  obtain ⟨a, ha, hv⟩ := hv
  exact hh.getHere (hh.holder hframe ha) hv

/-! What is made is in the set. -/

theorem frame_next (hh : Confined S h₀ h) : S (.frame h.frames.next) :=
  hh.fresh _ fun hhas => Nat.lt_irrefl _ (hh.grown _ hhas)

theorem function_size (hh : Confined S h₀ h) : S (.function h.functions.size) :=
  hh.fresh _ fun hhas => Nat.lt_irrefl _ (hh.grown _ hhas)

theorem cls_size (hh : Confined S h₀ h) : S (.cls h.classes.size) :=
  hh.fresh _ fun hhas => Nat.lt_irrefl _ (hh.grown _ hhas)

theorem object_size (hh : Confined S h₀ h) : S (.object h.instances.size) :=
  hh.fresh _ fun hhas => Nat.lt_irrefl _ (hh.grown _ hhas)

/-! Changes. -/

/-- A heap stays confined if new edges lead into the set, and nothing outside of it changes or goes
away. -/
theorem change (hh : Confined S h₀ h) {h' : Heap}
    (hedge : ∀ {n n'}, h'.Edge n n' → h.Edge n n' ∨ S n') (hsame : ∀ n, ¬S n → h.SameAt h' n)
    (hgrown : ∀ n, h.Has n → h'.Has n) : Confined S h₀ h' where
  closed hn he := (hedge he).elim (hh.closed hn) id
  unchanged n hn := (hh.unchanged n hn).trans (hsame n hn)
  grown n hn := hgrown n (hh.grown n hn)
  fresh := hh.fresh

theorem define (hh : Confined S h₀ h) (hframe : S (.frame frame)) (name : String) (hv : v.In S) :
    Confined S h₀ (h.define frame name v) := by
  refine hh.change (fun he => ?_) (fun n hn => ?_) fun n hn => ?_
  · exact (edge_define he).imp_right (hv _)
  · cases n with
    | frame id =>
      have hne : frame ≠ id := fun heq => hn (heq ▸ hframe)
      simp [SameAt, Heap.define, Frames.define, Array.getElem?_modify, hne]
    | function | cls | object => rfl
  · cases n with
    | frame id => simpa [Has, Heap.define] using hn
    | function | cls | object => exact hn

theorem addFrame (hh : Confined S h₀ h) {f : Frame}
    (hvars : ∀ name v, f.vars.get? name = some v → v.In S)
    (haround : ∀ a, f.enclosing? = some a → S (.frame a)) : Confined S h₀ (h.addFrame f).2 := by
  refine hh.change (fun he => ?_) (fun n hn => ?_) fun n hn => ?_
  · rcases edge_addFrame he with he | ⟨a, ha, rfl⟩ | ⟨name, v, hget, hnode⟩
    · exact .inl he
    · exact .inr (haround a ha)
    · exact .inr (hvars name v hget _ hnode)
  · cases n with
    | frame id =>
      have hne : id ≠ h.frames.list.size := fun heq => hn (heq ▸ hh.frame_next)
      simp [SameAt, Heap.addFrame, Frames.push, Array.getElem?_push, hne]
    | function | cls | object => rfl
  · cases n with
    | frame id => exact Nat.lt_of_lt_of_le hn (by simp [Heap.addFrame])
    | function | cls | object => exact hn

theorem addFunction (hh : Confined S h₀ h) {c : Closure} (hc : S (.frame c.frame)) :
    Confined S h₀ (h.addFunction c).2 := by
  refine hh.change (fun he => ?_) (fun n hn => ?_) fun n hn => ?_
  · rcases edge_addFunction he with he | rfl
    · exact .inl he
    · exact .inr hc
  · cases n with
    | function id =>
      have hne : id ≠ h.functions.size := fun heq => hn (heq ▸ hh.function_size)
      simp [SameAt, Heap.addFunction, Array.getElem?_push, hne]
    | frame | cls | object => rfl
  · cases n with
    | function id => exact Nat.lt_of_lt_of_le hn (by simp [Heap.addFunction])
    | frame | cls | object => exact hn

theorem addClass (hh : Confined S h₀ h) {k : Class}
    (hk : ∀ name c, k.methods.get? name = some c → S (.frame c.frame)) :
    Confined S h₀ (h.addClass k).2 := by
  refine hh.change (fun he => ?_) (fun n hn => ?_) fun n hn => ?_
  · rcases edge_addClass he with he | ⟨name, c, hc, rfl⟩
    · exact .inl he
    · exact .inr (hk name c hc)
  · cases n with
    | cls id =>
      have hne : id ≠ h.classes.size := fun heq => hn (heq ▸ hh.cls_size)
      simp [SameAt, Heap.addClass, Array.getElem?_push, hne]
    | frame | function | object => rfl
  · cases n with
    | cls id => exact Nat.lt_of_lt_of_le hn (by simp [Heap.addClass])
    | frame | function | object => exact hn

/-- A new instance without fields. -/
theorem addInstance (hh : Confined S h₀ h) {id : ClassId} (hid : S (.cls id)) :
    Confined S h₀ (h.addInstance ⟨id, ∅⟩).2 := by
  refine hh.change (fun he => ?_) (fun n hn => ?_) fun n hn => ?_
  · rcases edge_addInstance he with he | rfl
    · exact .inl he
    · exact .inr hid
  · cases n with
    | object id =>
      have hne : id ≠ h.instances.size := fun heq => hn (heq ▸ hh.object_size)
      simp [SameAt, Heap.addInstance, Array.getElem?_push, hne]
    | frame | function | cls => rfl
  · cases n with
    | object id => exact Nat.lt_of_lt_of_le hn (by simp [Heap.addInstance])
    | frame | function | cls => exact hn

theorem setField (hh : Confined S h₀ h) {i : InstanceId} (hi : S (.object i)) (name : String)
    (hv : v.In S) : Confined S h₀ (h.setField i name v) := by
  refine hh.change (fun he => ?_) (fun n hn => ?_) fun n hn => ?_
  · exact (edge_setField he).imp_right (hv _)
  · cases n with
    | object id =>
      have hne : i ≠ id := fun heq => hn (heq ▸ hi)
      simp [SameAt, Heap.setField, Array.getElem?_modify, hne]
    | frame | function | cls => rfl
  · cases n with
    | object id => simpa [Has, Heap.setField] using hn
    | frame | function | cls => exact hn

/-- The frame of a bound method is new. -/
theorem bind (hh : Confined S h₀ h) {c : Closure} (hc : S (.frame c.frame)) {i : InstanceId}
    (hi : S (.object i)) :
    Confined S h₀ (h.bind c i).2 ∧ S (.frame (h.bind c i).1.frame) := by
  refine ⟨hh.addFrame (fun _ _ hv => in_of_get?_this hi hv) fun a ha => ?_, hh.frame_next⟩
  obtain rfl := Option.some.inj ha
  exact hc

/-- A property of an instance of the set is a value or a method of the set. -/
theorem property (hh : Confined S h₀ h) {i : InstanceId} (hi : S (.object i)) {name : String}
    {p : Property} (hp : h.property? i name = some p) : p.In S :=
  in_of_property? (hh.closed hi) (fun hc hn => hh.closed (hh.closed hi hc) hn) hp

end Confined

end Heap

end LoxLang
