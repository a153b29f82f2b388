import LoxLang.Proofs.Heap.Chained
import LoxLang.Proofs.This.Growth

/-!
# What a heap keeps

`Heap.Kept h h'` says that `h'` has everything that `h` has, unchanged but for the values of variables and
fields: no run moves a frame, changes the class of an instance, the name and methods of a class or a
function, or takes a variable or a field away (`kept_stable`).  Together with the chains of frames this is
what holds of the heap in every state (`heap_keeps_its_shape`).
-/

namespace LoxLang

open Evaluation

/-- Frames lie in the frames in which they lay, functions and classes are the same, instances have the
same class, and variables and fields are still there. -/
structure Heap.Kept (h h' : Heap) : Prop where
  frames : h.frames.next ≤ h'.frames.next
  enclosing : ∀ {id}, id < h.frames.next → h'.frames.enclosing? id = h.frames.enclosing? id
  bound : ∀ {id name}, h.frames.has id name = true → h'.frames.has id name = true
  functions : ∀ {id : FunctionId} {c : Closure}, h.functions[id]? = some c →
    h'.functions[id]? = some c
  classes : ∀ {id : ClassId} {c : Class}, h.classes[id]? = some c → h'.classes[id]? = some c
  instances : ∀ {id : InstanceId} {i : Instance}, h.instances[id]? = some i →
    ∃ i', h'.instances[id]? = some i' ∧ i'.classId = i.classId ∧
      ∀ name, i.fields.contains name = true → i'.fields.contains name = true

namespace Heap

theorem Kept.refl (h : Heap) : h.Kept h :=
  ⟨Nat.le_refl _, fun _ => rfl, id, id, id, fun hi => ⟨_, hi, rfl, fun _ => id⟩⟩

theorem Kept.trans {h h' h'' : Heap} (hk : h.Kept h') (hk' : h'.Kept h'') : h.Kept h'' where
  frames := hk.frames.trans hk'.frames
  enclosing hid := (hk'.enclosing (Nat.lt_of_lt_of_le hid hk.frames)).trans (hk.enclosing hid)
  bound hhas := hk'.bound (hk.bound hhas)
  functions hc := hk'.functions (hk.functions hc)
  classes hc := hk'.classes (hk.classes hc)
  instances hi := by
    obtain ⟨i', hi', hclass, hfields⟩ := hk.instances hi
    obtain ⟨i'', hi'', hclass', hfields'⟩ := hk'.instances hi'
    exact ⟨i'', hi'', hclass'.trans hclass, fun name hname => hfields' name (hfields name hname)⟩

/-! ### Single changes -/

variable (h : Heap)

theorem kept_addFrame (f : Frame) : h.Kept (h.addFrame f).2 :=
  { Kept.refl h with
    frames := (Frames.grow_push _ f).next
    enclosing := fun hid => by
      show (h.frames.push f).enclosing? _ = _
      rw [Frames.enclosing?_push, if_neg (Nat.ne_of_lt hid)]
    bound := (Frames.grow_push _ f).has }

theorem kept_define (frame : FrameId) (name : String) (v : Value) : h.Kept (h.define frame name v) :=
  { Kept.refl h with
    frames := (Frames.grow_define _ frame name v).next
    enclosing := fun _ => Frames.enclosing?_define _ _ _ _ _
    bound := (Frames.grow_define _ frame name v).has }

theorem kept_addFunction (c : Closure) : h.Kept (h.addFunction c).2 :=
  { Kept.refl h with functions := fun hc => getElem?_push_of_some hc c }

theorem kept_addClass (c : Class) : h.Kept (h.addClass c).2 :=
  { Kept.refl h with classes := fun hc => getElem?_push_of_some hc c }

theorem kept_addInstance (i : Instance) : h.Kept (h.addInstance i).2 :=
  { Kept.refl h with
    instances := fun hi => ⟨_, getElem?_push_of_some hi i, rfl, fun _ => id⟩ }

/-- A field gets a value, and the other fields of the instance have theirs. -/
theorem kept_setField (id : InstanceId) (name : String) (v : Value) : h.Kept (h.setField id name v) :=
  { Kept.refl h with
    instances := fun {j i} hi => by
      refine ⟨if id = j then { i with fields := i.fields.insert name v } else i, ?_, ?_, ?_⟩
      · simp only [setField, Array.getElem?_modify, hi, Option.map_some]
        split_ifs <;> rfl
      · split_ifs <;> rfl
      · intro other hother
        split_ifs
        · show (i.fields.insert name v).contains other = true
          rw [NameMap.contains, NameMap.get?_insert]
          split_ifs
          · rfl
          · exact hother
        · exact hother }

end Heap

/-! ### Runs -/

/-- Whatever runs, the heap keeps what it has. -/
theorem kept_stable : Stable fun m m' => m.heap.Kept m'.heap where
  refl m := .refl m.heap
  trans hk hk' := hk.trans hk'
  addFrame m f := m.heap.kept_addFrame f
  addFunction m c := m.heap.kept_addFunction c
  addClass m c := m.heap.kept_addClass c
  addInstance m i := m.heap.kept_addInstance i
  define m frame name v := m.heap.kept_define frame name v
  setField m i name v := m.heap.kept_setField i name v
  print m _ := .refl m.heap
  tick m := .refl m.heap
  inCall hk := hk
  inFrame hk := hk

theorem Session.run_kept (s : Session) (fuel : Nat) (source : String) :
    s.machine.heap.Kept (s.run fuel source).2.machine.heap := by
  cases h : s.accepts source with
  | true =>
    rw [run_of_accepts h]
    exact kept_stable.after _ fuel s.ready _
  | false =>
    obtain ⟨bindings, -, hrun⟩ := run_of_not_accepts h fuel
    rw [hrun]
    exact .refl _

/-! ### The shape of the heap -/

/-- Links go from a frame to an older one, every chain of them ends at the global frame, and so a search
for a variable along the chain ends: more steps than the number of the frame find nothing more. -/
structure Frames.Rooted (fs : Frames) : Prop where
  older : ∀ id around, fs.enclosing? id = some around → around < id
  ends : ∀ id < fs.next, ∃ n ≤ id,
    fs.ancestor? id n = some globalFrame ∧ fs.ancestor? id (n + 1) = none
  search : ∀ id name steps, id ≤ steps → fs.ownerWithin? name steps id = fs.owner? id name

theorem Frames.Chained.rooted {fs : Frames} (h : fs.Chained) : fs.Rooted :=
  ⟨fun _ _ => h.older, fun _ => h.ends, fun _ name _ => h.nested.ownerWithin?_eq name⟩

/-- After any runs of a session, and whenever a part of the next program starts or has ended in whatever
way, the chains of frames end at the global frame.  From whatever machine a task runs and however it ends,
at its end and at every moment before, the heap has kept what it had; and so it has after every run of a
session. -/
theorem heap_keeps_its_shape :
    (∀ (limit? : Option Nat) (clock : Clock) (steps : List (Nat × String)) (source : String)
      (trail : List Step) (t : Task) (m : Machine),
      let s := (Session.start limit? clock).runAll steps
      s.machine.heap.frames.Rooted ∧
        (s.accepts source = true →
          During (s.bindingsFor source) (.execEach (s.program source)) s.ready trail t m →
          m.heap.frames.Rooted ∧
            ∀ fuel, (t.after (s.bindingsFor source) fuel m).heap.frames.Rooted)) ∧
      (∀ (b : Bindings) (t : Task) (m : Machine), (∀ fuel, m.heap.Kept (t.after b fuel m).heap) ∧
        ∀ trail t' m', During b t m trail t' m' → m.heap.Kept m'.heap) ∧
      ∀ (s : Session) (fuel : Nat) (source : String),
        s.machine.heap.Kept (s.run fuel source).2.machine.heap := by
  refine ⟨fun limit? clock steps source trail t m => ?_, fun b t m => ?_, Session.run_kept⟩
  · refine ⟨(Session.chained_runAll limit? clock steps).rooted, fun haccepts hduring => ?_⟩
    obtain ⟨hstart, hend⟩ := Session.chained_during rfl haccepts hduring
    exact ⟨hstart.rooted, fun fuel => (hend fuel).rooted⟩
  · exact ⟨fun fuel => kept_stable.after b fuel m t, fun _ _ _ => kept_stable.during⟩

end LoxLang
