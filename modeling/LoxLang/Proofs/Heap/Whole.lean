import LoxLang.Proofs.Heap.Kept
import LoxLang.Proofs.Heap.Reach

/-!
# Heaps without dangling references

A heap is `Whole` if every edge leads to something that is there.  Since nothing is ever removed
(`Kept.has`), it stays so with each change that brings in only references to what is there, and what is
found on a whole heap refers to what is there.
-/

namespace LoxLang

namespace Heap

/-- Every edge leads to something that is there. -/
def Whole (h : Heap) : Prop := ∀ n n', h.Edge n n' → h.Has n'

variable {h h' : Heap} {frame : FrameId} {v : Value}

/-- What is there stays there. -/
theorem Kept.has (hk : h.Kept h') {n : Node} (hn : h.Has n) : h'.Has n := by
  have stays {α : Type} {as as' : Array α} {id : Nat} (hid : id < as.size)
      (hall : ∀ a, as[id]? = some a → ∃ a', as'[id]? = some a') : id < as'.size := by
    obtain ⟨a', ha'⟩ := hall _ (Array.getElem?_eq_getElem hid)
    exact (Array.getElem?_eq_some_iff.1 ha').1
  cases n with
  | frame => exact Nat.lt_of_lt_of_le hn hk.frames
  | function => exact stays hn fun c hc => ⟨c, hk.functions hc⟩
  | cls => exact stays hn fun k hk' => ⟨k, hk.classes hk'⟩
  | object =>
    refine stays hn fun o ho => ?_
    obtain ⟨o', ho', -⟩ := hk.instances ho
    exact ⟨o', ho'⟩

theorem Kept.value (hk : h.Kept h') (hv : v.In h.Has) : v.In h'.Has := fun n hn => hk.has (hv n hn)

namespace Whole

/-! ### What is found -/

theorem getHere (hh : h.Whole) {name : String} (hv : h.frames.getHere? frame name = some v) :
    v.In h.Has := fun _ hn => hh _ _ (.value hv hn)

theorem getAt (hh : h.Whole) {distance : Nat} {name : String}
    (hv : h.frames.getAt? frame distance name = some v) : v.In h.Has := by
  rw [Frames.getAt?, Option.bind_eq_some_iff] at hv
  obtain ⟨a, -, hv⟩ := hv
  exact hh.getHere hv

theorem property (hh : h.Whole) {i : InstanceId} {name : String} {p : Property}
    (hp : h.property? i name = some p) : p.In h.Has :=
  in_of_property? (hh _ _) (fun _ hn => hh _ _ hn) hp

/-! ### Changes -/

theorem change (hh : h.Whole) (hk : h.Kept h')
    (hedge : ∀ {n n'}, h'.Edge n n' → h.Edge n n' ∨ h.Has n') : h'.Whole :=
  fun n n' he => hk.has ((hedge he).elim (hh n n') id)

theorem define (hh : h.Whole) (frame : FrameId) (name : String) (hv : v.In h.Has) :
    (h.define frame name v).Whole :=
  hh.change (h.kept_define frame name v) fun he => (edge_define he).imp_right (hv _)

theorem addFrame (hh : h.Whole) {f : Frame} (hvars : ∀ name v, f.vars.get? name = some v → v.In h.Has)
    (haround : ∀ a, f.enclosing? = some a → h.Has (.frame a)) : (h.addFrame f).2.Whole := by
  refine hh.change (h.kept_addFrame f) fun he => ?_
  rcases edge_addFrame he with he | ⟨a, ha, rfl⟩ | ⟨name, v, hv, hn⟩
  · exact .inl he
  · exact .inr (haround a ha)
  · exact .inr (hvars name v hv _ hn)

theorem addFunction (hh : h.Whole) {c : Closure} (hc : h.Has (.frame c.frame)) :
    (h.addFunction c).2.Whole := by
  refine hh.change (h.kept_addFunction c) fun he => ?_
  rcases edge_addFunction he with he | rfl
  · exact .inl he
  · exact .inr hc

theorem addClass (hh : h.Whole) {k : Class}
    (hk : ∀ name c, k.methods.get? name = some c → h.Has (.frame c.frame)) :
    (h.addClass k).2.Whole := by
  refine hh.change (h.kept_addClass k) fun he => ?_
  rcases edge_addClass he with he | ⟨name, c, hc, rfl⟩
  · exact .inl he
  · exact .inr (hk name c hc)

theorem addInstance (hh : h.Whole) {id : ClassId} (hid : h.Has (.cls id)) :
    (h.addInstance ⟨id, ∅⟩).2.Whole := by
  refine hh.change (h.kept_addInstance _) fun he => ?_
  rcases edge_addInstance he with he | rfl
  · exact .inl he
  · exact .inr hid

theorem setField (hh : h.Whole) (i : InstanceId) (name : String) (hv : v.In h.Has) :
    (h.setField i name v).Whole :=
  hh.change (h.kept_setField i name v) fun he => (edge_setField he).imp_right (hv _)

theorem bind (hh : h.Whole) {c : Closure} (hc : h.Has (.frame c.frame)) {i : InstanceId}
    (hi : h.Has (.object i)) : (h.bind c i).2.Whole := by
  refine hh.addFrame (fun _ _ hv => in_of_get?_this hi hv) fun a ha => ?_
  obtain rfl := Option.some.inj ha
  exact hc

end Whole

/-- A new heap has natives only. -/
theorem whole_initial : Heap.initial.Whole := by
  intro n n' he
  cases he with
  | enclosing henclosing =>
    rw [Heap.initial, Frames.enclosing?_push] at henclosing
    split_ifs at henclosing
    cases henclosing
  | value hv hn =>
    rw [Heap.initial, Frames.getHere?_push] at hv
    split_ifs at hv
    · obtain ⟨native, -, heq⟩ := List.mem_map.1 (NameMap.mem_of_get?_ofList hv)
      obtain ⟨-, rfl⟩ := Prod.mk.inj heq
      cases hn
    · cases hv
  | closure hc => cases hc
  | method hc => cases hc
  | ofClass ho => cases ho
  | field ho => cases ho

end Heap

end LoxLang
