import LoxLang.Proofs.Run.Invariant
import LoxLang.Proofs.Run.Stable
import LoxLang.Proofs.Scope.Visit

/-!
# Frames that mirror scopes

`Mirrors frames scopes frame` relates what the scope check knows to what a run has built: the frame
and the frames around it, up to the global frame, stand for the scopes one by one, and each frame has
every name that is complete in its scope.

Frames only ever gain variables and are never moved (`Grows`), so that what mirrors some scopes once
does so for good.
-/

namespace LoxLang

open Scoping Evaluation

/-- Frames from the given one outwards stand for the scopes, up to the global frame, which stands for
no scope.  Each has the names that are complete in its scope. -/
def Mirrors (fs : Frames) : Scopes → FrameId → Prop
  | [], frame => frame = globalFrame
  | scope :: outer, frame =>
    frame ≠ globalFrame ∧ (∀ name, scope.get? name = some true → fs.has frame name = true) ∧
    ∃ around, fs.enclosing? frame = some around ∧ Mirrors fs outer around

/-! ### Growing -/

/-- All frames are still there, each inside the same frame as before, and no variable is gone. -/
structure Frames.Grow (fs fs' : Frames) : Prop where
  next : fs.next ≤ fs'.next
  enclosing : ∀ {id around}, fs.enclosing? id = some around → fs'.enclosing? id = some around
  has : ∀ {id name}, fs.has id name = true → fs'.has id name = true

namespace Frames

theorem lt_of_enclosing? {fs : Frames} {id around : FrameId} (h : fs.enclosing? id = some around) :
    id < fs.next := by
  rw [enclosing?, Option.bind_eq_some_iff] at h
  obtain ⟨f, hf, -⟩ := h
  exact (Array.getElem?_eq_some_iff.1 hf).1

theorem lt_of_has {fs : Frames} {id : FrameId} {name : String} (h : fs.has id name = true) :
    id < fs.next := by
  obtain ⟨v, hv⟩ := has_iff.1 h
  rw [getHere?, Option.bind_eq_some_iff] at hv
  obtain ⟨f, hf, -⟩ := hv
  exact (Array.getElem?_eq_some_iff.1 hf).1

theorem Grow.refl (fs : Frames) : fs.Grow fs := ⟨Nat.le_refl _, id, id⟩

theorem Grow.trans {fs fs' fs'' : Frames} (h : fs.Grow fs') (h' : fs'.Grow fs'') : fs.Grow fs'' :=
  ⟨Nat.le_trans h.next h'.next, fun he => h'.enclosing (h.enclosing he), fun hh => h'.has (h.has hh)⟩

theorem grow_push (fs : Frames) (f : Frame) : fs.Grow (fs.push f) where
  next := by rw [next_push]; exact Nat.le_succ _
  enclosing h := by rw [enclosing?_push, if_neg (Nat.ne_of_lt (lt_of_enclosing? h))]; exact h
  has h := by
    have hlt := lt_of_has h
    rw [Frames.has, getHere?_push, if_neg (Nat.ne_of_lt hlt)]
    exact h

theorem has_define {fs : Frames} {id other : FrameId} {name n : String} {v : Value}
    (h : fs.has other n = true) : (fs.define id name v).has other n = true := by
  rw [has, getHere?_define]
  split_ifs
  · rfl
  · exact h

theorem grow_define (fs : Frames) (id : FrameId) (name : String) (v : Value) :
    fs.Grow (fs.define id name v) where
  next := Nat.le_of_eq (next_define fs id name v).symm
  enclosing h := by rw [enclosing?_define]; exact h
  has := has_define

end Frames

/-- The frames of the machine grow. -/
def Grows (m m' : Machine) : Prop := m.heap.frames.Grow m'.heap.frames

theorem grows_stable : Stable Grows where
  refl _ := .refl _
  trans h h' := h.trans h'
  addFrame _ f := Frames.grow_push _ f
  addFunction _ _ := .refl _
  addClass _ _ := .refl _
  addInstance _ _ := .refl _
  define _ frame name v := Frames.grow_define _ frame name v
  setField _ _ _ _ := .refl _
  print _ _ := .refl _
  tick _ := .refl _
  inCall h := h
  inFrame h := h

theorem Mirrors.grow {fs fs' : Frames} (h : fs.Grow fs') {scopes : Scopes} {frame : FrameId}
    (hm : Mirrors fs scopes frame) : Mirrors fs' scopes frame := by
  induction scopes generalizing frame with
  | nil => exact hm
  | cons scope outer ih =>
    obtain ⟨hne, hnames, around, henclosing, hm⟩ := hm
    exact ⟨hne, fun name hname => h.has (hnames name hname), around, h.enclosing henclosing, ih hm⟩

/-! ### Extending what is mirrored -/

/-- A name that the frame has gained may be complete in the scope. -/
theorem Mirrors.introduce {fs : Frames} {scopes : Scopes} {frame : FrameId} {name : Token}
    (hm : Mirrors fs scopes frame) (hname : fs.has frame name.lexeme = true) :
    Mirrors fs (Pass.introduce name scopes).1 frame := by
  cases scopes with
  | nil => exact hm
  | cons scope outer =>
    obtain ⟨hne, hnames, hm⟩ := hm
    obtain ⟨scope', hscope', hget⟩ := Pass.introduce_cons name scope outer
    rw [hscope']
    refine ⟨hne, fun n hn => ?_, hm⟩
    rw [hget] at hn
    split_ifs at hn with heq
    · rw [heq]; exact hname
    · exact hnames n hn

/-- Declaring a name makes no name complete. -/
theorem Mirrors.declare {fs : Frames} {scopes : Scopes} {frame : FrameId}
    (hm : Mirrors fs scopes frame) (name : Token) :
    Mirrors fs (Pass.declare name scopes).1 frame := by
  cases scopes with
  | nil => exact hm
  | cons scope outer =>
    obtain ⟨hne, hnames, hm⟩ := hm
    obtain ⟨scope', hscope', -, hcomplete⟩ := Pass.declare_cons name scope outer
    rw [hscope']
    exact ⟨hne, fun n hn => hnames n (hcomplete n hn), hm⟩

/-- A new frame with the given variables stands for a scope with no more names. -/
theorem mirrors_push {fs : Frames} {outer : Scopes} {around : FrameId}
    (hm : Mirrors fs outer around) (hglobal : globalFrame < fs.next) {vars : NameMap Value}
    {scope : Scope} (hnames : ∀ name, scope.get? name = some true → vars.contains name = true) :
    Mirrors (fs.push ⟨vars, some around⟩) (scope :: outer) fs.next := by
  refine ⟨Nat.ne_of_gt hglobal, fun name hname => ?_, around, ?_, hm.grow (Frames.grow_push _ _)⟩
  · rw [Frames.has, Frames.getHere?_push, if_pos rfl]
    exact hnames name hname
  · rw [Frames.enclosing?_push, if_pos rfl]

/-! ### Reading -/

/-- A name that a complete declaration declares is found at its distance. -/
theorem Mirrors.holder {fs : Frames} {scopes : Scopes} {frame : FrameId} {name : String}
    {distance : Nat} (hm : Mirrors fs scopes frame) (hdistance : distance? scopes name = some distance)
    (hcomplete : ∀ scope ∈ scopes, scope.get? name ≠ some false) :
    ∃ holder, fs.holder? frame distance name = some holder := by
  induction scopes generalizing frame distance with
  | nil => cases hdistance
  | cons scope outer ih =>
    obtain ⟨-, hnames, around, henclosing, hm⟩ := hm
    rw [distance?, List.findIdx?_cons] at hdistance
    split_ifs at hdistance with hscope
    · obtain rfl := Option.some.inj hdistance
      obtain ⟨complete, hget⟩ := NameMap.contains_iff.1 hscope
      cases complete with
      | true => exact ⟨frame, Frames.holder?_eq_some_iff.2 ⟨rfl, hnames name hget⟩⟩
      | false => exact absurd hget (hcomplete scope List.mem_cons_self)
    · obtain ⟨d, hd, rfl⟩ := Option.map_eq_some_iff.1 hdistance
      obtain ⟨holder, hholder⟩ := ih hm hd fun s hs => hcomplete s (List.mem_cons_of_mem _ hs)
      obtain ⟨hancestor, hhas⟩ := Frames.holder?_eq_some_iff.1 hholder
      refine ⟨holder, Frames.holder?_eq_some_iff.2 ⟨?_, hhas⟩⟩
      rw [Frames.ancestor?, henclosing]
      exact hancestor

end LoxLang
