import LoxLang.NameMap
import LoxLang.Value

/-!
# Frames

A frame holds the variables of one scope while it runs, and knows the frame around it.  Frames are
shared: a closure keeps the frame in which it was made, so several frames can have the same frame
around them.

A variable can be found in two ways: at a known distance (`getAt?`, `assignAt?`), or in the nearest
frame that has it (`get?`, `assign?`).  Both first find the frame (`holder?`, `owner?`).
-/

namespace LoxLang

/-- The variables of a scope, and the frame around it. -/
structure Frame where
  vars : NameMap Value
  enclosing? : Option FrameId

/-- All frames, numbered in the order in which they were made. -/
structure Frames where
  list : Array Frame

namespace Frames

/-- No frames. -/
def empty : Frames := ⟨#[]⟩

/-- The number of the next frame. -/
def next (fs : Frames) : FrameId := fs.list.size

/-- The frames with a new one. -/
def push (fs : Frames) (f : Frame) : Frames := ⟨fs.list.push f⟩

/-- The frame around a frame. -/
def enclosing? (fs : Frames) (id : FrameId) : Option FrameId := fs.list[id]?.bind (·.enclosing?)

/-- The value of a variable in this very frame. -/
def getHere? (fs : Frames) (id : FrameId) (name : String) : Option Value :=
  fs.list[id]?.bind (·.vars.get? name)

/-- The frame has a variable of this name. -/
def has (fs : Frames) (id : FrameId) (name : String) : Bool := (fs.getHere? id name).isSome

/-- Gives a variable of this very frame a value, making it if need be. -/
def define (fs : Frames) (id : FrameId) (name : String) (v : Value) : Frames :=
  ⟨fs.list.modify id fun f => { f with vars := f.vars.insert name v }⟩

@[simp] theorem next_define (fs : Frames) (id : FrameId) (name : String) (v : Value) :
    (fs.define id name v).next = fs.next := by simp [next, define]

@[simp] theorem next_push (fs : Frames) (f : Frame) : (fs.push f).next = fs.next + 1 := by
  simp [next, push]

@[simp] theorem enclosing?_define (fs : Frames) (id : FrameId) (name : String) (v : Value)
    (other : FrameId) : (fs.define id name v).enclosing? other = fs.enclosing? other := by
  simp only [enclosing?, define, Array.getElem?_modify]
  by_cases h : id = other <;> cases fs.list[other]? <;> simp [h]

/-- A definition shows in the one variable of the one frame, and only if the frame exists. -/
theorem getHere?_define (fs : Frames) (id : FrameId) (name : String) (v : Value)
    (other : FrameId) (n : String) :
    (fs.define id name v).getHere? other n =
      if other = id ∧ n = name ∧ id < fs.next then some v else fs.getHere? other n := by
  simp only [getHere?, define, Array.getElem?_modify, next]
  by_cases h : id = other
  · subst h
    by_cases hlt : id < fs.list.size
    · simp only [Array.getElem?_eq_getElem hlt, ↓reduceIte, Option.map_some, Option.bind_some,
        NameMap.get?_insert, hlt, and_true, true_and]
    · simp [hlt]
  · simp [h, Ne.symm h]

theorem getHere?_push (fs : Frames) (f : Frame) (id : FrameId) (name : String) :
    (fs.push f).getHere? id name =
      if id = fs.next then f.vars.get? name else fs.getHere? id name := by
  simp only [getHere?, push, next, Array.getElem?_push]
  by_cases h : id = fs.list.size <;> simp [h]

theorem enclosing?_push (fs : Frames) (f : Frame) (id : FrameId) :
    (fs.push f).enclosing? id = if id = fs.next then f.enclosing? else fs.enclosing? id := by
  simp only [enclosing?, push, next, Array.getElem?_push]
  by_cases h : id = fs.list.size <;> simp [h]

theorem has_iff {fs : Frames} {id : FrameId} {name : String} :
    fs.has id name = true ↔ ∃ v, fs.getHere? id name = some v := by
  simp [has, Option.isSome_iff_exists]

/-! ### At a known distance -/

/-- The frame this many steps out; `none` past the outermost one. -/
def ancestor? (fs : Frames) (id : FrameId) : (distance : Nat) → Option FrameId
  | 0 => some id
  | distance + 1 => (fs.enclosing? id).bind (fs.ancestor? · distance)

/-- Steps out add up. -/
theorem ancestor?_add (fs : Frames) (id : FrameId) (i j : Nat) :
    fs.ancestor? id (i + j) = (fs.ancestor? id i).bind (fs.ancestor? · j) := by
  induction i generalizing id with
  | zero => simp [ancestor?]
  | succ i ih =>
    rw [Nat.succ_add, ancestor?, ancestor?, Option.bind_assoc]
    exact congrArg _ (funext fun e => ih e)

/-- The frame this many steps out, if it has the variable. -/
def holder? (fs : Frames) (id : FrameId) (distance : Nat) (name : String) : Option FrameId :=
  (fs.ancestor? id distance).filter (fs.has · name)

theorem holder?_eq_some_iff {fs : Frames} {id : FrameId} {distance : Nat} {name : String}
    {holder : FrameId} :
    fs.holder? id distance name = some holder ↔
      fs.ancestor? id distance = some holder ∧ fs.has holder name = true := by
  simp [holder?, Option.filter_eq_some_iff]

/-- The value of the variable in the frame this many steps out. -/
def getAt? (fs : Frames) (id : FrameId) (distance : Nat) (name : String) : Option Value :=
  (fs.holder? id distance name).bind (fs.getHere? · name)

/-- Assigns to the variable in the frame this many steps out. -/
def assignAt? (fs : Frames) (id : FrameId) (distance : Nat) (name : String) (v : Value) :
    Option Frames :=
  (fs.holder? id distance name).map (fs.define · name v)

/-! ### In the nearest frame -/

/-- The nearest of the frame and at most `steps` frames around it that has the variable. -/
def ownerWithin? (fs : Frames) (name : String) : (steps : Nat) → FrameId → Option FrameId
  | 0, id => if fs.has id name then some id else none
  | steps + 1, id =>
    if fs.has id name then some id
    else (fs.enclosing? id).bind (fs.ownerWithin? name steps)

/-- The nearest frame that has the variable.  A frame was made after the frame around it, so there
are at most as many frames around a frame as its number says. -/
def owner? (fs : Frames) (id : FrameId) (name : String) : Option FrameId :=
  fs.ownerWithin? name id id

/-- The value of the variable in the nearest frame that has it. -/
def get? (fs : Frames) (id : FrameId) (name : String) : Option Value :=
  (fs.owner? id name).bind (fs.getHere? · name)

/-- Assigns to the variable in the nearest frame that has it. -/
def assign? (fs : Frames) (id : FrameId) (name : String) (v : Value) : Option Frames :=
  (fs.owner? id name).map (fs.define · name v)

end Frames

end LoxLang
