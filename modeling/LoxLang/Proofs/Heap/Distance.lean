import LoxLang.Evaluation

/-!
# Variables at a distance and by search

A variable is found at a known distance, or by a search through the frames around a frame, and the two
agree: at the least distance at which there is the variable, both read the same value and make the same
change, and where the search finds nothing there is nothing at any distance
(`distance_agrees_with_search`).

A run reads and assigns a variable so, at the distance of its place (`FrameAccess.readVariable_eq`,
`FrameAccess.assignVariable_eq`).  The two agree in all frames that can be made (`Frames.Built`), since a
frame lies in an older one, however many frames share it (`Frames.Built.nested`).  So the search through
the frames around a frame takes no more steps than the number of the frame says
(`Frames.Nested.ownerWithin?_eq`).
-/

namespace LoxLang

/-! ### What is done with frames -/

/-- Something done with frames, which can fail. -/
abbrev FrameAccess := EStateM RunError Frames

namespace FrameAccess

variable {α : Type}

/-- The error about a name that has no variable. -/
def undefined (name : Token) : RunError := .fault name.line (.undefinedVariable name.lexeme)

/-- What `f` makes of the frames, or else the error about the name. -/
def attempt (name : Token) (f : Frames → Option (α × Frames)) : FrameAccess α := fun fs =>
  match f fs with
  | some (a, fs') => .ok a fs'
  | none => .error (undefined name) fs

/-- Reads the variable of the nearest frame that has it. -/
def readNearest (id : FrameId) (name : Token) : FrameAccess Value :=
  attempt name fun fs => (fs.get? id name.lexeme).map (·, fs)

/-- Reads the variable of the frame so many steps out. -/
def readAt (id : FrameId) (distance : Nat) (name : Token) : FrameAccess Value :=
  attempt name fun fs => (fs.getAt? id distance name.lexeme).map (·, fs)

/-- Assigns to the variable of the nearest frame that has it. -/
def assignNearest (id : FrameId) (name : Token) (v : Value) : FrameAccess Unit :=
  attempt name fun fs => (fs.assign? id name.lexeme v).map ((), ·)

/-- Assigns to the variable of the frame so many steps out. -/
def assignAt (id : FrameId) (distance : Nat) (name : Token) (v : Value) : FrameAccess Unit :=
  attempt name fun fs => (fs.assignAt? id distance name.lexeme v).map ((), ·)

/-- A failure is about the name, and changes nothing. -/
theorem attempt_error {name : Token} {f : Frames → Option (α × Frames)} {fs fs' : Frames} {e : RunError}
    (h : attempt name f fs = .error e fs') : e = undefined name ∧ fs' = fs := by
  unfold attempt at h
  split at h
  · cases h
  · cases h
    exact ⟨rfl, rfl⟩

/-- The frames afterwards, however it ends. -/
def after (x : FrameAccess α) (fs : Frames) : Frames :=
  match x fs with
  | .ok _ fs' => fs'
  | .error _ fs' => fs'

theorem after_attempt (name : Token) (f : Frames → Option (α × Frames)) (fs : Frames) :
    (attempt name f).after fs = ((f fs).map (·.2)).getD fs := by
  unfold after attempt
  cases f fs <;> rfl

/-- The access as part of a run. -/
def toEval (x : FrameAccess α) : Eval α := fun m =>
  match x m.heap.frames with
  | .ok a fs => .ok a { m with heap.frames := fs }
  | .error e fs => .error (.failed e) { m with heap.frames := fs }

/-- A run reads a variable at the distance of its place. -/
theorem readVariable_eq (b : Bindings) (id : NodeId) (name : Token) (m : Machine) :
    Evaluation.readVariable b id name m =
      (readAt (Evaluation.place b m id).1 (Evaluation.place b m id).2 name).toEval m := by
  unfold Evaluation.readVariable toEval readAt attempt
  generalize Evaluation.place b m id = whence
  cases h : m.heap.frames.getAt? whence.1 whence.2 name.lexeme with
  | none => simp only [h, Option.map_none]; rfl
  | some v => simp only [h, Option.map_some]

/-- A run assigns to a variable at the distance of its place. -/
theorem assignVariable_eq (b : Bindings) (id : NodeId) (name : Token) (v : Value) (m : Machine) :
    Evaluation.assignVariable b id name v m =
      (assignAt (Evaluation.place b m id).1 (Evaluation.place b m id).2 name v).toEval m := by
  unfold Evaluation.assignVariable Evaluation.holder? toEval assignAt Frames.assignAt? attempt
  generalize Evaluation.place b m id = whence
  cases h : m.heap.frames.holder? whence.1 whence.2 name.lexeme with
  | none => simp only [h, Option.map_none]; rfl
  | some holder => simp only [h, Option.map_some]; rfl

end FrameAccess

/-- How frames are made and changed. -/
inductive FrameChange where
  | new
  | child (around : FrameId)
  | define (id : FrameId) (name : String) (v : Value)
  | assign (id : FrameId) (name : Token) (v : Value)
  | assignAt (id : FrameId) (distance : Nat) (name : Token) (v : Value)

/-- The frame that the change is about is there. -/
def FrameChange.Fits (fs : Frames) : FrameChange → Prop
  | new => True
  | child id | define id _ _ | assign id _ _ | assignAt id _ _ _ => id < fs.next

namespace Frames

/-- The frames after a change; one that fails leaves them as they are. -/
def change (fs : Frames) : FrameChange → Frames
  | .new => fs.push ⟨∅, none⟩
  | .child around => fs.push ⟨∅, some around⟩
  | .define id name v => fs.define id name v
  | .assign id name v => (FrameAccess.assignNearest id name v).after fs
  | .assignAt id distance name v => (FrameAccess.assignAt id distance name v).after fs

/-- The frames can be made, from no frames by any number of changes. -/
inductive Built : Frames → Prop where
  | empty : Built .empty
  | change {fs : Frames} (c : FrameChange) : Built fs → c.Fits fs → Built (fs.change c)

/-! ### Frames lie in older frames -/

/-- The frame around a frame is older. -/
def Nested (fs : Frames) : Prop := ∀ ⦃id around⦄, fs.enclosing? id = some around → around < id

namespace Nested

variable {fs : Frames}

theorem empty : Nested .empty := nofun

theorem push (h : fs.Nested) {f : Frame} (hf : ∀ around, f.enclosing? = some around → around < fs.next) :
    (fs.push f).Nested := by
  intro id around hid
  rw [enclosing?_push] at hid
  split at hid
  · next heq => exact heq ▸ hf around hid
  · exact h hid

theorem define (h : fs.Nested) (id : FrameId) (name : String) (v : Value) :
    (fs.define id name v).Nested := by
  intro other around hother
  rw [enclosing?_define] at hother
  exact h hother

/-- An assignment defines a variable of a frame that was found, or changes nothing. -/
theorem assign (h : fs.Nested) (name : Token) (v : Value) (find? : Frames → Option FrameId) :
    ((FrameAccess.attempt name fun fs =>
      ((find? fs).map (fs.define · name.lexeme v)).map ((), ·)).after fs).Nested := by
  rw [FrameAccess.after_attempt]
  cases find? fs with
  | none => exact h
  | some id => exact h.define id name.lexeme v

theorem change (h : fs.Nested) {c : FrameChange} (hc : c.Fits fs) : (fs.change c).Nested := by
  cases c with
  | new => exact h.push nofun
  | child around =>
    refine h.push ?_
    rintro _ ⟨⟩
    exact hc
  | define id name v => exact h.define id name v
  | assign id name v => exact h.assign name v (·.owner? id name.lexeme)
  | assignAt id distance name v => exact h.assign name v (·.holder? id distance name.lexeme)

/-- A frame so many steps out is older by as many numbers at least. -/
theorem ancestor?_le (h : fs.Nested) {id : FrameId} {d : Nat} {holder : FrameId}
    (hd : fs.ancestor? id d = some holder) : holder + d ≤ id := by
  induction d generalizing id with
  | zero => exact Nat.le_of_eq (Option.some.inj hd).symm
  | succ d ih =>
    obtain ⟨around, haround, hrest⟩ := Option.bind_eq_some_iff.1 hd
    exact Nat.succ_le_of_lt (Nat.lt_of_le_of_lt (ih hrest) (h haround))

/-- The chain around a frame ends at some distance, and there is nothing beyond. -/
theorem exists_root (h : fs.Nested) (id : FrameId) :
    ∃ n ≤ id, ∀ d, fs.ancestor? id d = none ↔ n < d := by
  -- the frame around is older, so the induction is on the number of the frame
  induction id using Nat.strongRecOn with
  | ind id ih =>
    cases haround : fs.enclosing? id with
    | none =>
      refine ⟨0, Nat.zero_le _, fun d => ?_⟩
      cases d with
      | zero => simp [ancestor?]
      | succ d => simp [ancestor?, haround]
    | some around =>
      have hlt := h haround
      obtain ⟨n, hn, hroot⟩ := ih around hlt
      refine ⟨n + 1, Nat.succ_le_of_lt (Nat.lt_of_le_of_lt hn hlt), fun d => ?_⟩
      cases d with
      | zero => simp [ancestor?]
      | succ d => rw [ancestor?, haround, Option.bind_some, hroot, Nat.succ_lt_succ_iff]

end Nested

theorem Built.nested {fs : Frames} (h : fs.Built) : fs.Nested := by
  induction h with
  | empty => exact .empty
  | change c _ hc ih => exact ih.change hc

/-! ### The nearest frame -/

/-- The nearest frame that has the variable is `holder`, and it lies `d` steps out. -/
structure Nearest (fs : Frames) (id : FrameId) (name : String) (d : Nat) (holder : FrameId) : Prop where
  ancestor : fs.ancestor? id d = some holder
  has : fs.has holder name = true
  least : ∀ d' < d, ∀ nearer, fs.ancestor? id d' = some nearer → fs.has nearer name = false

section

variable {fs : Frames} {id holder : FrameId} {name : String} {d : Nat}

/-- The search finds the nearest frame, given steps enough to get there. -/
theorem Nearest.ownerWithin?_eq (h : fs.Nearest id name d holder) {steps : Nat} (hd : d ≤ steps) :
    fs.ownerWithin? name steps id = some holder := by
  obtain ⟨hancestor, hhas, hleast⟩ := h
  induction d generalizing id steps with
  | zero =>
    obtain rfl := Option.some.inj hancestor
    cases steps <;> simp [ownerWithin?, hhas]
  | succ d ih =>
    cases steps with
    | zero => cases hd
    | succ steps =>
      obtain ⟨around, haround, hrest⟩ := Option.bind_eq_some_iff.1 hancestor
      have hhere : fs.has id name = false := hleast 0 (Nat.zero_lt_succ d) id rfl
      have hleast' : ∀ d' < d, ∀ nearer, fs.ancestor? around d' = some nearer →
          fs.has nearer name = false := fun d' hd' nearer hnearer =>
        hleast (d' + 1) (Nat.succ_lt_succ hd') nearer (by rw [ancestor?, haround]; exact hnearer)
      rw [ownerWithin?, hhere, haround]
      exact ih (Nat.le_of_succ_le_succ hd) hrest hleast'

/-- The search finds nothing where no frame has the variable. -/
theorem ownerWithin?_eq_none
    (h : ∀ d around, fs.ancestor? id d = some around → fs.has around name = false) (steps : Nat) :
    fs.ownerWithin? name steps id = none := by
  have hhere : fs.has id name = false := h 0 id rfl
  induction steps generalizing id with
  | zero => simp [ownerWithin?, hhere]
  | succ steps ih =>
    rw [ownerWithin?, hhere]
    cases haround : fs.enclosing? id with
    | none => rfl
    | some around =>
      have hrest : ∀ d further, fs.ancestor? around d = some further → fs.has further name = false :=
        fun d further hfurther => h (d + 1) further (by rw [ancestor?, haround]; exact hfurther)
      exact ih hrest (hrest 0 around rfl)

end

/-- If some frame around it has the variable, then one is the nearest. -/
theorem exists_nearest {fs : Frames} {id holder : FrameId} {name : String} {d : Nat}
    (hd : fs.ancestor? id d = some holder) (hhas : fs.has holder name = true) :
    ∃ d nearest, fs.Nearest id name d nearest := by
  induction d using Nat.strongRecOn generalizing holder with
  | ind d ih =>
    by_cases hnearer : ∃ d' < d, ∃ nearer, fs.ancestor? id d' = some nearer ∧ fs.has nearer name = true
    · obtain ⟨d', hlt, nearer, hancestor, hhas'⟩ := hnearer
      exact ih d' hlt hancestor hhas'
    · refine ⟨d, holder, hd, hhas, fun d' hlt nearer hancestor => ?_⟩
      exact Bool.eq_false_iff.2 fun hhas' => hnearer ⟨d', hlt, nearer, hancestor, hhas'⟩

/-- As many steps as the number of the frame says suffice to search the whole chain. -/
theorem Nested.ownerWithin?_eq {fs : Frames} (h : fs.Nested) (name : String) {id : FrameId} {steps : Nat}
    (hsteps : id ≤ steps) : fs.ownerWithin? name steps id = fs.owner? id name := by
  by_cases hnone : ∀ d around, fs.ancestor? id d = some around → fs.has around name = false
  · rw [owner?, ownerWithin?_eq_none hnone, ownerWithin?_eq_none hnone]
  · obtain ⟨d, around, hancestor, hhas⟩ : ∃ d around, fs.ancestor? id d = some around ∧
        fs.has around name = true := by simpa using hnone
    obtain ⟨d, holder, hnearest⟩ := exists_nearest hancestor hhas
    have hd : d ≤ id := Nat.le_of_add_left_le (h.ancestor?_le hnearest.ancestor)
    rw [owner?, hnearest.ownerWithin?_eq hd, hnearest.ownerWithin?_eq (Nat.le_trans hd hsteps)]

/-- The search finds the nearest frame, which is the one at its distance. -/
theorem Nearest.found {fs : Frames} (hfs : fs.Nested) {id holder : FrameId} {name : String} {d : Nat}
    (h : fs.Nearest id name d holder) :
    fs.owner? id name = some holder ∧ fs.holder? id d name = some holder :=
  ⟨h.ownerWithin?_eq (Nat.le_of_add_left_le (hfs.ancestor?_le h.ancestor)),
    holder?_eq_some_iff.2 ⟨h.ancestor, h.has⟩⟩

/-! ### Single changes -/

/-- The frames differ in the value of one variable, which is there in both. -/
structure DifferAt (fs : Frames) (holder : FrameId) (name : String) (v : Value) (fs' : Frames) : Prop where
  next : fs'.next = fs.next
  enclosing? : ∀ id, fs'.enclosing? id = fs.enclosing? id
  before : fs.has holder name = true
  after : fs'.getHere? holder name = some v
  others : ∀ id n, ¬(id = holder ∧ n = name) → fs'.getHere? id n = fs.getHere? id n

/-- A variable that is there is changed, and nothing else. -/
theorem differAt_define {fs : Frames} {holder : FrameId} {name : String}
    (h : fs.has holder name = true) (v : Value) :
    fs.DifferAt holder name v (fs.define holder name v) where
  next := next_define ..
  enclosing? := enclosing?_define fs holder name v
  before := h
  after := by
    have hlt : holder < fs.next := Nat.lt_of_not_le fun hge => by
      have hnone : fs.list[holder]? = none := Array.getElem?_eq_none hge
      simp [has, getHere?, hnone] at h
    rw [getHere?_define, if_pos ⟨rfl, rfl, hlt⟩]
  others id n hne := by
    rw [getHere?_define, if_neg fun hall => hne ⟨hall.1, hall.2.1⟩]

end Frames

open FrameAccess in
/-- In frames that can be made, a variable that some frame around the given one has is read and assigned
at the least distance of such a frame as it is by the search: the same value is read, and the same frames
are left, with that one variable changed.  Where no frame around it has the variable, the search fails,
and so does every other access to it with the same error.  Steps out add up, and from some distance on
there is no frame any more.  What fails changes nothing. -/
theorem distance_agrees_with_search {fs : Frames} (hfs : fs.Built) (id : FrameId) (name : Token) :
    (∀ d holder, fs.Nearest id name.lexeme d holder →
      (∃ v, fs.getHere? holder name.lexeme = some v ∧ readNearest id name fs = .ok v fs ∧
        readAt id d name fs = .ok v fs) ∧
      ∀ v, ∃ fs', assignNearest id name v fs = .ok () fs' ∧ assignAt id d name v fs = .ok () fs' ∧
        fs.DifferAt holder name.lexeme v fs') ∧
    ((∀ d around, fs.ancestor? id d = some around → fs.has around name.lexeme = false) →
      readNearest id name fs = .error (undefined name) fs ∧
      ∀ v, assignNearest id name v fs = .error (undefined name) fs) ∧
    (∀ i j, fs.ancestor? id (i + j) = (fs.ancestor? id i).bind (fs.ancestor? · j)) ∧
    (∃ n ≤ id, ∀ d, fs.ancestor? id d = none ↔ n < d) ∧
    ∀ (e : RunError) (fs' : Frames) (d : Nat) (v : Value),
      (readNearest id name fs = .error e fs' ∨ readAt id d name fs = .error e fs' ∨
        assignNearest id name v fs = .error e fs' ∨ assignAt id d name v fs = .error e fs') →
      e = undefined name ∧ fs' = fs := by
  have hnested := hfs.nested
  refine ⟨fun d holder h => ?_, fun h => ?_, fs.ancestor?_add id, hnested.exists_root id,
    fun e fs' d v h => ?_⟩
  · obtain ⟨howner, hholder⟩ := h.found hnested
    refine ⟨?_, fun v => ⟨fs.define holder name.lexeme v, ?_, ?_, Frames.differAt_define h.has v⟩⟩
    · obtain ⟨v, hv⟩ := Frames.has_iff.1 h.has
      refine ⟨v, hv, ?_, ?_⟩
      · simp [readNearest, attempt, Frames.get?, howner, hv]
      · simp [readAt, attempt, Frames.getAt?, hholder, hv]
    · simp [assignNearest, attempt, Frames.assign?, howner]
    · simp [assignAt, attempt, Frames.assignAt?, hholder]
  · have howner : fs.owner? id name.lexeme = none := Frames.ownerWithin?_eq_none h id
    refine ⟨?_, fun v => ?_⟩
    · simp [readNearest, attempt, Frames.get?, howner]
    · simp [assignNearest, attempt, Frames.assign?, howner]
  · rcases h with h | h | h | h
    all_goals exact attempt_error h

open FrameAccess in
/-- A variable two frames out, in frames of which another one hides it where it is not looked for. -/
theorem hidden_beside_the_chain :
    let a : Token := ⟨.symbol .identifier, "a", 1⟩
    let fs := Frames.empty.change .new |>.change (.child 0) |>.change (.child 1) |>.change (.child 1)
      |>.change (.define 0 "a" .nil) |>.change (.define 3 "a" (.bool true))
    fs.Built ∧ fs.Nearest 2 a.lexeme 2 0 ∧
      (∃ v, fs.getHere? 0 a.lexeme = some v ∧ readNearest 2 a fs = .ok v fs ∧
        readAt 2 2 a fs = .ok v fs) ∧
      ∀ v, ∃ fs', assignNearest 2 a v fs = .ok () fs' ∧ assignAt 2 2 a v fs = .ok () fs' ∧
        fs.DifferAt 0 a.lexeme v fs' := by
  intro a fs
  have hbuilt : fs.Built := by
    refine .change _ (.change _ (.change _ (.change _ (.change _ (.change _ .empty trivial) ?_) ?_) ?_) ?_) ?_
    all_goals simp [FrameChange.Fits, Frames.change]
  have hnearest : fs.Nearest 2 a.lexeme 2 0 := by
    refine ⟨by decide, by decide, fun d hd nearer hnearer => ?_⟩
    obtain rfl | rfl : d = 0 ∨ d = 1 := by omega
    · obtain rfl := Option.some.inj hnearer
      decide
    · obtain rfl := Option.some.inj hnearer
      decide
  exact ⟨hbuilt, hnearest, (distance_agrees_with_search hbuilt 2 a).1 2 0 hnearest⟩

end LoxLang
