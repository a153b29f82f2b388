import LoxLang.Proofs.Alike.Tree
import LoxLang.Proofs.Scope.Mirror

/-!
# Twin machines

Two machines are twins if their closures have alike declarations and they differ in nothing else but
the names of marked variables: which frames are marked is told by a `World`, and in a marked frame the
second machine has the new name where the first one has the old one.  The frames of a closure are marked
as the scopes around its declaration are (`Chain`).

Making things and changing variables in both machines alike keeps them twins; frames that are made go
to a later world (`World.mark`).
-/

namespace LoxLang

/-- Which frames stand for a marked scope. -/
abbrev World := FrameId → Bool

/-- The world with one frame marked or not. -/
def World.mark (w : World) (id : FrameId) (marked : Bool) : World :=
  fun other => if other = id then marked else w other

section

variable {old new : String}

/-! ### Maps from names -/

namespace NameMap

variable {α β : Type}

/-- Insertions under names that correspond keep what two maps have under corresponding names. -/
theorem rel_insert {K : String → String → Prop} {R : α → β → Prop}
    (hK : ∀ n n' k k', K n n' → K k k' → (k' = n' ↔ k = n)) {m : NameMap α} {m' : NameMap β}
    (hm : ∀ k k', K k k' → Option.Rel R (m.get? k) (m'.get? k')) {n n' : String} {a : α} {a' : β}
    (hn : K n n') (ha : R a a') {k k' : String} (hk : K k k') :
    Option.Rel R ((m.insert n a).get? k) ((m'.insert n' a').get? k') := by
  rw [get?_insert, get?_insert]
  by_cases h : k = n
  · rw [if_pos h, if_pos ((hK n n' k k' hn hk).2 h)]
    exact .some ha
  · rw [if_neg h, if_neg (mt (hK n n' k k' hn hk).1 h)]
    exact hm k k' hk

theorem rel_insertAll {K : String → String → Prop} {R : α → β → Prop}
    (hK : ∀ n n' k k', K n n' → K k k' → (k' = n' ↔ k = n)) {entries : List (String × α)}
    {entries' : List (String × β)}
    (h : List.Forall₂ (fun e e' => K e.1 e'.1 ∧ R e.2 e'.2) entries entries') {m : NameMap α}
    {m' : NameMap β} (hm : ∀ k k', K k k' → Option.Rel R (m.get? k) (m'.get? k')) {k k' : String}
    (hk : K k k') :
    Option.Rel R ((entries.foldl (fun m (name, value) => m.insert name value) m).get? k)
      ((entries'.foldl (fun m (name, value) => m.insert name value) m').get? k') := by
  induction h generalizing m m' with
  | nil => exact hm k k' hk
  | cons he _ ih => exact ih fun k k' hk => rel_insert hK hm he.1 he.2 hk

theorem rel_ofList {K : String → String → Prop} {R : α → β → Prop}
    (hK : ∀ n n' k k', K n n' → K k k' → (k' = n' ↔ k = n)) {entries : List (String × α)}
    {entries' : List (String × β)}
    (h : List.Forall₂ (fun e e' => K e.1 e'.1 ∧ R e.2 e'.2) entries entries') {k k' : String}
    (hk : K k k') : Option.Rel R ((ofList entries).get? k) ((ofList entries').get? k') :=
  rel_insertAll hK h (fun _ _ _ => .none) hk

end NameMap

/-! ### Frames -/

/-- In marked frames the second has the variable `new` where the first has `old`. -/
structure Frames.Twin (old new : String) (w : World) (fs fs' : Frames) : Prop where
  next : fs'.next = fs.next
  enclosing : ∀ id, fs'.enclosing? id = fs.enclosing? id
  here : ∀ {id n n'}, RenamedIf old new (w id) n n' → fs'.getHere? id n' = fs.getHere? id n

namespace Frames.Twin

variable {w : World} {fs fs' : Frames}

/-- Nothing is marked. -/
theorem refl (fs : Frames) : fs.Twin old new (fun _ => false) fs where
  next := rfl
  enclosing _ := rfl
  here := by
    intro id n n' hn
    rw [show n' = n from hn.1]

theorem has (h : fs.Twin old new w fs') {id : FrameId} {n n' : String}
    (hn : RenamedIf old new (w id) n n') : fs'.has id n' = fs.has id n := by
  rw [Frames.has, Frames.has, h.here hn]

theorem ancestor (h : fs.Twin old new w fs') (id : FrameId) (distance : Nat) :
    fs'.ancestor? id distance = fs.ancestor? id distance := by
  induction distance generalizing id with
  | zero => rfl
  | succ distance ih =>
    rw [Frames.ancestor?, Frames.ancestor?, h.enclosing]
    exact congrArg _ (funext ih)

/-- A variable is found in the same frame, if that frame calls it so. -/
theorem holder (h : fs.Twin old new w fs') {id : FrameId} {distance : Nat} {n n' : String}
    (hn : ∀ a, fs.ancestor? id distance = some a → RenamedIf old new (w a) n n') :
    fs'.holder? id distance n' = fs.holder? id distance n := by
  rw [Frames.holder?, Frames.holder?, h.ancestor]
  cases ha : fs.ancestor? id distance with
  | none => rfl
  | some a => simp [Option.filter, h.has (hn a ha)]

theorem define (h : fs.Twin old new w fs') {id : FrameId} {n n' : String}
    (hn : RenamedIf old new (w id) n n') (v : Value) :
    (fs.define id n v).Twin old new w (fs'.define id n' v) where
  next := by rw [Frames.next_define, Frames.next_define, h.next]
  enclosing other := by rw [Frames.enclosing?_define, Frames.enclosing?_define, h.enclosing]
  here := by
    intro other k k' hk
    rw [Frames.getHere?_define, Frames.getHere?_define, h.next, h.here hk]
    by_cases hother : other = id
    · subst hother
      simp only [hn.eq_iff hk]
    · simp [hother]

theorem push (h : fs.Twin old new w fs') {marked : Bool} {vars vars' : NameMap Value}
    (hvars : ∀ n n', RenamedIf old new marked n n' → vars'.get? n' = vars.get? n)
    (around? : Option FrameId) :
    (fs.push ⟨vars, around?⟩).Twin old new (w.mark fs.next marked) (fs'.push ⟨vars', around?⟩) where
  next := by rw [Frames.next_push, Frames.next_push, h.next]
  enclosing other := by rw [Frames.enclosing?_push, Frames.enclosing?_push, h.next, h.enclosing]
  here := by
    intro id n n' hn
    rw [Frames.getHere?_push, Frames.getHere?_push, h.next]
    rw [World.mark] at hn
    by_cases hid : id = fs.next
    · rw [if_pos hid] at hn ⊢
      rw [if_pos hid]
      exact hvars n n' hn
    · rw [if_neg hid] at hn ⊢
      rw [if_neg hid]
      exact h.here hn

end Frames.Twin

/-! ### Chains -/

/-- Frames from the given one outwards are marked as told, up to the global frame. -/
def Chain (w : World) (fs : Frames) : List Bool → FrameId → Prop
  | [], id => id = globalFrame
  | mark :: marks, id => w id = mark ∧ ∃ around, fs.enclosing? id = some around ∧ Chain w fs marks around

namespace Chain

variable {w w' : World} {fs fs' : Frames} {marks : List Bool} {id : FrameId}

theorem grow (h : Chain w fs marks id) (hgrow : fs.Grow fs')
    (hmarks : ∀ id < fs.next, w' id = w id) : Chain w' fs' marks id := by
  induction marks generalizing id with
  | nil => exact h
  | cons mark marks ih =>
    obtain ⟨hmark, around, henclosing, h⟩ := h
    have hlt := Frames.lt_of_enclosing? henclosing
    exact ⟨(hmarks id hlt).trans hmark, around, hgrow.enclosing henclosing, ih h⟩

/-- The marks tell which of the frames further out are marked. -/
theorem ancestor (h : Chain w fs marks id) (hglobal : w globalFrame = false)
    (hlast : fs.enclosing? globalFrame = none) {distance : Nat} {a : FrameId}
    (ha : fs.ancestor? id distance = some a) : w a = (marks[distance]? == some true) := by
  induction marks generalizing id distance with
  | nil =>
    obtain rfl := h
    cases distance with
    | zero => cases ha; simp [hglobal]
    | succ distance => simp [Frames.ancestor?, hlast] at ha
  | cons mark marks ih =>
    obtain ⟨hmark, around, henclosing, h⟩ := h
    cases distance with
    | zero =>
      cases ha
      cases mark <;> simp [hmark]
    | succ distance =>
      rw [Frames.ancestor?, henclosing] at ha
      exact ih h ha

theorem head (h : Chain w fs marks id) (hglobal : w globalFrame = false) :
    w id = (marks.head? == some true) := by
  cases marks with
  | nil => rw [show id = globalFrame from h, hglobal]; rfl
  | cons mark marks => cases mark <;> simp [h.1]

/-- Frames without marks. -/
theorem of_mirrors {scopes : Scoping.Scopes} (h : Mirrors fs scopes id) :
    Chain (fun _ => false) fs (scopes.map fun _ => false) id := by
  induction scopes generalizing id with
  | nil => exact h
  | cons scope outer ih =>
    obtain ⟨-, -, around, henclosing, h⟩ := h
    exact ⟨rfl, around, henclosing, ih h⟩

end Chain

/-! ### Heaps -/

section

variable (d : Difference) (w : World) (fs : Frames)

/-- The declarations are alike in the scopes around the frame of both closures; `inner` are the marks
of scopes in between. -/
def TwinClosure (inner : List Bool) (c c' : Closure) : Prop :=
  c'.frame = c.frame ∧ c'.isInitializer = c.isInitializer ∧
    ∃ marks, Chain w fs marks c.frame ∧ Stmt.AlikeFunction d (inner ++ marks) c.decl c'.decl

/-- The methods are twins one by one, inside of the scope of `this`. -/
def TwinClass (k k' : Class) : Prop :=
  k'.name = k.name ∧
    ∀ name, Option.Rel (TwinClosure d w fs [false]) (k.methods.get? name)
      (k'.methods.get? name)

/-- The fields are the same, and the methods are twins. -/
def TwinProperty : Property → Property → Prop
  | .field v, .field v' => v' = v
  | .method c, .method c' => TwinClosure d w fs [false] c c'
  | _, _ => False

end

/-- Two arrays are related place by place. -/
def Pairwise₂ {α : Type} (Rel : α → α → Prop) (as as' : Array α) : Prop :=
  as'.size = as.size ∧ ∀ i : Nat, Option.Rel Rel as[i]? as'[i]?

theorem Pairwise₂.push {α : Type} {Rel : α → α → Prop} {as as' : Array α}
    (h : Pairwise₂ Rel as as') {a a' : α} (ha : Rel a a') :
    Pairwise₂ Rel (as.push a) (as'.push a') := by
  refine ⟨by rw [Array.size_push, Array.size_push, h.1], fun i => ?_⟩
  rw [Array.getElem?_push, Array.getElem?_push, h.1]
  split_ifs
  · exact .some ha
  · exact h.2 i

theorem Option.Rel.imp {α β : Type} {Rel Rel' : α → β → Prop} (h : ∀ a b, Rel a b → Rel' a b)
    {a? : Option α} {b? : Option β} (hrel : Option.Rel Rel a? b?) : Option.Rel Rel' a? b? := by
  cases hrel with
  | none => exact .none
  | some hab => exact .some (h _ _ hab)

theorem Pairwise₂.imp {α : Type} {Rel Rel' : α → α → Prop} (h : ∀ a a', Rel a a' → Rel' a a')
    {as as' : Array α} (has : Pairwise₂ Rel as as') : Pairwise₂ Rel' as as' :=
  ⟨has.1, fun i => Option.Rel.imp h (has.2 i)⟩

/-- The heaps differ in the declarations of their closures, and in the names of marked variables. -/
structure Heap.Twin (d : Difference) (w : World) (h h' : Heap) : Prop where
  frames : h.frames.Twin d.old d.new w h'.frames
  global : globalFrame < h.frames.next
  globalMark : w globalFrame = false
  globalLast : h.frames.enclosing? globalFrame = none
  functions : Pairwise₂ (TwinClosure d w h.frames []) h.functions h'.functions
  classes : Pairwise₂ (TwinClass d w h.frames) h.classes h'.classes
  instances : h'.instances = h.instances

section

variable {d : Difference} {w w' : World} {fs fs' : Frames}

theorem TwinClosure.grow {inner : List Bool} {c c' : Closure}
    (h : TwinClosure d w fs inner c c') (hgrow : fs.Grow fs')
    (hmarks : ∀ id < fs.next, w' id = w id) : TwinClosure d w' fs' inner c c' := by
  obtain ⟨hframe, hinit, marks, hchain, halike⟩ := h
  exact ⟨hframe, hinit, marks, hchain.grow hgrow hmarks, halike⟩

theorem TwinClass.grow {k k' : Class} (h : TwinClass d w fs k k') (hgrow : fs.Grow fs')
    (hmarks : ∀ id < fs.next, w' id = w id) : TwinClass d w' fs' k k' :=
  ⟨h.1, fun name => Option.Rel.imp (fun _ _ hc => hc.grow hgrow hmarks) (h.2 name)⟩

/-- The methods of alike declarations are twins. -/
theorem twin_methods {marks : List Bool} {frame : FrameId} (hc : Chain w fs marks frame)
    {ms ms' : List (Function NodeId)} (h : Stmt.AlikeFunctions d (false :: marks) ms ms')
    (name : String) :
    Option.Rel (TwinClosure d w fs [false])
      ((NameMap.ofList (ms.map fun m =>
        (m.name.lexeme, (⟨m, frame, m.isInitializer⟩ : Closure)))).get? name)
      ((NameMap.ofList (ms'.map fun m =>
        (m.name.lexeme, (⟨m, frame, m.isInitializer⟩ : Closure)))).get? name) := by
  refine NameMap.rel_ofList (K := Eq) ?_ ?_ rfl
  · rintro n _ k _ rfl rfl
    rfl
  · induction ms generalizing ms' with
    | nil => cases h; exact .nil
    | cons m ms ih =>
      cases h with
      | cons hm hms =>
        exact .cons ⟨hm.name.lexeme.symm, rfl, hm.isInitializer, marks, hc, hm⟩ (ih hms)

/-- The variables of a call have the same values under corresponding names. -/
theorem twin_parameters {mark : Bool} {ps ps' : List Token}
    (h : List.Forall₂ (Token.Alike d mark) ps ps') (args : List Value) {n n' : String}
    (hn : RenamedIf d.old d.new mark n n') :
    (NameMap.ofList ((ps'.map (·.lexeme)).zip args)).get? n' =
      (NameMap.ofList ((ps.map (·.lexeme)).zip args)).get? n := by
  have hzip : List.Forall₂ (fun e e' => RenamedIf d.old d.new mark e.1 e'.1 ∧ e'.2 = e.2)
      ((ps.map (·.lexeme)).zip args) ((ps'.map (·.lexeme)).zip args) := by
    induction h generalizing args with
    | nil => exact .nil
    | cons hp _ ih =>
      cases args with
      | nil => exact .nil
      | cons a args => exact .cons ⟨hp.name, rfl⟩ (ih args)
  have hrel := NameMap.rel_ofList (R := fun v v' => v' = v) (fun _ _ _ _ => RenamedIf.eq_iff) hzip hn
  generalize (NameMap.ofList ((ps.map (·.lexeme)).zip args)).get? n = v?,
    (NameMap.ofList ((ps'.map (·.lexeme)).zip args)).get? n' = v'? at hrel
  cases hrel with
  | none => rfl
  | some hv => rw [hv]

namespace Heap.Twin

variable {h h' : Heap}

/-- A change of the frames alone, on the way to a later world. -/
theorem grow (ht : h.Twin d w h') (hgrow : h.frames.Grow fs)
    (hmarks : ∀ id < h.frames.next, w' id = w id) (hframes : fs.Twin d.old d.new w' fs')
    (hlast : fs.enclosing? globalFrame = none) :
    Twin d w' { h with frames := fs } { h' with frames := fs' } where
  frames := hframes
  global := Nat.lt_of_lt_of_le ht.global hgrow.next
  globalMark := (hmarks _ ht.global).trans ht.globalMark
  globalLast := hlast
  functions := ht.functions.imp fun _ _ hc => hc.grow hgrow hmarks
  classes := ht.classes.imp fun _ _ hk => hk.grow hgrow hmarks
  instances := ht.instances

theorem define (ht : h.Twin d w h') {frame : FrameId} {n n' : String}
    (hn : RenamedIf d.old d.new (w frame) n n') (v : Value) :
    (h.define frame n v).Twin d w (h'.define frame n' v) :=
  ht.grow (Frames.grow_define _ frame n v) (fun _ _ => rfl) (ht.frames.define hn v)
    (by rw [Frames.enclosing?_define, ht.globalLast])

theorem addFrame (ht : h.Twin d w h') {marked : Bool} {vars vars' : NameMap Value}
    (hvars : ∀ n n', RenamedIf d.old d.new marked n n' → vars'.get? n' = vars.get? n)
    (around : FrameId) :
    (h.addFrame ⟨vars, some around⟩).2.Twin d (w.mark h.frames.next marked)
      (h'.addFrame ⟨vars', some around⟩).2 := by
  refine ht.grow (Frames.grow_push _ _) (fun id hid => ?_) (ht.frames.push hvars _) ?_
  · rw [World.mark, if_neg (Nat.ne_of_lt hid)]
  · rw [Frames.enclosing?_push, if_neg (Nat.ne_of_lt ht.global), ht.globalLast]

theorem addFunction (ht : h.Twin d w h') {c c' : Closure}
    (hc : TwinClosure d w h.frames [] c c') :
    (h.addFunction c).2.Twin d w (h'.addFunction c').2 :=
  { ht with functions := ht.functions.push hc }

theorem addClass (ht : h.Twin d w h') {k k' : Class}
    (hk : TwinClass d w h.frames k k') :
    (h.addClass k).2.Twin d w (h'.addClass k').2 :=
  { ht with classes := ht.classes.push hk }

theorem addInstance (ht : h.Twin d w h') (i : Instance) :
    (h.addInstance i).2.Twin d w (h'.addInstance i).2 :=
  { ht with instances := by rw [Heap.addInstance, Heap.addInstance, ht.instances] }

theorem setField (ht : h.Twin d w h') (i : InstanceId) (name : String) (v : Value) :
    (h.setField i name v).Twin d w (h'.setField i name v) :=
  { ht with instances := by rw [Heap.setField, Heap.setField, ht.instances] }

/-- The bound methods are twins. -/
theorem bind (ht : h.Twin d w h') {c c' : Closure}
    (hc : TwinClosure d w h.frames [false] c c') (i : InstanceId) :
    (h.bind c i).2.Twin d (w.mark h.frames.next false) (h'.bind c' i).2 ∧
      TwinClosure d (w.mark h.frames.next false) (h.bind c i).2.frames []
        (h.bind c i).1 (h'.bind c' i).1 := by
  obtain ⟨hframe, hinit, marks, hchain, halike⟩ := hc
  have hvars (n n' : String) (hn : RenamedIf d.old d.new false n n') :
      (NameMap.empty.insert thisName (Value.instanceRef i)).get? n' =
        (NameMap.empty.insert thisName (Value.instanceRef i)).get? n := by
    rw [show n' = n from hn.1]
  refine ⟨?_, ht.frames.next, hinit, false :: marks, ⟨?_, c.frame, ?_, ?_⟩, halike⟩
  · rw [Heap.bind, Heap.bind, hframe]
    exact ht.addFrame hvars c.frame
  · exact if_pos rfl
  · exact (Frames.enclosing?_push _ _ _).trans (if_pos rfl)
  · exact hchain.grow (Frames.grow_push _ _) fun id hid => if_neg (Nat.ne_of_lt hid)

theorem method? (ht : h.Twin d w h') (id : ClassId) (name : String) :
    Option.Rel (TwinClosure d w h.frames [false]) (h.method? id name)
      (h'.method? id name) := by
  have hclass := ht.classes.2 id
  rw [Heap.method?, Heap.method?]
  generalize h.classes[id]? = k?, h'.classes[id]? = k'? at hclass
  cases hclass with
  | none => exact .none
  | some hk => exact hk.2 name

theorem property? (ht : h.Twin d w h') (i : InstanceId) (name : String) :
    Option.Rel (TwinProperty d w h.frames) (h.property? i name) (h'.property? i name) := by
  rw [Heap.property?, Heap.property?, ht.instances]
  cases h.instances[i]? with
  | none => exact .none
  | some o =>
    simp only [Option.bind_some]
    cases o.fields.get? name with
    | some v => exact .some rfl
    | none =>
      have hmethod := ht.method? o.classId name
      generalize h.method? o.classId name = c?, h'.method? o.classId name = c'? at hmethod
      cases hmethod with
      | none => exact .none
      | some hc => exact .some hc

/-- Values have the same texts. -/
theorem display (ht : h.Twin d w h') (v : Value) : h'.display v = h.display v := by
  have hclass (id : ClassId) : h'.className id = h.className id := by
    have hk := ht.classes.2 id
    rw [Heap.className, Heap.className]
    generalize h.classes[id]? = k?, h'.classes[id]? = k'? at hk
    cases hk with
    | none => rfl
    | some hk => exact hk.1
  cases v with
  | functionRef id =>
    have hc := ht.functions.2 id
    simp only [Heap.display, Heap.functionName]
    generalize h.functions[id]? = c?, h'.functions[id]? = c'? at hc
    cases hc with
    | none => rfl
    | some hc =>
      obtain ⟨-, -, marks, -, halike⟩ := hc
      simp [halike.name.lexeme]
  | classRef id => simp only [Heap.display, hclass]
  | instanceRef id => simp only [Heap.display, ht.instances, hclass]
  | _ => rfl

end Heap.Twin

/-- The machines have the same state, but for what their heaps may differ in. -/
structure Machine.Twin (d : Difference) (w : World) (m m' : Machine) : Prop where
  heap : m.heap.Twin d w m'.heap
  scope : m'.scope = m.scope
  depth : m'.depth = m.depth
  sink : m'.sink = m.sink
  clock : m'.clock = m.clock

/-- The global variables are the same. -/
theorem Machine.Twin.global {d : Difference} {w : World} {m m' : Machine} (h : m.Twin d w m')
    (name : String) :
    m'.heap.frames.getHere? globalFrame name = m.heap.frames.getHere? globalFrame name :=
  h.heap.frames.here (by rw [h.heap.globalMark]; exact .unmarked name)

/-! ### Further differences -/

section

variable {d d₁ : Difference} {w : World} {fs : Frames}

theorem TwinClosure.mono (hd : d.Within d₁) {inner : List Bool} {c c' : Closure}
    (h : TwinClosure d w fs inner c c') : TwinClosure d₁ w fs inner c c' := by
  obtain ⟨hframe, hinit, marks, hchain, halike⟩ := h
  exact ⟨hframe, hinit, marks, hchain, halike.mono hd⟩

theorem TwinClass.mono (hd : d.Within d₁) {k k' : Class} (h : TwinClass d w fs k k') :
    TwinClass d₁ w fs k k' :=
  ⟨h.1, fun name => Option.Rel.imp (fun _ _ hc => hc.mono hd) (h.2 name)⟩

theorem Heap.Twin.mono (hd : d.Within d₁) {h h' : Heap} (ht : h.Twin d w h') : h.Twin d₁ w h' where
  frames := by rw [hd.old, hd.new]; exact ht.frames
  global := ht.global
  globalMark := ht.globalMark
  globalLast := ht.globalLast
  functions := ht.functions.imp fun _ _ hc => hc.mono hd
  classes := ht.classes.imp fun _ _ hk => hk.mono hd
  instances := ht.instances

theorem Machine.Twin.mono (hd : d.Within d₁) {m m' : Machine} (ht : m.Twin d w m') :
    m.Twin d₁ w m' := { ht with heap := ht.heap.mono hd }

end

end

end

end LoxLang
