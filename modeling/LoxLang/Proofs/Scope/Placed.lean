import LoxLang.Proofs.Scope.Lockstep

/-!
# Placed runs

The steps of a run, taken one after another by the scope check from the visit of the whole program,
lead to the visit of whatever part the run has come to (`placed_during`).  The heap stays grounded
all along (`placed_invariant`), so that this goes on through calls of closures made long before.  What
else placed tasks keep of the heap is shown by way of `PlacedInvariant`.
-/

namespace LoxLang

open Scoping Evaluation

section

variable {visited : Visit → Prop}

/-- Placed tasks leave a grounded heap behind. -/
theorem placed_invariant (hclosed : VisitsClosed visited) (b : Bindings) :
    Invariant b (fun t m => ∃ v, Placed visited v t m) (Grounded visited) where
  heap := fun ⟨_, hp⟩ => hp.grounded
  part := by
    rintro t m step t' m' ⟨v, hp⟩ hstarts hG
    obtain ⟨w, -, hw⟩ := lockstep hclosed hp hstarts hG
    exact ⟨w, hw⟩
  addFrame := by
    rintro t m around vars ⟨_, hp⟩ -
    exact hp.grounded.grow (Frames.grow_push _ _)
  bindMethod _ hg _ := hg.grow (Frames.grow_push _ _)
  addInstance i hg := hg.addInstance i
  setField _ _ _ hg := ⟨hg.global, hg.functions, hg.methods⟩
  declare v _ hg := hg.grow (Frames.grow_define _ _ _ v)
  assign v _ hg _ := hg.grow (Frames.grow_define _ _ _ v)
  bound := by
    intro object name m i m' c _ _ hg hproperty
    obtain ⟨o, -, hc⟩ := method?_of_property? hproperty
    obtain ⟨hg', hbound⟩ := hg.bind (hg.methods hc) i
    exact hg'.addFunction hbound
  function := by
    rintro decl m ⟨⟨code, ctx, scopes⟩, hv, hg, rfl, hm⟩
    -- the function is grounded once its name is defined
    have hgrow := Frames.grow_define m.heap.frames m.scope decl.name.lexeme
      (.functionRef m.heap.functions.size)
    have hhas : (m.heap.frames.define m.scope decl.name.lexeme
        (.functionRef m.heap.functions.size)).has m.scope decl.name.lexeme = true := by
      rw [Frames.has, Frames.getHere?_define, if_pos ⟨rfl, rfl, hm.lt_next hg⟩]
      rfl
    exact (hg.grow hgrow).addFunction
      ⟨_, .function, hclosed.part hv List.mem_cons_self, rfl, (hm.grow hgrow).introduce hhas⟩
  classDecl := by
    rintro name ms m ⟨⟨code, ctx, scopes⟩, hv, hg, rfl, hm⟩
    have hgrow := Frames.grow_define m.heap.frames m.scope name.lexeme
      (.classRef m.heap.classes.size)
    have hhas : (m.heap.frames.define m.scope name.lexeme
        (.classRef m.heap.classes.size)).has m.scope name.lexeme = true := by
      rw [Frames.has, Frames.getHere?_define, if_pos ⟨rfl, rfl, hm.lt_next hg⟩]
      rfl
    refine (hg.grow hgrow).addClass fun n c hc => ?_
    obtain ⟨d, hd, heq⟩ := List.mem_map.1 (NameMap.mem_of_get?_ofList hc)
    obtain ⟨-, rfl⟩ := Prod.mk.inj heq
    have hmethod := Visit.method_of_methods hclosed.part (hclosed.part hv List.mem_cons_self) hd
    exact ⟨_, methodKind d, _, hmethod, rfl, rfl, (hm.grow hgrow).introduce hhas⟩

/-! ### More about placed tasks -/

/-- A placed task makes frames only around frames that are there. -/
theorem Placed.around_lt {v : Visit} {t : Task} {m : Machine} (hp : Placed visited v t m)
    {around : FrameId} (haround : t.around? m = some around) : around < m.heap.frames.next := by
  obtain ⟨-, hg, hfits⟩ := hp
  cases t with
  | apply c args =>
    obtain rfl := Option.some.inj haround
    obtain ⟨-, w, kind, -, -, hm⟩ := hfits
    exact hm.lt_next hg
  | exec s =>
    cases s with
    | block body => obtain rfl := Option.some.inj haround; exact hfits.2.lt_next hg
    | _ => cases haround
  | _ => cases haround

/-- What placed tasks need besides to start (`J`), and leave behind besides a grounded heap (`H`).  It is
enough to look at the changes of the heap: frames are made around frames that are there, statements give
values to the names that they declare, and assignments to variables that are there. -/
structure PlacedInvariant (visited : Visit → Prop) (b : Bindings) (J : Task → Machine → Prop)
    (H : Heap → Prop) : Prop where
  heap : ∀ {t m}, J t m → H m.heap
  part : ∀ {v t m step t' m'}, Placed visited v t m → J t m → Starts b t m step t' m' →
    H m'.heap → J t' m'
  addFrame : ∀ {h around} vars, H h → around < h.frames.next →
    H (h.addFrame ⟨vars, some around⟩).2
  addFunction : ∀ {h} c, H h → H (h.addFunction c).2
  addClass : ∀ {h} c, H h → H (h.addClass c).2
  addInstance : ∀ {h} i, H h → H (h.addInstance i).2
  setField : ∀ {h} i name x, H h → H (h.setField i name x)
  declare : ∀ {v s m h name} x, Placed visited v (.exec s) m → J (.exec s) m →
    s.declared? = some name → H h → H (h.define m.scope name.lexeme x)
  assign : ∀ {v id name value m h frame} x, Placed visited v (.eval (.assign id name value)) m →
    H h → h.frames.has frame name.lexeme = true → H (h.define frame name.lexeme x)

theorem PlacedInvariant.invariant (hclosed : VisitsClosed visited) {b : Bindings}
    {J : Task → Machine → Prop} {H : Heap → Prop} (inv : PlacedInvariant visited b J H) :
    Invariant b (fun t m => (∃ v, Placed visited v t m) ∧ J t m)
      (fun h => Grounded visited h ∧ H h) := by
  have hplaced := placed_invariant hclosed b
  -- a method is bound in a frame around which lies the one where its class was declared
  have hbind {h : Heap} {id : ClassId} {name : String} {c : Closure} (i : InstanceId)
      (hh : Grounded visited h ∧ H h) (hc : h.method? id name = some c) :
      Grounded visited (h.bind c i).2 ∧ H (h.bind c i).2 := by
    obtain ⟨w, kind, scopes, -, -, -, hm⟩ := hh.1.methods hc
    exact ⟨hplaced.bindMethod i hh.1 hc, inv.addFrame _ hh.2 (hm.lt_next hh.1)⟩
  exact {
    heap := fun h => ⟨hplaced.heap h.1, inv.heap h.2⟩
    part := by
      rintro t m step t' m' ⟨⟨v, hp⟩, hJ⟩ hstarts ⟨hg, hH⟩
      exact ⟨hplaced.part ⟨v, hp⟩ hstarts hg, inv.part hp hJ hstarts hH⟩
    addFrame := by
      rintro t m around vars ⟨⟨v, hp⟩, hJ⟩ haround
      exact ⟨hplaced.addFrame vars ⟨v, hp⟩ haround,
        inv.addFrame vars (inv.heap hJ) (hp.around_lt haround)⟩
    bindMethod := hbind
    addInstance := fun i h => ⟨hplaced.addInstance i h.1, inv.addInstance i h.2⟩
    setField := fun i name x h => ⟨hplaced.setField i name x h.1, inv.setField i name x h.2⟩
    declare := by
      rintro name value? m h x ⟨⟨v, hp⟩, hJ⟩ ⟨hg, hH⟩
      exact ⟨hplaced.declare x ⟨v, hp⟩ hg, inv.declare x hp hJ rfl hH⟩
    assign := by
      rintro id name value m h frame x ⟨⟨v, hp⟩, -⟩ ⟨hg, hH⟩ hhas
      exact ⟨hplaced.assign x ⟨v, hp⟩ hg hhas, inv.assign x hp hH hhas⟩
    bound := by
      intro object name m i m' c h ho hh hproperty
      obtain ⟨o, -, hc⟩ := method?_of_property? hproperty
      exact ⟨hplaced.bound h.1 ho hh.1 hproperty, inv.addFunction _ (hbind i hh hc).2⟩
    function := by
      rintro decl m ⟨⟨v, hp⟩, hJ⟩
      exact ⟨hplaced.function ⟨v, hp⟩, inv.declare _ hp hJ rfl (inv.addFunction _ (inv.heap hJ))⟩
    classDecl := by
      rintro name methods m ⟨⟨v, hp⟩, hJ⟩
      exact ⟨hplaced.classDecl ⟨v, hp⟩, inv.declare _ hp hJ rfl (inv.addClass _ (inv.heap hJ))⟩ }

/-! ### Visits at the end of a trail -/

/-- The visits that lie at the end of a trail: the steps of the run, taken by the scope check from the
visit of the whole program. -/
def VisitAt (visited : Visit → Prop) (root : Visit) : List Step → Visit → Prop
  | [], v => v = root
  | step :: trail, v => ∃ w, VisitAt visited root trail w ∧ Leads visited w step v

/-- Whatever starts during the run of a placed task is placed at the end of its trail. -/
theorem placed_during (hclosed : VisitsClosed visited) {b : Bindings} {root : Visit} {t t' : Task}
    {m m' : Machine} {trail : List Step} (hp : Placed visited root t m)
    (hduring : During b t m trail t' m') :
    ∃ v, VisitAt visited root trail v ∧ Placed visited v t' m' := by
  induction hduring with
  | start => exact ⟨root, rfl, hp⟩
  | part _ hstarts ih =>
    obtain ⟨v, htrail, hv⟩ := ih
    have hG := (placed_invariant hclosed b).heap_of_starts ⟨v, hv⟩ hstarts
    obtain ⟨w, hleads, hw⟩ := lockstep hclosed hv hstarts hG
    exact ⟨w, ⟨v, htrail, hleads⟩, hw⟩

/-- A trail leads to one visit, if a function is visited in one way. -/
theorem visitAt_unique {root : Visit}
    (hunique : ∀ w w', visited w → visited w' → ∀ id, id ∈ w.code.own → id ∈ w'.code.own → w = w')
    {trail : List Step} {v v' : Visit} (h : VisitAt visited root trail v)
    (h' : VisitAt visited root trail v') : v = v' := by
  induction trail generalizing v v' with
  | nil => exact h.trans h'.symm
  | cons step trail ih =>
    obtain ⟨w, htrail, hleads⟩ := h
    obtain ⟨w', htrail', hleads'⟩ := h'
    obtain rfl := ih htrail htrail'
    cases step with
    | part i => exact Option.some.inj (hleads.symm.trans hleads')
    | same | call => exact hleads.trans hleads'.symm
    | body label =>
      obtain ⟨hv, kind, decl, hcode, hlabel⟩ := hleads
      obtain ⟨hv', kind', decl', hcode', hlabel'⟩ := hleads'
      exact hunique v v' hv hv' label (by simp [hcode, Code.own, hlabel])
        (by simp [hcode', Code.own, hlabel'])

end

end LoxLang
