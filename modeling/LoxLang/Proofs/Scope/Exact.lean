import LoxLang.Proofs.Scope.Names

/-!
# Frames that have no other names

`Mirrors` says that a frame has every name that is complete in its scope.  Here is the converse, for the
innermost scope: at each moment of a run, the frame that runs has no name but those that are complete in
the scope (`exact_during`).  A variable is therefore not there as long as its initializer runs.
-/

namespace LoxLang

open Scoping Evaluation

/-- The frame has no name but those that are complete in the innermost scope. -/
def OnlyComplete (fs : Frames) : Scopes → FrameId → Prop
  | [], _ => True
  | scope :: _, frame => ∀ name, fs.has frame name = true → scope.get? name = some true

namespace OnlyComplete

variable {fs fs' : Frames} {scopes : Scopes} {frame : FrameId}

theorem of_has (h : OnlyComplete fs scopes frame)
    (hhas : ∀ name, fs'.has frame name = true → fs.has frame name = true) :
    OnlyComplete fs' scopes frame := by
  cases scopes with
  | nil => trivial
  | cons scope outer => exact fun name hname => h name (hhas name hname)

/-- A name whose declaration begins is none that the frame has. -/
theorem declare (h : OnlyComplete fs scopes frame) (name : Token) :
    OnlyComplete fs (Pass.declare name scopes).1 frame := by
  cases scopes with
  | nil => trivial
  | cons scope outer =>
    rw [Pass.declare]
    split_ifs with hscope
    · exact h
    · intro n hn
      rw [NameMap.get?_insert, if_neg]
      · exact h n hn
      · rintro rfl
        exact hscope (NameMap.contains_iff.2 ⟨true, h _ hn⟩)

/-- The frame may gain the name that the scope gains. -/
theorem declaring (h : OnlyComplete fs scopes frame) {name? : Option Token}
    (hhas : ∀ name, fs'.has frame name = true →
      fs.has frame name = true ∨ ∃ token, name? = some token ∧ token.lexeme = name) :
    OnlyComplete fs' (Scoping.declaring name? scopes) frame := by
  cases name? with
  | none => exact h.of_has fun name hname => (hhas name hname).resolve_right nofun
  | some token =>
    cases scopes with
    | nil => trivial
    | cons scope outer =>
      obtain ⟨scope', hscope', hget⟩ := Pass.introduce_cons token scope outer
      rw [Scoping.declaring, hscope']
      intro name hname
      rw [hget]
      split_ifs with heq
      · rfl
      · rcases hhas name hname with hold | ⟨_, ⟨⟩, hnew⟩
        · exact h name hold
        · exact absurd hnew.symm heq

/-- A new frame with the given variables. -/
theorem push {vars : NameMap Value} {enclosing? : Option FrameId} {scope : Scope} {outer : Scopes}
    (h : ∀ name, vars.contains name = true → scope.get? name = some true) :
    OnlyComplete (fs.push ⟨vars, enclosing?⟩) (scope :: outer) fs.next := by
  intro name hname
  rw [Frames.has, Frames.getHere?_push, if_pos rfl] at hname
  exact h name hname

end OnlyComplete

/-- The frame in which the task runs has no name but those that are complete in the innermost scope of
the visit.  A call has no frame of its own until a body runs. -/
def Exact (v : Visit) : Task → Machine → Prop
  | .eval _, m | .evalEach _, m | .exec _, m | .loop _ _, m | .execEach _, m =>
    OnlyComplete m.heap.frames v.scopes m.scope
  | .execBlock frame _, m => ∀ w ∈ v.parts, OnlyComplete m.heap.frames w.scopes frame
  | .call _ _ _, _ | .dispatch _ _ _, _ | .apply _ _, _ => True

section

variable {visited : Visit → Prop} {b : Bindings} {m m' : Machine}

/-- The parameters are the names of the frame of a call. -/
theorem only_parameters {fs : Frames} {scopes : Scopes} {enclosing? : Option FrameId}
    (decl : Function NodeId) (args : List Value) :
    OnlyComplete (fs.push ⟨parameterVars decl args, enclosing?⟩)
      (Pass.each Pass.introduce decl.params (∅ :: scopes)).1 fs.next := by
  obtain ⟨scope, hscope, hget⟩ := Pass.introduces_cons decl.params ∅ scopes
  rw [hscope]
  refine .push fun name hname => ?_
  obtain ⟨value, hvalue⟩ := NameMap.contains_iff.1 hname
  rw [hget, if_pos (List.of_mem_zip (NameMap.mem_of_get?_ofList hvalue)).1]

/-- An expression declares nothing in the frame in which it is evaluated. -/
theorem OnlyComplete.after_eval (hclosed : VisitsClosed visited) {v : Visit} {e : Expr NodeId}
    {x : Value} {scopes : Scopes} (hp : Placed visited v (.eval e) m)
    (he : Returns (eval b · e) m x m') (h : OnlyComplete m.heap.frames scopes m.scope) :
    OnlyComplete m'.heap.frames scopes m'.scope := by
  rw [scope_of_eval he]
  exact h.of_has fun name hname => hp.has_of_eval hclosed (hp.fits.2.lt_next hp.grounded) hname he

/-- A step of a run from an exact task leads to an exact one. -/
theorem exact_step (hclosed : VisitsClosed visited)
    (hunique : ∀ w w', visited w → visited w' → ∀ id, id ∈ w.code.own → id ∈ w'.code.own →
      w = w')
    {v w : Visit} {t t' : Task} {step : Step} (hp : Placed visited v t m) (he : Exact v t m)
    (hstarts : Starts b t m step t' m') (hleads : Leads visited v step w) : Exact w t' m' := by
  have hfits := hp.fits
  -- a part that starts in the same frame with the same scopes, when nothing has been declared
  have same (hm : Mirrors m.heap.frames v.scopes m.scope)
      (he : OnlyComplete m.heap.frames v.scopes m.scope) (hscopes : w.scopes = v.scopes)
      (hquiet : t.Quiet) : OnlyComplete m'.heap.frames w.scopes m'.scope := by
    have ht := hquiet.ne_execBlock
    rw [hscopes, hstarts.scope ht]
    exact he.of_has fun name hname =>
      (hp.has_starts hclosed (hm.lt_next hp.grounded) hname ht hstarts).resolve_right
        fun hdeclares => hquiet.not_declares name hdeclares.2
  obtain ⟨code, ctx, scopes⟩ := v
  cases hstarts with
  | group | unary | binaryLeft | logicalLeft | assigned | callee | object | setValue | first
    | loopCondition =>
    obtain ⟨rfl, hm⟩ := hfits
    obtain rfl := Option.some.inj hleads
    exact same hm he rfl trivial
  | expression | printed | condition | elseCondition | returned =>
    obtain ⟨rfl, hm⟩ := hfits
    obtain rfl := Option.some.inj hleads
    exact same hm he rfl rfl
  | binaryRight | logicalRight | arguments | setObject | others | loopBody =>
    obtain ⟨rfl, hm⟩ := hfits
    obtain rfl := Option.some.inj hleads
    exact same hm he (scopes_expr _ _ _) trivial
  | branch | thenBranch =>
    obtain ⟨rfl, hm⟩ := hfits
    obtain rfl := Option.some.inj hleads
    exact same hm he (scopes_expr _ _ _) rfl
  -- the branch before it declares nothing, so its visit has left the scopes
  | elseBranch =>
    obtain ⟨rfl, hm⟩ := hfits
    have hproper := hclosed.proper hp.mem
    have hscopes := scopes_stmt hproper.2.2.1 ctx scopes
    rw [hproper.2.1, declaring] at hscopes
    obtain rfl := Option.some.inj hleads
    exact same hm he (by simpa [Code.pass] using hscopes) rfl
  | called | entered | function | initializer => trivial
  -- the label says which function was visited, and so what the parameters are
  | functionBody hframe =>
    cases hframe
    obtain ⟨-, w', kind', hw', hcode', -⟩ := hfits
    obtain ⟨hw, kind, decl, hcode, hlabel⟩ := hleads
    obtain rfl := hunique w w' hw hw' decl.label (by simp [hcode, Code.own])
      (by simp [hcode', Code.own, hlabel])
    obtain ⟨code, ctx, scopes⟩ := w
    obtain rfl := hcode'
    intro u hu
    obtain rfl := List.mem_singleton.1 hu
    exact only_parameters _ _
  | varInitializer =>
    obtain ⟨rfl, hm⟩ := hfits
    obtain rfl := Option.some.inj hleads
    exact OnlyComplete.declare he _
  | block hframe =>
    cases hframe
    obtain ⟨rfl, hm⟩ := hfits
    obtain rfl := hleads
    intro u hu
    obtain rfl := List.mem_singleton.1 hu
    exact .push fun _ h => by cases h
  | whileLoop =>
    obtain rfl := hleads
    exact he
  | again =>
    obtain rfl := hleads
    exact same hfits.2 he rfl trivial
  | statements => exact he w (List.mem_of_getElem? hleads)
  | firstStatement =>
    obtain ⟨rfl, hm⟩ := hfits
    obtain rfl := Option.some.inj hleads
    exact he
  -- the frame has gained the name that the statement declares, as has its scope
  | otherStatements hs =>
    obtain ⟨rfl, hm⟩ := hfits
    obtain rfl := Option.some.inj hleads
    obtain ⟨_, hfirst⟩ := (placed_invariant hclosed b).part ⟨_, hp⟩ .firstStatement hp.grounded
    have hscopes := scopes_stmt (hclosed.proper hp.mem).1 ctx scopes
    change OnlyComplete _ (stmt ctx _ scopes).1 _
    rw [hscopes, scope_of_exec hs]
    refine OnlyComplete.declaring he fun name hname => ?_
    exact (hfirst.has_of_exec hclosed (hm.lt_next hp.grounded) hname hs).imp_right (·.2)

/-- Whatever starts during the run of an exact task is exact at the end of its trail. -/
theorem exact_during (hclosed : VisitsClosed visited)
    (hunique : ∀ w w', visited w → visited w' → ∀ id, id ∈ w.code.own → id ∈ w'.code.own →
      w = w')
    {root : Visit} {t t' : Task} {trail : List Step} (hp : Placed visited root t m)
    (he : Exact root t m) (hduring : During b t m trail t' m') :
    ∃ v, VisitAt visited root trail v ∧ Placed visited v t' m' ∧ Exact v t' m' := by
  induction hduring with
  | start => exact ⟨root, rfl, hp, he⟩
  | part _ hstarts ih =>
    obtain ⟨v, htrail, hv, he⟩ := ih
    have hG := (placed_invariant hclosed b).heap_of_starts ⟨v, hv⟩ hstarts
    obtain ⟨w, hleads, hw⟩ := lockstep hclosed hv hstarts hG
    exact ⟨w, ⟨v, htrail, hleads⟩, hw, exact_step hclosed hunique hv he hstarts hleads⟩

end

end LoxLang
