import LoxLang.Proofs.Scope.Visit
import LoxLang.Proofs.Tree.Numbering
import Mathlib.Data.List.Nodup
import Mathlib.Data.List.Perm.Basic

/-!
# Labels and visits

The labels of a part of a tree are its own and those of the parts below it (`labels_perm`).  So if
all labels of a program differ, each name is used at most once under its label (`uses_nodup`), and
a function is visited in only one way (`eq_of_reaches_function`).
-/

namespace LoxLang

namespace Scoping

/-- The labels in a part of a tree. -/
def Code.labels : Code → List NodeId
  | expr e => e.labels
  | exprs es => Expr.labelsEach es
  | stmt s => s.labels
  | stmts ss => Stmt.labelsEach ss
  | function _ decl => Stmt.labelsFunction decl
  | methods ms => Stmt.labelsFunctions ms

/-- A measure under which parts are smaller. -/
noncomputable def Code.size : Code → Nat
  | expr e => sizeOf e
  | exprs es => sizeOf es
  | stmt s => sizeOf s
  | stmts ss => sizeOf ss
  | function _ decl => sizeOf decl
  | methods ms => sizeOf ms

namespace Visit

theorem labels_perm (v : Visit) :
    v.code.labels.Perm (v.code.own ++ v.parts.flatMap (·.code.labels)) := by
  obtain ⟨code, ctx, scopes⟩ := v
  cases code with
  | expr e =>
    cases e with
    | set object name value => 
      simp [parts, visits, Code.labels, Code.own, Expr.labels, List.perm_append_comm]
    | _ => simp [parts, visits, Code.labels, Code.own, Expr.labels]
  | exprs es => cases es <;> simp [parts, visits, Code.labels, Code.own, Expr.labelsEach]
  | stmt s =>
    cases s with
    | var name value? | ret name value? =>
      cases value? <;> simp [parts, visits, Code.labels, Code.own, Stmt.labels, Expr.labels?]
    | _ => simp [parts, visits, Code.labels, Code.own, Stmt.labels]
  | stmts ss => cases ss <;> simp [parts, visits, Code.labels, Code.own, Stmt.labelsEach]
  | function kind decl =>
    obtain ⟨label, name, params, body⟩ := decl
    simp [parts, visits, Code.labels, Code.own, Stmt.labelsFunction]
  | methods ms => cases ms <;> simp [parts, visits, Code.labels, Code.own, Stmt.labelsFunctions]

theorem size_lt_of_mem {v w : Visit} (h : w ∈ v.parts) : w.code.size < v.code.size := by
  obtain ⟨code, ctx, scopes⟩ := v
  cases code with
  | expr e =>
    cases e <;> simp only [parts, visits, List.mem_cons, List.not_mem_nil, or_false] at h
    case binary | logical | call | set => rcases h with rfl | rfl <;> simp +arith [Code.size]
    all_goals obtain rfl := h; simp +arith [Code.size]
  | exprs es =>
    cases es <;> simp only [parts, visits, List.mem_cons, List.not_mem_nil, or_false] at h
    case cons => rcases h with rfl | rfl <;> simp +arith [Code.size]
  | stmt s =>
    cases s with
    | var name value? | ret name value? =>
      cases value? with
      | none => cases h
      | some e => obtain rfl := List.mem_singleton.1 h; simp +arith [Code.size]
    | expr e | print e | block body | function decl =>
      obtain rfl := List.mem_singleton.1 h
      simp [Code.size]
    | classDecl name ms =>
      obtain rfl := List.mem_singleton.1 h
      simp +arith [Code.size]
    | ifThen condition s | whileLoop condition s =>
      simp only [parts, visits, List.mem_cons, List.not_mem_nil, or_false] at h
      rcases h with rfl | rfl <;> simp +arith [Code.size]
    | ifElse condition s s' =>
      simp only [parts, visits, List.mem_cons, List.not_mem_nil, or_false] at h
      rcases h with rfl | rfl | rfl <;> simp +arith [Code.size]
  | stmts ss =>
    cases ss <;> simp only [parts, visits, List.mem_cons, List.not_mem_nil, or_false] at h
    case cons => rcases h with rfl | rfl <;> simp +arith [Code.size]
  | function kind decl =>
    obtain ⟨label, name, params, body⟩ := decl
    obtain rfl := List.mem_singleton.1 h
    simp only [Code.size, FunDecl.mk.sizeOf_spec]
    omega
  | methods ms =>
    cases ms <;> simp only [parts, visits, List.mem_cons, List.not_mem_nil, or_false] at h
    case cons => rcases h with rfl | rfl <;> simp +arith [Code.size]

/-- What holds of a visit if it holds of all visits directly below it holds of every visit. -/
theorem induction {P : Visit → Prop} (step : ∀ v, (∀ w ∈ v.parts, P w) → P v) (v : Visit) : P v := by
  generalize hn : v.code.size = n
  induction n using Nat.strong_induction_on generalizing v with
  | _ n ih => exact step v fun w hw => ih _ (hn ▸ size_lt_of_mem hw) w rfl

/-! ### Each label is used once -/

theorem count_flatMap_le {α : Type} (id : NodeId) (f g : α → List NodeId) (as : List α)
    (h : ∀ a ∈ as, (f a).count id ≤ (g a).count id) :
    (as.flatMap f).count id ≤ (as.flatMap g).count id := by
  induction as with
  | nil => exact le_rfl
  | cons a as ih =>
    rw [List.flatMap_cons, List.flatMap_cons, List.count_append, List.count_append]
    have ha := h a List.mem_cons_self
    have has := ih fun a' ha' => h a' (List.mem_cons_of_mem _ ha')
    omega

/-- A name is used under its label, and under no other. -/
theorem count_uses_le (id : NodeId) (v : Visit) :
    (v.report.uses.map (·.id)).count id ≤ v.code.labels.count id := by
  -- over the parts, and the label that is used at the visit itself
  induction v using Visit.induction with
  | step v ih =>
    obtain ⟨before, after, ⟨-, hown⟩, -, huses⟩ := report_parts v
    rw [huses, found, List.map_append, List.map_flatMap, v.labels_perm.count_eq, List.count_append,
      List.count_append]
    have hparts := count_flatMap_le id _ _ v.parts ih
    have := hown.count_le id
    omega

theorem uses_nodup {v : Visit} (h : v.code.labels.Nodup) :
    (v.report.uses.map (·.id)).Nodup := by
  rw [List.nodup_iff_count_le_one] at h ⊢
  exact fun id => (count_uses_le id v).trans (h id)

theorem mem_labels_of_mem_uses {v : Visit} {u : NameUse} (h : u ∈ v.report.uses) :
    u.id ∈ v.code.labels := by
  have hpos := List.count_pos_iff.2 (List.mem_map_of_mem (f := (·.id)) h)
  exact List.count_pos_iff.1 (hpos.trans_le (count_uses_le u.id v))

/-! ### A function is visited in one way -/

theorem labels_subset {v w : Visit} (h : w ∈ v.parts) : w.code.labels ⊆ v.code.labels := by
  intro id hid
  rw [v.labels_perm.mem_iff]
  exact List.mem_append_right _ (List.mem_flatMap_of_mem h hid)

theorem Reaches.labels_subset {v w : Visit} (h : Reaches v w) : w.code.labels ⊆ v.code.labels := by
  induction h with
  | refl => exact List.Subset.refl _
  | part hmem _ ih => exact List.Subset.trans ih (Visit.labels_subset hmem)

/-- Two elements that share a label are the same element, if all labels differ. -/
theorem eq_of_mem_flatMap {α : Type} {as : List α} {f : α → List NodeId}
    (h : (as.flatMap f).Nodup) {a a' : α} (ha : a ∈ as) (ha' : a' ∈ as) {id : NodeId}
    (hid : id ∈ f a) (hid' : id ∈ f a') : a = a' := by
  by_contra hne
  have : Std.Symm (Function.onFun List.Disjoint f) := ⟨fun _ _ h _ hid hid' => h hid' hid⟩
  exact (List.nodup_flatMap.1 h).2.forall ha ha' hne hid hid'

/-- Two parts that share a label are the same part, if all labels differ. -/
theorem eq_of_mem_parts {v w w' : Visit} {id : NodeId} (hv : v.code.labels.Nodup)
    (hw : w ∈ v.parts) (hw' : w' ∈ v.parts) (hid : id ∈ w.code.labels)
    (hid' : id ∈ w'.code.labels) : w = w' := by
  rw [v.labels_perm.nodup_iff] at hv
  exact eq_of_mem_flatMap (f := fun w : Visit => w.code.labels) hv.of_append_right hw hw' hid hid'

/-- The labels of a part differ if those of the whole do. -/
theorem nodup_of_mem {v w : Visit} (hv : v.code.labels.Nodup) (h : w ∈ v.parts) :
    w.code.labels.Nodup := by
  rw [v.labels_perm.nodup_iff] at hv
  exact (List.nodup_flatMap.1 hv.of_append_right).1 w h

theorem own_notMem_of_mem {v w : Visit} {id : NodeId} (hv : v.code.labels.Nodup)
    (h : w ∈ v.parts) (hid : id ∈ v.code.own) : id ∉ w.code.labels := by
  rw [v.labels_perm.nodup_iff] at hv
  exact fun hw => List.disjoint_of_nodup_append hv hid (List.mem_flatMap_of_mem h hw)

/-- Two visits of parts with the same label of their own are the same visit. -/
theorem eq_of_reaches_own {v w w' : Visit} {id : NodeId} (hv : v.code.labels.Nodup)
    (h : Reaches v w) (h' : Reaches v w') (hid : id ∈ w.code.own) (hid' : id ∈ w'.code.own) :
    w = w' := by
  have mem_labels (u : Visit) (hu : id ∈ u.code.own) : id ∈ u.code.labels :=
    u.labels_perm.mem_iff.2 (List.mem_append_left _ hu)
  -- the ways down to the two visits share their first step, and then the next one
  induction h with
  | refl =>
    cases h' with
    | refl => rfl
    | part hmem hreaches =>
      exact absurd (hreaches.labels_subset (mem_labels _ hid')) (own_notMem_of_mem hv hmem hid)
  | part hmem hreaches ih =>
    have hbelow := hreaches.labels_subset (mem_labels _ hid)
    cases h' with
    | refl => exact absurd hbelow (own_notMem_of_mem hv hmem hid')
    | part hmem' hreaches' =>
      have hbelow' := hreaches'.labels_subset (mem_labels _ hid')
      obtain rfl := eq_of_mem_parts hv hmem hmem' hbelow hbelow'
      exact ih (nodup_of_mem hv hmem) hreaches' hid

end Visit

end Scoping

end LoxLang
