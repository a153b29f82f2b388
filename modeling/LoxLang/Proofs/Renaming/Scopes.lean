import LoxLang.Proofs.Renaming.Alike
import LoxLang.Proofs.Renaming.Rename

/-!
# Scopes under a renaming

Inside of the scope of a renamed variable the scope check of the renamed tree keeps the same scopes but
for this one, which has the new name instead of the old one (`RenamedScopes`).  A name is traced as far
after the renaming as before it (`RenamedScopes.distance_use`).
-/

namespace LoxLang

open Scoping

/-- The second scopes are the first ones after the renaming. -/
inductive RenamedScopes (r : Renaming) : Scopes → Scopes → Prop where
  /-- The scope of the variable. -/
  | here {scope scope' outer} : outer.length = r.level →
    (∀ n n', RenamedIf r.old r.new true n n' → scope'.get? n' = scope.get? n) →
    scope'.get? r.old = none → RenamedScopes r (scope :: outer) (scope' :: outer)
  /-- A scope inside of it. -/
  | inner {scope outer outer'} : scope.get? r.new = none → RenamedScopes r outer outer' →
    RenamedScopes r (scope :: outer) (scope :: outer')

section

variable {r : Renaming} {scopes scopes' : Scopes}

theorem RenamedScopes.level_lt (h : RenamedScopes r scopes scopes') : r.level < scopes.length := by
  induction h with
  | here hlevel _ _ => rw [List.length_cons, hlevel]; exact Nat.lt_succ_self _
  | inner _ _ ih => exact Nat.lt_succ_of_lt ih

/-- A scope inside of these is not the scope of the variable. -/
theorem RenamedScopes.level_cons (h : RenamedScopes r scopes scopes') (scope : Scope) :
    ((scope :: scopes).length == r.level + 1) = false :=
  beq_false_of_ne (Nat.ne_of_gt (Nat.succ_lt_succ h.level_lt))

theorem RenamedScopes.eq_cons (h : RenamedScopes r scopes scopes') :
    ∃ scope outer scope' outer', scopes = scope :: outer ∧ scopes' = scope' :: outer' := by
  cases h with
  | here => exact ⟨_, _, _, _, rfl, rfl⟩
  | inner => exact ⟨_, _, _, _, rfl, rfl⟩

/-! ### Tracing names -/

theorem NameMap.contains_congr {α : Type} {m m' : NameMap α} {n n' : String}
    (h : m'.get? n' = m.get? n) : m'.contains n' = m.contains n := by
  rw [NameMap.contains, NameMap.contains, h]

/-- A name in the innermost scope belongs to the variable if this is the scope of the variable. -/
theorem Renaming.binds_cons (r : Renaming) (scope : Scope) (outer : Scopes) (name : Token) :
    r.binds (scope :: outer) name =
      if scope.contains name.lexeme then name.lexeme == r.old && outer.length == r.level
      else r.binds outer name := by
  rw [binds, binds, distance?_cons]
  split_ifs with h
  · simp [Option.any, Bool.beq_comm]
  · cases distance? outer name.lexeme with
    | none => simp
    | some d =>
      simp only [Option.map_some, Option.any_some, List.length_cons]
      congr 1
      rw [Bool.eq_iff_iff, beq_iff_eq, beq_iff_eq]
      omega

/-- What the outer scopes bind is not bound at the level of the variable itself. -/
theorem Renaming.binds_eq_false (r : Renaming) {outer : Scopes} (h : outer.length = r.level)
    (name : Token) : r.binds outer name = false := by
  rw [binds]
  cases distance? outer name.lexeme with
  | none => simp
  | some d =>
    simp only [Option.any_some, Bool.and_eq_false_iff, beq_eq_false_iff_ne]
    exact .inr (by omega)

theorem Renaming.old_of_binds {name : Token} (h : r.binds scopes name = true) :
    name.lexeme = r.old := by
  rw [binds, Bool.and_eq_true, beq_iff_eq] at h
  exact h.1

theorem Renaming.lexeme_use (r : Renaming) (scopes : Scopes) (name : Token) :
    (r.use scopes name).lexeme = if r.binds scopes name then r.new else name.lexeme := by
  rw [use]
  split_ifs <;> rfl

/-- A use that the innermost scope does not bind is traced further out. -/
theorem Renaming.use_outer (r : Renaming) {scope : Scope} {outer : Scopes} {name : Token}
    (h : scope.get? name.lexeme = none) : r.use (scope :: outer) name = r.use outer name := by
  have hscope : scope.contains name.lexeme = false := by rw [NameMap.contains, h]; rfl
  rw [use, use, binds_cons, hscope]
  rfl

/-- The scope of the variable has a used name as it had it before. -/
theorem get?_use_here {scope scope' : Scope} {outer : Scopes} (hlevel : outer.length = r.level)
    (hget : ∀ n n', RenamedIf r.old r.new true n n' → scope'.get? n' = scope.get? n)
    (hold : scope'.get? r.old = none) {name : Token} (hnew : name.lexeme ≠ r.new) :
    scope'.get? (r.use (scope :: outer) name).lexeme = scope.get? name.lexeme := by
  by_cases hname : name.lexeme = r.old
  · cases hscope : scope.get? name.lexeme with
    | none =>
      have huse : r.use outer name = name := by rw [Renaming.use, r.binds_eq_false hlevel]; rfl
      rw [r.use_outer hscope, huse, hname, hold]
    | some complete =>
      -- the variable itself, which now has the new name
      have hbinds : r.binds (scope :: outer) name = true := by
        rw [Renaming.binds_cons, NameMap.contains, hscope]
        simp [hname, hlevel]
      rw [Renaming.lexeme_use, if_pos hbinds, ← hscope]
      exact hget _ _ ⟨by simp [hname], fun _ => hnew⟩
  · have hbinds : r.binds (scope :: outer) name ≠ true := fun h => hname (Renaming.old_of_binds h)
    rw [Renaming.lexeme_use, if_neg hbinds]
    exact hget _ _ (.other hname hnew true)

/-- A scope further inside has a used name as it had it before. -/
theorem get?_use_inner {scope : Scope} {outer : Scopes} (hlevel : outer.length ≠ r.level)
    (hfresh : scope.get? r.new = none) (name : Token) :
    scope.get? (r.use (scope :: outer) name).lexeme = scope.get? name.lexeme := by
  cases hscope : scope.get? name.lexeme with
  | none =>
    rw [r.use_outer hscope, Renaming.lexeme_use]
    split_ifs
    · exact hfresh
    · exact hscope
  | some complete =>
    have hbinds : r.binds (scope :: outer) name = false := by
      rw [Renaming.binds_cons, NameMap.contains, hscope]
      simp [hlevel]
    rw [Renaming.use, hbinds]
    exact hscope

/-- A use is traced as far as before. -/
theorem RenamedScopes.distance_use (h : RenamedScopes r scopes scopes') {name : Token}
    (hnew : name.lexeme ≠ r.new) :
    distance? scopes' (r.use scopes name).lexeme = distance? scopes name.lexeme := by
  induction h with
  | @here scope scope' outer hlevel hget hold =>
    rw [distance?_cons, distance?_cons,
      NameMap.contains_congr (get?_use_here hlevel hget hold hnew)]
    by_cases hscope : scope.contains name.lexeme = true
    · rw [if_pos hscope, if_pos hscope]
    · have hnone : scope.get? name.lexeme = none := by simpa [NameMap.contains] using hscope
      have huse : r.use outer name = name := by rw [Renaming.use, r.binds_eq_false hlevel]; rfl
      rw [if_neg hscope, if_neg hscope, r.use_outer hnone, huse]
  | @inner scope outer outer' hfresh h ih =>
    have hlevel : outer.length ≠ r.level := Nat.ne_of_gt h.level_lt
    rw [distance?_cons, distance?_cons,
      NameMap.contains_congr (get?_use_inner hlevel hfresh name)]
    by_cases hscope : scope.contains name.lexeme = true
    · rw [if_pos hscope, if_pos hscope]
    · have hnone : scope.get? name.lexeme = none := by simpa [NameMap.contains] using hscope
      rw [if_neg hscope, if_neg hscope, r.use_outer hnone, ih]

/-- A use is as incomplete as before. -/
theorem RenamedScopes.isIncomplete_use (h : RenamedScopes r scopes scopes') {name : Token}
    (hnew : name.lexeme ≠ r.new) :
    isIncomplete scopes' (r.use scopes name).lexeme = isIncomplete scopes name.lexeme := by
  cases h with
  | here hlevel hget hold =>
    simp only [isIncomplete, List.head?_cons, Option.bind_some,
      get?_use_here hlevel hget hold hnew]
  | inner hfresh h =>
    simp only [isIncomplete, List.head?_cons, Option.bind_some,
      get?_use_inner (Nat.ne_of_gt h.level_lt) hfresh]

/-! ### Declaring names -/

/-- A name that is declared is named as before, but for the variable itself. -/
theorem Renaming.declaration_renamedIf (r : Renaming) (scopes : Scopes) {name : Token}
    (hnew : name.lexeme ≠ r.new) :
    name.RenamedIf r.old r.new (scopes.length == r.level + 1) (r.declaration scopes name) := by
  refine ⟨?_, fun _ => hnew⟩
  rw [declaration, declares, Bool.and_comm]
  rfl

/-- Entering a name into the innermost scopes. -/
theorem RenamedScopes.insert {scope scope' : Scope} {outer outer' : Scopes}
    (h : RenamedScopes r (scope :: outer) (scope' :: outer')) (hr : r.Valid) {n n' : String}
    (hnew : n ≠ r.new)
    (hn : RenamedIf r.old r.new ((scope :: outer).length == r.level + 1) n n') (complete : Bool) :
    RenamedScopes r (scope.insert n complete :: outer) (scope'.insert n' complete :: outer') := by
  cases h with
  | here hlevel hget hold =>
    rw [List.length_cons, hlevel, beq_self_eq_true] at hn
    refine .here hlevel (fun k k' hk => ?_) ?_
    · rw [NameMap.get?_insert, NameMap.get?_insert, hget k k' hk]
      simp only [hn.eq_iff hk]
    · have hn' : r.old ≠ n' := by
        rw [hn.1]
        split_ifs with hname
        · exact hr.ne
        · exact fun heq => hname (by simp [heq])
      rw [NameMap.get?_insert, if_neg hn', hold]
  | inner hfresh h =>
    rw [h.level_cons] at hn
    obtain rfl : n' = n := hn.1
    refine .inner ?_ h
    rw [NameMap.get?_insert, if_neg hnew.symm, hfresh]

/-- The innermost scopes have corresponding names. -/
theorem RenamedScopes.contains {scope scope' : Scope} {outer outer' : Scopes}
    (h : RenamedScopes r (scope :: outer) (scope' :: outer')) {n n' : String}
    (hn : RenamedIf r.old r.new ((scope :: outer).length == r.level + 1) n n') :
    scope'.contains n' = scope.contains n := by
  cases h with
  | here hlevel hget hold =>
    rw [List.length_cons, hlevel, beq_self_eq_true] at hn
    exact NameMap.contains_congr (hget n n' hn)
  | inner hfresh h =>
    rw [h.level_cons] at hn
    obtain rfl : n' = n := hn.1
    rfl

end

end LoxLang
