import LoxLang.Proofs.Alike.Tree
import Mathlib.Tactic.SplitIfs

/-!
# Trees that differ in the name of marked variables

The renaming of a local variable `old` to `new` as a `Difference`: occurrences have the same labels in
both trees and the same distances in both tables, and tokens stand on the same lines.  Which variables
`old` are called `new` is told by the marks of the scopes.
-/

namespace LoxLang

/-- The token with the name after the renaming. -/
def Token.RenamedIf (old new : String) (marked : Bool) (t t' : Token) : Prop :=
  (t' = if marked && t.lexeme == old then { t with lexeme := new } else t) ∧
    (marked = true → t.lexeme ≠ new)

/-- Nothing differs but the name of a variable. -/
def Difference.renaming (b : Bindings) {old new : String} (hold : old ≠ thisName)
    (hnew : new ≠ thisName) : Difference where
  table := b
  table' := b
  labels := Eq
  tokens t t' := t'.line = t.line
  old := old
  new := new
  distance := by rintro id _ rfl; rfl
  old_ne_this := hold
  new_ne_this := hnew

section

variable {b : Bindings} {old new : String} {hold : old ≠ thisName} {hnew : new ≠ thisName}

theorem Token.RenamedIf.lexeme {marked : Bool} {t t' : Token} (h : t.RenamedIf old new marked t') :
    LoxLang.RenamedIf old new marked t.lexeme t'.lexeme := by
  refine ⟨?_, h.2⟩
  rw [h.1]
  split_ifs <;> rfl

theorem Token.RenamedIf.alike {marked : Bool} {t t' : Token} (h : t.RenamedIf old new marked t') :
    t.Alike (.renaming b hold hnew) marked t' where
  place := by
    rw [h.1]
    split_ifs <;> rfl
  kind := by
    rw [h.1]
    split_ifs <;> rfl
  name := h.lexeme

/-- A tree differs in nothing from itself. -/
theorem Difference.renaming_allows : (Difference.renaming b hold hnew).Allows Eq Eq where
  labels := id
  tokens := by rintro t _ rfl; rfl

end

end LoxLang
