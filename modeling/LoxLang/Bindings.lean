import LoxLang.Scoping
import Std.Data.TreeMap

/-!
# Bindings

The table of distances that scope checking leaves for running: how many scopes out the variable of
an occurrence lives.  Occurrences without an entry are global.
-/

namespace LoxLang

/-- Distances under the numbers of name occurrences. -/
structure Bindings where
  table : Std.TreeMap NodeId Nat

namespace Bindings

/-- The table without entries. -/
def empty : Bindings := ⟨∅⟩

/-- The distance of an occurrence. -/
def distance? (b : Bindings) (id : NodeId) : Option Nat := b.table[id]?

/-- The table with a distance for an occurrence. -/
def record (b : Bindings) (id : NodeId) (distance : Nat) : Bindings :=
  ⟨b.table.insert id distance⟩

@[simp] theorem distance?_empty (id : NodeId) : empty.distance? id = none := by
  simp [empty, distance?]

theorem distance?_record (b : Bindings) (id : NodeId) (distance : Nat) (other : NodeId) :
    (b.record id distance).distance? other
      = if other = id then some distance else b.distance? other := by
  simp only [record, distance?, Std.TreeMap.getElem?_insert]
  grind

/-- The table after one use of a name. -/
def recordUse (b : Bindings) (u : NameUse) : Bindings :=
  match u.distance? with
  | some d => b.record u.id d
  | none => b

/-- The table after the uses of names found in a walk. -/
def recordUses (b : Bindings) (uses : List NameUse) : Bindings := uses.foldl recordUse b

theorem distance?_recordUse (b : Bindings) (u : NameUse) (id : NodeId) :
    (b.recordUse u).distance? id =
      if id = u.id then u.distance?.or (b.distance? id) else b.distance? id := by
  rw [recordUse]
  cases u.distance? with
  | none => simp
  | some d => simp [distance?_record]

/-- An occurrence that is not among the uses keeps its entry. -/
theorem distance?_recordUses_of_notMem {uses : List NameUse} {id : NodeId}
    (h : id ∉ uses.map (·.id)) (b : Bindings) :
    (b.recordUses uses).distance? id = b.distance? id := by
  induction uses generalizing b with
  | nil => rfl
  | cons u uses ih =>
    obtain ⟨hne, hrest⟩ := not_or.1 (mt List.mem_cons.2 h)
    change ((b.recordUse u).recordUses uses).distance? id = _
    rw [ih hrest, distance?_recordUse, if_neg hne]

/-- A use of an occurrence without an entry leaves the distance found for it. -/
theorem distance?_recordUses {uses : List NameUse} (hnodup : (uses.map (·.id)).Nodup) {u : NameUse}
    (hu : u ∈ uses) {b : Bindings} (hb : b.distance? u.id = none) :
    (b.recordUses uses).distance? u.id = u.distance? := by
  induction uses generalizing b with
  | nil => cases hu
  | cons u' uses ih =>
    obtain ⟨hfirst, hrest⟩ := List.nodup_cons.1 hnodup
    change ((b.recordUse u').recordUses uses).distance? u.id = _
    rcases List.mem_cons.1 hu with rfl | hu
    · rw [distance?_recordUses_of_notMem hfirst, distance?_recordUse, if_pos rfl, hb, Option.or_none]
    · have hne : u.id ≠ u'.id := fun heq => hfirst (List.mem_map.2 ⟨u, hu, heq⟩)
      exact ih hrest hu (by rw [distance?_recordUse, if_neg hne, hb])

end Bindings

end LoxLang
