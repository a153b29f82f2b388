/-!
# Maps from names

A `NameMap` holds at most one value for each name, in the order in which the names came.  The names
of a scope, the variables of a frame, the fields of an instance and the methods of a class are kept
in such maps.

The one view is `get?`; `get?_insert` says what an insertion does to it.
-/

namespace LoxLang

/-- Values under names. -/
structure NameMap (α : Type) where
  entries : List (String × α)

namespace NameMap

variable {α : Type}

/-- The map without names. -/
def empty : NameMap α := ⟨[]⟩

instance : EmptyCollection (NameMap α) := ⟨empty⟩

instance : Inhabited (NameMap α) := ⟨empty⟩

/-- The value under a name. -/
def get? (m : NameMap α) (name : String) : Option α := m.entries.lookup name

/-- The name has a value. -/
def contains (m : NameMap α) (name : String) : Bool := (m.get? name).isSome

/-- The entries with the value under a name replaced, or with the name added at the end. -/
def insertEntry (name : String) (value : α) : List (String × α) → List (String × α)
  | [] => [(name, value)]
  | (n, v) :: rest =>
    if name == n then (name, value) :: rest else (n, v) :: insertEntry name value rest

/-- The map with a new value under a name, whether or not it had one. -/
def insert (m : NameMap α) (name : String) (value : α) : NameMap α :=
  ⟨insertEntry name value m.entries⟩

@[simp] theorem get?_empty (name : String) : (∅ : NameMap α).get? name = none := rfl

theorem get?_insert (m : NameMap α) (name : String) (value : α) (other : String) :
    (m.insert name value).get? other = if other = name then some value else m.get? other := by
  obtain ⟨entries⟩ := m
  simp only [insert, get?]
  induction entries with
  | nil => simp only [insertEntry, List.lookup_cons, List.lookup_nil]; grind
  | cons e rest ih =>
    obtain ⟨n, v⟩ := e
    by_cases h : name = n
    · subst h; simp only [insertEntry, beq_self_eq_true, ↓reduceIte, List.lookup_cons]; grind
    · simp only [insertEntry, beq_iff_eq, h, ↓reduceIte, List.lookup_cons, ih]; grind

@[simp] theorem get?_insert_self (m : NameMap α) (name : String) (value : α) :
    (m.insert name value).get? name = some value := by simp [get?_insert]

theorem contains_iff {m : NameMap α} {name : String} :
    m.contains name = true ↔ ∃ value, m.get? name = some value := by
  simp [contains, Option.isSome_iff_exists]

/-- The map of a list of entries, where a later entry replaces an earlier one of the same name. -/
def ofList (entries : List (String × α)) : NameMap α :=
  entries.foldl (fun m (name, value) => m.insert name value) ∅

/-- What a map of a list of entries holds is among the entries. -/
theorem mem_of_get?_ofList {entries : List (String × α)} {name : String} {value : α}
    (h : (ofList entries).get? name = some value) : (name, value) ∈ entries := by
  have from_acc : ∀ (m : NameMap α),
      (entries.foldl (fun m (name, value) => m.insert name value) m).get? name = some value →
      (name, value) ∈ entries ∨ m.get? name = some value := by
    clear h
    induction entries with
    | nil => exact fun m h => .inr h
    | cons e rest ih =>
      intro m h
      rcases ih _ h with hmem | hget
      · exact .inl (List.mem_cons_of_mem _ hmem)
      · rw [get?_insert] at hget
        split at hget
        · next heq =>
          obtain rfl := Option.some.inj hget
          exact .inl (heq ▸ List.mem_cons_self)
        · exact .inr hget
  exact (from_acc ∅ h).resolve_right nofun

/-- A map of a list of entries has every name of the list. -/
theorem contains_ofList {entries : List (String × α)} {name : String}
    (h : name ∈ entries.map (·.1)) : (ofList entries).contains name = true := by
  have from_acc : ∀ (m : NameMap α), name ∈ entries.map (·.1) ∨ m.contains name = true →
      (entries.foldl (fun m (name, value) => m.insert name value) m).contains name = true := by
    clear h
    induction entries with
    | nil => exact fun m h => h.resolve_left nofun
    | cons e rest ih =>
      intro m h
      refine ih _ ?_
      by_cases heq : name = e.1
      · exact .inr (by rw [contains, heq, get?_insert_self]; rfl)
      · rcases h with h | h
        · exact .inl ((List.mem_cons.1 h).resolve_left heq)
        · exact .inr (by rw [contains, get?_insert, if_neg heq]; exact h)
  exact from_acc ∅ (.inl h)

end NameMap

end LoxLang
