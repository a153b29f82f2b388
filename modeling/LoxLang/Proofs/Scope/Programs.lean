import LoxLang.Proofs.Grammar.Proper
import LoxLang.Proofs.Run.Session
import LoxLang.Proofs.Scope.Labels
import LoxLang.Proofs.Scope.Placed

/-!
# The programs of a session

A session is sound for the programs that it has run (`Session.Sound`): their labels all differ, the
distances that the scope check found in them are in the table, and every closure on the heap was made
by one of their functions.  Every session is (`Session.sound_runAll`).
-/

namespace LoxLang

open Scoping Evaluation

/-- The check of one of the programs comes to the visit. -/
def Visited (programs : List (List (Stmt NodeId))) (v : Visit) : Prop :=
  ∃ program ∈ programs, Visit.Reaches (.program program) v

namespace Scoping.Visit

theorem Reaches.proper {v w : Visit} (h : Reaches v w) (hv : v.code.Proper) : w.code.Proper := by
  induction h with
  | refl => exact hv
  | part hmem _ ih => exact ih (proper_of_mem hv hmem)

theorem Reaches.tidy {v w : Visit} (h : Reaches v w) (hproper : v.code.Proper) (hv : v.Tidy) :
    w.Tidy := by
  induction h with
  | refl => exact hv
  | part hmem _ ih => exact ih (proper_of_mem hproper hmem) (tidy_of_mem hproper hv hmem)

theorem Reaches.errors_subset {v w : Visit} (h : Reaches v w) :
    w.report.errors ⊆ v.report.errors := by
  induction h with
  | refl => exact List.Subset.refl _
  | part hmem _ ih => exact List.Subset.trans ih (Visit.errors_subset hmem)

theorem Reaches.uses_subset {v w : Visit} (h : Reaches v w) : w.report.uses ⊆ v.report.uses := by
  induction h with
  | refl => exact List.Subset.refl _
  | part hmem _ ih => exact List.Subset.trans ih (Visit.uses_subset hmem)

end Scoping.Visit

section

variable {programs programs' : List (List (Stmt NodeId))}

theorem Visited.mono (h : programs ⊆ programs') {v : Visit} (hv : Visited programs v) :
    Visited programs' v := by
  obtain ⟨program, hprogram, hreaches⟩ := hv
  exact ⟨program, h hprogram, hreaches⟩

theorem visitsClosed (hproper : ∀ program ∈ programs, Stmt.ProperEach program) :
    VisitsClosed (Visited programs) where
  part := fun ⟨program, hprogram, hreaches⟩ hmem => ⟨program, hprogram, hreaches.trans (.of_mem hmem)⟩
  proper := fun ⟨program, hprogram, hreaches⟩ => hreaches.proper (hproper program hprogram)

/-- A label stands in one visit only, if all labels of all programs differ. -/
theorem Visited.eq_of_own (hnodup : (programs.flatMap Stmt.labelsEach).Nodup) {w w' : Visit}
    (hw : Visited programs w) (hw' : Visited programs w') {id : NodeId} (hid : id ∈ w.code.own)
    (hid' : id ∈ w'.code.own) : w = w' := by
  obtain ⟨program, hprogram, hreaches⟩ := hw
  obtain ⟨program', hprogram', hreaches'⟩ := hw'
  have mem_labels {v u : Visit} (h : v.Reaches u) (hu : id ∈ u.code.own) : id ∈ v.code.labels :=
    h.labels_subset (u.labels_perm.mem_iff.2 (List.mem_append_left _ hu))
  obtain rfl : program = program' :=
    Visit.eq_of_mem_flatMap hnodup hprogram hprogram' (mem_labels hreaches hid)
      (mem_labels hreaches' hid')
  exact Visit.eq_of_reaches_own (v := .program program)
    ((List.nodup_flatMap.1 hnodup).1 program hprogram) hreaches hreaches' hid hid'

theorem Grounded.mono {visited visited' : Visit → Prop} (h : ∀ v, visited v → visited' v) {heap : Heap}
    (hg : Grounded visited heap) : Grounded visited' heap where
  global := hg.global
  functions := by
    intro id c hc
    obtain ⟨w, kind, hw, hrest⟩ := hg.functions hc
    exact ⟨w, kind, h w hw, hrest⟩
  methods := by
    intro id name c hc
    obtain ⟨w, kind, scopes, hw, hrest⟩ := hg.methods hc
    exact ⟨w, kind, scopes, h w hw, hrest⟩

theorem grounded_initial (visited : Visit → Prop) : Grounded visited .initial where
  global := by rw [Heap.initial, Frames.next_push]; exact Nat.succ_pos _
  functions hc := by simp [Heap.initial] at hc
  methods hc := by simp [Heap.initial, Heap.method?] at hc

end

namespace Session

/-! ### Accepted programs -/

variable {s : Session} {programs : List (List (Stmt NodeId))} {source : String}

theorem program_labels (s : Session) (source : String) :
    Consecutive (Stmt.labelsEach (s.program source)) s.nextId (s.nextAfter source) :=
  numberOccurrences_labels s.nextId (parse (tokensOf (scan source))).statements

/-- The program of a source without errors is proper. -/
theorem program_proper (h : s.accepts source = true) : Stmt.ProperEach (s.program source) := by
  rw [accepts, Bool.and_eq_true, List.isEmpty_iff] at h
  have herrors : (parse (tokensOf (scan source))).errors = [] :=
    List.map_eq_nil_iff.1 (List.append_eq_nil_iff.1 h.1).2
  have hproper := properEach_of_parse (fun t ht => spelled_of_mem_tokensOf_scan ht) herrors
  exact (Stmt.relabelEach_proper freshId _ s.nextId).2 hproper

theorem check_program (h : s.accepts source = true) : (check (s.program source)).errors = [] := by
  rw [accepts, Bool.and_eq_true] at h
  exact List.isEmpty_iff.1 h.2

/-- The uses in a program have labels of the program. -/
theorem use_bounds {u : NameUse} (hu : u ∈ (check (s.program source)).uses) :
    s.nextId ≤ u.id ∧ u.id < s.nextAfter source :=
  (s.program_labels source).mem_iff.1
    (Visit.mem_labels_of_mem_uses (v := .program (s.program source)) hu)

/-- The labels of other programs keep their entries. -/
theorem distance?_bindingsFor {id : NodeId} (h : id < s.nextId ∨ s.nextAfter source ≤ id) :
    (s.bindingsFor source).distance? id = s.bindings.distance? id := by
  refine Bindings.distance?_recordUses_of_notMem (fun hmem => ?_) _
  obtain ⟨u, hu, rfl⟩ := List.mem_map.1 hmem
  obtain ⟨hle, hlt⟩ := use_bounds hu
  rcases h with h | h
  · exact Nat.not_lt_of_le hle h
  · exact Nat.not_lt_of_le h hlt

/-! ### Sound sessions -/

/-- The session goes well with the programs that it has run. -/
structure Sound (programs : List (List (Stmt NodeId))) (s : Session) : Prop where
  nodup : (programs.flatMap Stmt.labelsEach).Nodup
  used : ∀ id ∈ programs.flatMap Stmt.labelsEach, id < s.nextId
  proper : ∀ program ∈ programs, Stmt.ProperEach program
  checked : ∀ program ∈ programs, (check program).errors = []
  recorded : ∀ program ∈ programs, ∀ u ∈ (check program).uses,
    s.bindings.distance? u.id = u.distance?
  unused : ∀ id, s.nextId ≤ id → s.bindings.distance? id = none
  grounded : Grounded (Visited programs) s.machine.heap

theorem bindings_loaded (s : Session) (source : String) :
    (s.loaded source).bindings = s.bindingsFor source := rfl

theorem nextId_loaded (s : Session) (source : String) :
    (s.loaded source).nextId = s.nextAfter source := rfl

theorem heap_loaded (s : Session) (source : String) :
    (s.loaded source).machine.heap = s.machine.heap := rfl

theorem sound_start (limit? : Option Nat) (clock : Clock) : Sound [] (start limit? clock) where
  nodup := List.nodup_nil
  used := nofun
  proper := nofun
  checked := nofun
  recorded := nofun
  unused id _ := Bindings.distance?_empty id
  grounded := grounded_initial _

/-- The names that were found at a visit have the distances that were found there. -/
theorem Sound.distance_of_use (hs : Sound programs s) {v : Visit} (hv : Visited programs v)
    {u : NameUse} (hu : u ∈ v.report.uses) : s.bindings.distance? u.id = u.distance? := by
  obtain ⟨program, hprogram, hreaches⟩ := hv
  exact hs.recorded program hprogram u (hreaches.uses_subset hu)

theorem Sound.tidy (hs : Sound programs s) {v : Visit} (hv : Visited programs v) : v.Tidy := by
  obtain ⟨program, hprogram, hreaches⟩ := hv
  exact hreaches.tidy (hs.proper program hprogram) (.inl nofun)

theorem Sound.load (hs : Sound programs s) (h : s.accepts source = true) :
    Sound (programs ++ [s.program source]) (s.loaded source) := by
  have hlabels := s.program_labels source
  have forall_append {P : List (Stmt NodeId) → Prop} (h : ∀ program ∈ programs, P program)
      (hlast : P (s.program source)) : ∀ program ∈ programs ++ [s.program source], P program := by
    intro program hprogram
    rcases List.mem_append.1 hprogram with hold | hnew
    · exact h program hold
    · exact List.mem_singleton.1 hnew ▸ hlast
  refine ⟨?_, ?_, forall_append hs.proper (program_proper h),
    forall_append hs.checked (check_program h), forall_append ?_ ?_, ?_, ?_⟩
  -- the labels of the new program begin where those of the others end
  · rw [List.flatMap_append, List.flatMap_singleton, List.nodup_append']
    refine ⟨hs.nodup, hlabels.nodup, fun id hid hid' => ?_⟩
    exact Nat.not_lt_of_le (hlabels.mem_iff.1 hid').1 (hs.used id hid)
  · rw [List.flatMap_append, List.flatMap_singleton, nextId_loaded]
    intro id hid
    rcases List.mem_append.1 hid with hold | hnew
    · exact Nat.lt_of_lt_of_le (hs.used id hold) hlabels.1
    · exact (hlabels.mem_iff.1 hnew).2
  -- what has been recorded of other programs is not touched
  · intro program hprogram u hu
    have hmem := Visit.mem_labels_of_mem_uses (v := .program program) hu
    have hlt := hs.used u.id (List.mem_flatMap_of_mem hprogram hmem)
    rw [bindings_loaded, distance?_bindingsFor (.inl hlt), hs.recorded program hprogram u hu]
  · intro u hu
    have hnodup := Visit.uses_nodup (v := .program (s.program source)) hlabels.nodup
    rw [bindings_loaded]
    exact Bindings.distance?_recordUses hnodup hu (hs.unused u.id (use_bounds hu).1)
  · intro id hid
    rw [nextId_loaded] at hid
    rw [bindings_loaded, distance?_bindingsFor (.inr hid)]
    exact hs.unused id (hlabels.1.trans hid)
  · rw [heap_loaded]
    exact hs.grounded.mono fun v => Visited.mono (List.subset_append_left _ _)

/-- The visit of a whole program fits the machine on which the program begins to run. -/
theorem Sound.placed (hs : Sound programs s) (h : s.accepts source = true) :
    Placed (Visited (programs ++ [s.program source])) (.program (s.program source))
      (.execEach (s.program source)) s.ready where
  mem := ⟨s.program source, by simp, .refl _⟩
  grounded := (hs.load h).grounded
  fits := ⟨rfl, rfl⟩

theorem Sound.run (hs : Sound programs s) (h : s.accepts source = true) (fuel : Nat) :
    Sound (programs ++ [s.program source]) (s.run fuel source).2 := by
  have hl := hs.load h
  rw [run_of_accepts h]
  exact { hl with
    grounded := (placed_invariant (visitsClosed hl.proper) _).after ⟨_, hs.placed h⟩ fuel }

/-- A source with errors leaves the session sound for the same programs. -/
theorem Sound.refuse (hs : Sound programs s) (h : s.accepts source = false) (fuel : Nat) :
    Sound programs (s.run fuel source).2 := by
  obtain ⟨bindings, hbindings, hrun⟩ := run_of_not_accepts h fuel
  have hle : s.nextId ≤ s.nextAfter source := (s.program_labels source).1
  have hdistance {id : NodeId} (hid : id < s.nextId ∨ s.nextAfter source ≤ id) :
      bindings.distance? id = s.bindings.distance? id := by
    rcases hbindings with rfl | rfl
    · rfl
    · exact distance?_bindingsFor hid
  rw [hrun]
  -- the numbers of the refused program are never given out again
  refine { hs with used := ?_, recorded := ?_, unused := ?_ }
  · exact fun id hid => Nat.lt_of_lt_of_le (hs.used id hid) hle
  · intro program hprogram u hu
    have hmem := Visit.mem_labels_of_mem_uses (v := .program program) hu
    exact (hdistance (.inl (hs.used u.id (List.mem_flatMap_of_mem hprogram hmem)))).trans
      (hs.recorded program hprogram u hu)
  · exact fun id hid => (hdistance (.inr hid)).trans (hs.unused id (hle.trans hid))

/-- The programs of the accepted ones among the sources that are run one after another. -/
def programsRun (s : Session) : List (Nat × String) → List (List (Stmt NodeId))
  | [] => []
  | (fuel, source) :: steps =>
    (if s.accepts source then [s.program source] else []) ++ (s.run fuel source).2.programsRun steps

/-- After any runs the session is sound for the programs that have run. -/
theorem sound_runAll (hs : Sound programs s) (steps : List (Nat × String)) :
    Sound (programs ++ s.programsRun steps) (s.runAll steps) := by
  induction steps generalizing s programs with
  | nil => simpa [programsRun, runAll] using hs
  | cons step steps ih =>
    obtain ⟨fuel, source⟩ := step
    rw [programsRun, ← List.append_assoc]
    cases h : s.accepts source with
    | true => exact ih (hs.run h fuel)
    | false => exact ih (by simpa using hs.refuse h fuel)

end Session

end LoxLang
