import LoxLang.Proofs.Alike.Run
import LoxLang.Proofs.Scope.Programs
import LoxLang.Proofs.Similar.Numbering
import LoxLang.Proofs.Similar.Parse
import LoxLang.Proofs.Token.Lines

/-!
# Sessions side by side

Two sessions are twins if their machines are and their tables of distances agree on the occurrences that
correspond; the numbers that they give out next need not be the same.  When both run the same source they
are twins again, under a difference that lets the occurrences in the source correspond as well
(`Session.Twin.run`).
-/

namespace LoxLang

open Scoping Evaluation

/-! ### Labels -/

/-- The labels at the same offset among the `k` labels from `n` and from `n'` on. -/
def SameOffset (n n' k id id' : Nat) : Prop := ∃ i < k, id = n + i ∧ id' = n' + i

/-- Labels that are new on both sides correspond to none of the old ones. -/
theorem OneToOne.or {L M : Nat → Nat → Prop} {n n' : Nat} (hL : OneToOne L) (hM : OneToOne M)
    (hold : ∀ id id', L id id' → id < n ∧ id' < n') (hnew : ∀ id id', M id id' → n ≤ id ∧ n' ≤ id') :
    OneToOne fun id id' => L id id' ∨ M id id' := by
  rintro id id' j j' (hid | hid) (hj | hj)
  · exact hL hid hj
  · have := hold _ _ hid
    have := hnew _ _ hj
    omega
  · have := hnew _ _ hid
    have := hold _ _ hj
    omega
  · exact hM hid hj

/-- Labels from `n` and `n'` on correspond to none before. -/
theorem OneToOne.or_sameOffset {L : Nat → Nat → Prop} {n n' : Nat} (h : OneToOne L)
    (hL : ∀ ⦃id id'⦄, L id id' → id < n ∧ id' < n') (k : Nat) :
    OneToOne fun id id' => L id id' ∨ SameOffset n n' k id id' := by
  have hoffset : OneToOne (SameOffset n n' k) := by
    rintro id id' j j' ⟨i, hi, rfl, rfl⟩ ⟨l, hl, rfl, rfl⟩
    omega
  refine h.or hoffset (fun _ _ hid => hL hid) ?_
  rintro id id' ⟨i, hi, rfl, rfl⟩
  omega

/-! ### Reading in both sessions -/

/-- A token of a source corresponds to the same one further down. -/
def MovedDown (k : Nat) (source : String) (t t' : Token) : Prop :=
  t' = t.down k ∧ t ∈ tokensOf (scan source)

namespace Session

variable (s s' : Session)

/-- The programs of similar sources take the same number of labels, and are similar. -/
theorem programs_similar {source source' : String} {K : Token → Token → Prop}
    (h : Stmt.SimilarEach Eq K (statementsOf source) (statementsOf source')) :
    ∃ k, s.nextAfter source = s.nextId + k ∧ s'.nextAfter source' = s'.nextId + k ∧
      ∀ L : NodeId → NodeId → Prop, (∀ i < k, L (s.nextId + i) (s'.nextId + i)) →
        Stmt.SimilarEach L K (s.program source) (s'.program source') :=
  h.numberOccurrences s.nextId s'.nextId

/-- The scope check finds the same errors in a source, however its occurrences are numbered. -/
theorem check_errors_eq (source : String) :
    (check (s'.program source)).errors = (check (s.program source)).errors := by
  obtain ⟨k, -, -, hsimilar⟩ := programs_similar s s' (.refl (statementsOf source))
  have herrors := (check_similar (hsimilar (fun _ _ => True) fun _ _ => trivial)).errors
  generalize (check (s.program source)).errors = es,
    (check (s'.program source)).errors = es' at herrors
  induction herrors with
  | nil => rfl
  | cons he _ ih =>
    obtain ⟨⟨rfl, -, -⟩⟩ := he
    rw [ih]

theorem accepts_eq (source : String) : s'.accepts source = s.accepts source := by
  rw [Bool.eq_iff_iff, accepts_iff, accepts_iff, check_errors_eq s s' source]

/-- Empty lines above a source without errors move its tokens down. -/
theorem read_below {source : String} (h : readErrors source = []) (k : Nat) :
    readErrors (below k source) = [] ∧
      Stmt.SimilarEach Eq (MovedDown k source) (statementsOf source)
        (statementsOf (below k source)) := by
  obtain ⟨hlexical, hparsed⟩ := readErrors_eq_nil_iff.1 h
  have hmoved : List.Forall₂ (Token.Similar (MovedDown k source)) (tokensOf (scan source))
      ((tokensOf (scan source)).map (Token.down k)) :=
    List.forall₂_map_right_iff.2 (List.forall₂_same.2 fun t ht => ⟨⟨rfl, ht⟩, rfl, rfl⟩)
  rw [← tokensOf_scan_below] at hmoved
  obtain ⟨hsimilar, hparsed'⟩ := parse_similar hmoved
  rw [hparsed, List.forall₂_nil_left_iff] at hparsed'
  exact ⟨readErrors_eq_nil_iff.2 ⟨lexicalErrorsOf_scan_below hlexical, hparsed'⟩, hsimilar⟩

theorem read_same {source : String} (h : readErrors source = []) :
    Stmt.SimilarEach Eq (MovedDown 0 source) (statementsOf source) (statementsOf source) := by
  have hsources := (read_below h 0).2
  rwa [below_zero] at hsources

/-- Empty lines above a source do not matter to its acceptance. -/
theorem accepts_below {s : Session} {source : String} (h : s.accepts source = true) (k : Nat) :
    s.accepts (below k source) = true := by
  obtain ⟨hread, hcheck⟩ := accepts_iff.1 h
  obtain ⟨hread', hsources⟩ := read_below hread k
  obtain ⟨l, -, -, hsimilar⟩ := programs_similar s s hsources
  have herrors := (check_similar (hsimilar (fun _ _ => True) fun _ _ => trivial)).errors
  rw [hcheck] at herrors
  exact accepts_iff.2 ⟨hread', List.forall₂_nil_left_iff.1 herrors⟩

end Session

/-! ### Twins -/

/-- The sessions differ in no more than the difference allows, and give out labels that correspond to
none yet. -/
structure Session.Twin (d : Difference) (s s' : Session) : Prop where
  machine : ∃ w, s.machine.Twin d w s'.machine
  table : d.table = s.bindings
  table' : d.table' = s'.bindings
  oneToOne : OneToOne d.labels
  used : ∀ ⦃id id'⦄, d.labels id id' → id < s.nextId ∧ id' < s'.nextId
  unused : ∀ id, s.nextId ≤ id → s.bindings.distance? id = none
  unused' : ∀ id, s'.nextId ≤ id → s'.bindings.distance? id = none

/-- The second difference allows for more than the first one, but of further tokens only those in the
relation may correspond. -/
structure Difference.Adds (K : Token → Token → Prop) (d d₁ : Difference) : Prop where
  within : d.Within d₁
  tokens : ∀ ⦃t t'⦄, d₁.tokens t t' → d.tokens t t' ∨ K t t'

theorem Difference.Adds.refl (K : Token → Token → Prop) (d : Difference) : d.Adds K d :=
  ⟨⟨id, id, rfl, rfl, fun _ => rfl⟩, fun _ _ => .inl⟩

/-- The same outcome and text, and corresponding errors. -/
structure RunReport.Alike (d : Difference) (r r' : RunReport) : Prop where
  outcome : r'.outcome = r.outcome
  printed : r'.printed = r.printed
  errors : List.Forall₂ (fun e e' => ∃ r r', e = .running r ∧ e' = .running r' ∧ r.Alike d r')
    r.errors r'.errors

/-- Runs that end alike come to alike reports, and leave twin machines. -/
theorem Simulates.conclude {d : Difference} {w : World} {m : Machine}
    {r r' : EStateM.Result Unwind Machine Unit} (h : Simulates d (Unwind.Alike d) w m r r')
    (s s' : Session) (hsink : s'.machine.sink = s.machine.sink) :
    (s.conclude r).1.Alike d (s'.conclude r').1 ∧
      ∃ w, (finalMachine r).Twin d w (finalMachine r') := by
  have hprinted {w : World} {m m' : Machine} (ht : m.Twin d w m') :
      m'.sink.written.extract s'.machine.sink.written.size m'.sink.written.size =
        m.sink.written.extract s.machine.sink.written.size m.sink.written.size := by
    rw [hsink, ht.sink]
  cases h with
  | ok _ ht => exact ⟨⟨rfl, hprinted ht, .nil⟩, _, ht⟩
  | error hu _ ht =>
    cases hu with
    | returned => exact ⟨⟨rfl, hprinted ht, .nil⟩, _, ht⟩
    | stopped hs =>
      cases hs with
      | failed he => exact ⟨⟨rfl, hprinted ht, .cons ⟨_, _, rfl, rfl, he⟩ .nil⟩, _, ht⟩
      | exhausted => exact ⟨⟨rfl, hprinted ht, .nil⟩, _, ht⟩

namespace Session.Twin

variable {d : Difference} {s s' : Session}

/-- Numbers may be left out. -/
theorem skip (h : s.Twin d s') {n n' : NodeId} (hn : s.nextId ≤ n) (hn' : s'.nextId ≤ n') :
    Twin d { s with nextId := n } { s' with nextId := n' } :=
  { h with
    used := fun _ _ hid =>
      ⟨Nat.lt_of_lt_of_le (h.used hid).1 hn, Nat.lt_of_lt_of_le (h.used hid).2 hn'⟩
    unused := fun id hid => h.unused id (hn.trans hid)
    unused' := fun id hid => h.unused' id (hn'.trans hid) }

theorem nextId_le_nextAfter (s : Session) (source : String) : s.nextId ≤ s.nextAfter source :=
  (s.program_labels source).1

/-- A source brings distances for labels of its own only. -/
theorem agree_bindingsFor (h : s.Twin d s') (source : String) :
    d.table.Agree d.labels (s'.bindingsFor source) := by
  intro id id' hid
  rw [Session.distance?_bindingsFor (.inl (h.used hid).2), ← h.table', d.distance hid]

/-- The scope check of similar sources, whatever it finds, leaves the sessions twins.  If the tokens of
the sources are related then the two programs are alike. -/
theorem load (h : s.Twin d s') {source source' : String} {K₀ : Token → Token → Prop}
    (hsources : Stmt.SimilarEach Eq K₀ (statementsOf source) (statementsOf source'))
    (K : Token → Token → Prop) :
    ∃ d₁, d.Adds K d₁ ∧
      Twin d₁ ⟨s.machine, s.bindingsFor source, s.nextAfter source⟩
        ⟨s'.machine, s'.bindingsFor source', s'.nextAfter source'⟩ ∧
      (Stmt.SimilarEach Eq K (statementsOf source) (statementsOf source') →
        Stmt.AlikeEach d₁ [] (s.program source) (s'.program source')) := by
  obtain ⟨k, hk, hk', hsimilar⟩ := programs_similar s s' hsources
  -- the labels that corresponded before, and the new ones in their order
  let L : NodeId → NodeId → Prop := fun id id' =>
    d.labels id id' ∨ SameOffset s.nextId s'.nextId k id id'
  have hone : OneToOne L := h.oneToOne.or_sameOffset h.used k
  have hplaces : ∀ i < k, L (s.nextId + i) (s'.nextId + i) := fun i hi => .inr ⟨i, hi, rfl, rfl⟩
  -- new labels have no distance before the check
  have hagree : s.bindings.Agree L s'.bindings := by
    rintro id id' (hid | ⟨i, -, rfl, rfl⟩)
    · rw [← h.table, ← h.table']
      exact d.distance hid
    · rw [h.unused _ (Nat.le_add_right _ _), h.unused' _ (Nat.le_add_right _ _)]
  let d₁ : Difference :=
    { d with
      table := s.bindingsFor source
      table' := s'.bindingsFor source'
      labels := L
      tokens := fun t t' => d.tokens t t' ∨ K t t'
      distance := Bindings.recordUses_similar hone (check_similar (hsimilar L hplaces)).uses hagree }
  have hwithin : d.Within d₁ := by
    refine ⟨.inl, .inl, rfl, rfl, fun {id id'} hid => ?_⟩
    rw [h.table]
    exact Session.distance?_bindingsFor (.inl (h.used hid).1)
  refine ⟨d₁, ⟨hwithin, fun _ _ => id⟩, ?_, fun hown => ?_⟩
  · obtain ⟨w, hm⟩ := h.machine
    refine ⟨⟨w, hm.mono hwithin⟩, rfl, rfl, hone, ?_, fun id hid => ?_, fun id hid => ?_⟩
    · rintro id id' (hid | ⟨i, hi, rfl, rfl⟩)
      · exact ⟨Nat.lt_of_lt_of_le (h.used hid).1 (nextId_le_nextAfter s source),
          Nat.lt_of_lt_of_le (h.used hid).2 (nextId_le_nextAfter s' source')⟩
      · simp only [hk, hk']
        exact ⟨Nat.add_lt_add_left hi _, Nat.add_lt_add_left hi _⟩
    · rw [Session.distance?_bindingsFor (.inr hid)]
      exact h.unused id ((nextId_le_nextAfter s source).trans hid)
    · rw [Session.distance?_bindingsFor (.inr hid)]
      exact h.unused' id ((nextId_le_nextAfter s' source').trans hid)
  -- the programs are numbered in the same way whatever relates their tokens
  · obtain ⟨k', hk₁, -, hown⟩ := programs_similar s s' hown
    obtain rfl : k' = k := Nat.add_left_cancel (hk₁.symm.trans hk)
    exact (hown L hplaces).alike (d := d₁) ⟨id, .inr⟩ List.not_mem_nil

/-- Alike programs of two sources leave the sessions twins, and their reports say the same. -/
theorem runLoaded {source source' : String}
    (h : Twin d ⟨s.machine, s.bindingsFor source, s.nextAfter source⟩
      ⟨s'.machine, s'.bindingsFor source', s'.nextAfter source'⟩)
    (haccepts : s.accepts source = true) (haccepts' : s'.accepts source' = true)
    (halike : Stmt.AlikeEach d [] (s.program source) (s'.program source')) (fuel : Nat) :
    (s.run fuel source).2.Twin d (s'.run fuel source').2 ∧
      (s.run fuel source).1.Alike d (s'.run fuel source').1 := by
  obtain ⟨w, hm⟩ := h.machine
  have hready : s.ready.Twin d w s'.ready := { hm with scope := rfl, depth := rfl }
  have hrun := (simulatesAll d fuel).execEach hready
    (show Chain w s.ready.heap.frames [] globalFrame from rfl) halike
  rw [h.table, h.table'] at hrun
  obtain ⟨hreport, hmachine⟩ := hrun.conclude (s.loaded source) (s'.loaded source') hm.sink
  rw [run_accepted haccepts, run_accepted haccepts']
  refine ⟨?_, hreport⟩
  rw [conclude_snd, conclude_snd]
  exact { h with machine := hmachine }

/-- After the same source the sessions are twins again, and their reports say the same. -/
theorem run (h : s.Twin d s') (fuel : Nat) (source : String) :
    ∃ d₁, d.Adds (MovedDown 0 source) d₁ ∧ (s.run fuel source).2.Twin d₁ (s'.run fuel source).2 ∧
      ((s'.run fuel source).1 = (s.run fuel source).1 ∨
        (s.run fuel source).1.Alike d₁ (s'.run fuel source).1) := by
  by_cases hread : readErrors source = []
  · obtain ⟨d₁, hd, htwin, halike⟩ := h.load (.refl (statementsOf source)) (MovedDown 0 source)
    by_cases hscopes : (check (s.program source)).errors = []
    · have haccepts := accepts_iff.2 ⟨hread, hscopes⟩
      have hrun := htwin.runLoaded haccepts ((accepts_eq s s' source).trans haccepts)
        (halike (read_same hread)) fuel
      exact ⟨d₁, hd, hrun.1, .inr hrun.2⟩
    -- the distances that the check noted before its errors stay in both tables
    · have hscopes' := hscopes
      rw [← check_errors_eq s s' source] at hscopes'
      rw [run_misscoped hread hscopes, run_misscoped hread hscopes', check_errors_eq s s' source]
      exact ⟨d₁, hd, htwin, .inl rfl⟩
  · rw [run_unread hread, run_unread hread]
    exact ⟨d, .refl _ d, h.skip (nextId_le_nextAfter s source) (nextId_le_nextAfter s' source),
      .inl rfl⟩

/-- A source and the same one below empty lines leave the sessions twins, and their reports say the
same at tokens that have moved down. -/
theorem runBelow (h : s.Twin d s') {source : String} (haccepts : s.accepts source = true)
    (k fuel : Nat) :
    ∃ d₁, d.Adds (MovedDown k source) d₁ ∧
      (s.run fuel source).2.Twin d₁ (s'.run fuel (below k source)).2 ∧
      (s.run fuel source).1.Alike d₁ (s'.run fuel (below k source)).1 := by
  have hsources := (read_below (accepts_iff.1 haccepts).1 k).2
  obtain ⟨d₁, hd, htwin, halike⟩ := h.load hsources (MovedDown k source)
  have haccepts' := accepts_below ((accepts_eq s s' source).trans haccepts) k
  exact ⟨d₁, hd, htwin.runLoaded haccepts haccepts' (halike hsources) fuel⟩

end Session.Twin

end LoxLang
