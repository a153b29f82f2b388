import LoxLang.Proofs.Drawn.Labels
import LoxLang.Proofs.Drawn.Numbering
import LoxLang.Proofs.Session.Answers

/-!
# Sessions that draw their numbers

Where the numbers of name occurrences come from is a matter of reading a source: `Numbering.read` numbers
the trees when they have been parsed, or draws the numbers while it parses.  All else that a session does
with a source starts from the program that has been read (`Session.runProgram`).

Both ways give every label of a program a number of its own that no earlier program has
(`Numbering.fresh`), and a session shows the same in both (`Session.answersBy_eq`).
-/

namespace LoxLang

open Scoping Evaluation

/-- How the labels of a program come to their numbers. -/
inductive Numbering where
  /-- One after another, when the whole source has been parsed. -/
  | afterwards
  /-- Drawn while the source is parsed, for each node when it is built. -/
  | drawn

/-- Reads and parses a source, with numbers for its labels from `nextId` on. -/
def Numbering.read : Numbering → NodeId → String → SourceProgram
  | .afterwards, nextId, source => SourceProgram.of nextId source
  | .drawn, nextId, source =>
    let items := scan source
    let parsed := parseDrawing nextId (tokensOf items)
    { statements := parsed.statements
      nextId := parsed.nextId
      errors := (lexicalErrorsOf items).map .lexical ++ parsed.errors.map .syntactic }

/-- The labels of the program differ, and are numbers from `n` up to the next unused one. -/
structure SourceProgram.Fresh (n : NodeId) (p : SourceProgram) : Prop where
  le : n ≤ p.nextId
  nodup : (Stmt.labelsEach p.statements).Nodup
  bounds : ∀ id ∈ Stmt.labelsEach p.statements, n ≤ id ∧ id < p.nextId

/-- However a program is numbered, its labels are fresh. -/
theorem Numbering.fresh (k : Numbering) (n : NodeId) (source : String) : (k.read n source).Fresh n := by
  cases k with
  | afterwards =>
    have hlabels := numberOccurrences_labels n (Session.statementsOf source)
    exact ⟨hlabels.1, hlabels.nodup, fun id => hlabels.mem_iff.1⟩
  | drawn =>
    obtain ⟨-, -, drawn, hdrawn, hlabels⟩ := parseDrawing_spec n (tokensOf (scan source))
    obtain ⟨kept, hperm, hsublist⟩ := hlabels
    exact ⟨hdrawn.1, hperm.nodup_iff.1 (hsublist.nodup hdrawn.nodup),
      fun id hid => hdrawn.mem_iff.1 (hsublist.subset (hperm.mem_iff.2 hid))⟩

/-! ### Runs of programs -/

namespace Session

/-- Runs a program that has been read: errors of reading and parsing keep it from scope checking, and
errors of scope checking from running. -/
def runProgram (s : Session) (fuel : Nat) (p : SourceProgram) : RunReport × Session :=
  let s := { s with nextId := p.nextId }
  if !p.errors.isEmpty then (⟨.staticError, .empty, p.errors⟩, s)
  else
    let (errors, s) := s.checkScopes p.statements
    if !errors.isEmpty then (⟨.staticError, .empty, errors⟩, s)
    else s.execute fuel p.statements

/-- A session runs the program that it reads. -/
theorem run_eq_runProgram (s : Session) (fuel : Nat) (source : String) :
    s.run fuel source = s.runProgram fuel (Numbering.afterwards.read s.nextId source) := rfl

/-- The session after the scope check of a program, with the distances that it has found. -/
def checked (s : Session) (p : SourceProgram) : Session :=
  ⟨s.machine, s.bindings.recordUses (check p.statements).uses, p.nextId⟩

/-- The check brings distances for labels of its own program only. -/
theorem distance?_checked {s : Session} {p : SourceProgram} (hp : p.Fresh s.nextId) {id : NodeId}
    (h : id < s.nextId ∨ p.nextId ≤ id) :
    (s.checked p).bindings.distance? id = s.bindings.distance? id := by
  refine Bindings.distance?_recordUses_of_notMem (fun hmem => ?_) _
  obtain ⟨u, hu, rfl⟩ := List.mem_map.1 hmem
  obtain ⟨hle, hlt⟩ := hp.bounds u.id (Visit.mem_labels_of_mem_uses (v := .program p.statements) hu)
  rcases h with h | h
  · exact Nat.not_lt_of_le hle h
  · exact Nat.not_lt_of_le h hlt

section

variable {s : Session} {p : SourceProgram}

theorem runProgram_unread (h : p.errors ≠ []) (fuel : Nat) :
    s.runProgram fuel p = (⟨.staticError, .empty, p.errors⟩, { s with nextId := p.nextId }) := by
  have hread : p.errors.isEmpty = false := List.isEmpty_eq_false_iff.2 h
  simp only [runProgram, hread, Bool.not_false, if_true]

theorem runProgram_misscoped (hread : p.errors = []) (h : (check p.statements).errors ≠ [])
    (fuel : Nat) :
    s.runProgram fuel p =
      (⟨.staticError, .empty, (check p.statements).errors.map .scoping⟩, s.checked p) := by
  have hscopes : (check p.statements).errors.isEmpty = false := List.isEmpty_eq_false_iff.2 h
  simp only [runProgram, hread, List.isEmpty_nil, Bool.not_true, Bool.false_eq_true, if_false,
    checkScopes, List.isEmpty_map, hscopes, Bool.not_false, if_true]
  rfl

theorem runProgram_accepted (hread : p.errors = []) (h : (check p.statements).errors = [])
    (fuel : Nat) :
    s.runProgram fuel p =
      (s.checked p).conclude
        (execEach (s.checked p).bindings fuel p.statements s.ready) := by
  simp only [runProgram, hread, List.isEmpty_nil, Bool.not_true, Bool.false_eq_true, if_false,
    checkScopes, h, List.map_nil, execute_eq]
  rfl

end

/-! ### Steps of a session -/

/-- The answer to a step, and the session after it, if sources are numbered in the given way. -/
def answerBy (k : Numbering) (s : Session) : SessionStep → Answer × Session
  | .run fuel source =>
    let (report, s) := s.runProgram fuel (k.read s.nextId source)
    (.report report, s)
  | step => s.answer step

/-- The answers to steps one after another. -/
def answersBy (k : Numbering) (s : Session) : List SessionStep → List Answer
  | [] => []
  | step :: steps => (s.answerBy k step).1 :: (s.answerBy k step).2.answersBy k steps

/-- The session after steps one after another. -/
def afterBy (k : Numbering) (s : Session) (steps : List SessionStep) : Session :=
  steps.foldl (fun s step => (s.answerBy k step).2) s

/-- The programs that steps one after another read, those that are refused included. -/
def programsBy (k : Numbering) (s : Session) : List SessionStep → List (List (Stmt NodeId))
  | [] => []
  | .run fuel source :: steps =>
    (k.read s.nextId source).statements ::
      (s.answerBy k (.run fuel source)).2.programsBy k steps
  | step :: steps => (s.answerBy k step).2.programsBy k steps

theorem answerBy_afterwards (s : Session) (step : SessionStep) :
    s.answerBy .afterwards step = s.answer step := by
  cases step with
  | run fuel source => rw [answerBy, answer, run_eq_runProgram]
  | get name => rfl
  | eq left right => rfl

end Session

/-! ### Both numberings show the same -/

/-- The numbers from `n` on correspond to the labels in the list, in this order. -/
def InOrder (n : NodeId) (ls : List NodeId) (id id' : NodeId) : Prop :=
  ∃ i, id = n + i ∧ ls[i]? = some id'

theorem oneToOne_inOrder {ls : List NodeId} (h : ls.Nodup) (n : NodeId) : OneToOne (InOrder n ls) := by
  rintro id id' j j' ⟨i, rfl, hi⟩ ⟨l, rfl, hl⟩
  refine ⟨fun heq => ?_, fun heq => ?_⟩
  · obtain ⟨hlt, -⟩ := List.getElem?_eq_some_iff.1 hl
    rw [(List.getElem?_inj hlt h).1 (hl.trans (heq ▸ hi.symm))]
  · rw [Nat.add_left_cancel heq, hi] at hl
    exact (Option.some.inj hl).symm

/-- The programs have the same errors and are the same but for their labels, which correspond one to one. -/
structure SourceProgram.Relabelled (M : NodeId → NodeId → Prop) (p p' : SourceProgram) : Prop where
  errors : p'.errors = p.errors
  oneToOne : OneToOne M
  labels : ∀ id id', M id id' →
    id ∈ Stmt.labelsEach p.statements ∧ id' ∈ Stmt.labelsEach p'.statements
  similar : ∀ L : NodeId → NodeId → Prop, (∀ id id', M id id' → L id id') →
    Stmt.SimilarEach L Eq p.statements p'.statements

/-- The program of a source, numbered in the two ways. -/
theorem Numbering.relabelled (n n' : NodeId) (source : String) :
    ∃ M, SourceProgram.Relabelled M (afterwards.read n source) (drawn.read n' source) := by
  obtain ⟨hsame, herrors, -⟩ := parseDrawing_spec n' (tokensOf (scan source))
  obtain ⟨hnext, hsimilar⟩ := hsame.numbered n
  have hlabels := numberOccurrences_labels n (Session.statementsOf source)
  refine ⟨InOrder n (Stmt.labelsEach (drawn.read n' source).statements), ?_,
    oneToOne_inOrder (drawn.fresh n' source).nodup n, ?_, ?_⟩
  · simp only [read, SourceProgram.of, herrors]
  · rintro id id' ⟨i, rfl, hi⟩
    obtain ⟨hlt, -⟩ := List.getElem?_eq_some_iff.1 hi
    refine ⟨hlabels.mem_iff.2 ⟨Nat.le_add_right _ _, ?_⟩, List.mem_of_getElem? hi⟩
    exact (Nat.add_lt_add_left hlt n).trans_eq hnext.symm
  · exact fun L hL => hsimilar L fun i id hi => hL _ _ ⟨i, rfl, hi⟩

theorem ScopeError.eq_of_similar {es es' : List ScopeError}
    (h : List.Forall₂ (ScopeError.Similar Eq) es es') : es' = es := by
  induction h with
  | nil => rfl
  | cons he _ ih =>
    obtain ⟨⟨rfl, -, -⟩⟩ := he
    rw [ih]

namespace Session

variable {d : Difference} {s s' : Session} {p p' : SourceProgram} {M : NodeId → NodeId → Prop}

/-- After the scope check of two programs that are the same but for their fresh labels, twin sessions are
twins in which these labels correspond as well. -/
theorem Twin.checked (h : s.Twin d s') (hp : p.Fresh s.nextId) (hp' : p'.Fresh s'.nextId)
    (hM : p.Relabelled M p') :
    ∃ d₁ : Difference, d.Adds Eq d₁ ∧ (s.checked p).Twin d₁ (s'.checked p') ∧
      Stmt.AlikeEach d₁ [] p.statements p'.statements := by
  -- the labels that corresponded before, and the new ones
  let L : NodeId → NodeId → Prop := fun id id' => d.labels id id' ∨ M id id'
  have hnew {id id' : NodeId} (hid : M id id') :
      (s.nextId ≤ id ∧ id < p.nextId) ∧ (s'.nextId ≤ id' ∧ id' < p'.nextId) :=
    ⟨hp.bounds id (hM.labels id id' hid).1, hp'.bounds id' (hM.labels id id' hid).2⟩
  have honeL : OneToOne L := h.oneToOne.or hM.oneToOne (fun _ _ => @h.used _ _) fun _ _ hid =>
    ⟨(hnew hid).1.1, (hnew hid).2.1⟩
  -- new labels have no distance before the check
  have hagree : s.bindings.Agree L s'.bindings := by
    rintro id id' (hid | hid)
    · rw [← h.table, ← h.table']
      exact d.distance hid
    · rw [h.unused _ (hnew hid).1.1, h.unused' _ (hnew hid).2.1]
  have hprograms := hM.similar L fun _ _ => .inr
  let d₁ : Difference :=
    { d with
      table := (s.checked p).bindings
      table' := (s'.checked p').bindings
      labels := L
      tokens := fun t t' => d.tokens t t' ∨ t = t'
      distance := Bindings.recordUses_similar honeL (check_similar hprograms).uses hagree }
  have hwithin : d.Within d₁ := by
    refine ⟨.inl, .inl, rfl, rfl, fun {id id'} hid => ?_⟩
    rw [h.table]
    exact distance?_checked hp (.inl (h.used hid).1)
  obtain ⟨w, hm⟩ := h.machine
  refine ⟨d₁, ⟨hwithin, fun _ _ => id⟩, ?_, hprograms.alike (d := d₁) ⟨id, .inr⟩ List.not_mem_nil⟩
  refine ⟨⟨w, hm.mono hwithin⟩, rfl, rfl, honeL, ?_, fun id hid => ?_, fun id hid => ?_⟩
  · rintro id id' (hid | hid)
    · exact ⟨Nat.lt_of_lt_of_le (h.used hid).1 hp.le, Nat.lt_of_lt_of_le (h.used hid).2 hp'.le⟩
    · exact ⟨(hnew hid).1.2, (hnew hid).2.2⟩
  · rw [distance?_checked hp (.inr hid)]
    exact h.unused id (hp.le.trans hid)
  · rw [distance?_checked hp' (.inr hid)]
    exact h.unused' id (hp'.le.trans hid)

/-- Twin sessions run the two programs alike. -/
theorem Twin.runProgram (h : s.Twin d s') (hd : d.Plain) (hp : p.Fresh s.nextId)
    (hp' : p'.Fresh s'.nextId) (hM : p.Relabelled M p') (fuel : Nat) :
    (s'.runProgram fuel p').1 = (s.runProgram fuel p).1 ∧
      ∃ d₁ : Difference, d₁.Plain ∧ (s.runProgram fuel p).2.Twin d₁ (s'.runProgram fuel p').2 := by
  by_cases hread : p.errors = []
  · have hread' : p'.errors = [] := hM.errors.trans hread
    obtain ⟨d₁, hadds, htwin, halike⟩ := h.checked hp hp' hM
    have hd₁ : d₁.Plain :=
      ⟨fun t t' ht => (hadds.tokens ht).elim (fun ht => hd.tokens ht) Eq.symm, by
        rw [hadds.within.old, hadds.within.new, hd.names]⟩
    have hscopes : (check p'.statements).errors = (check p.statements).errors :=
      ScopeError.eq_of_similar (check_similar (hM.similar M fun _ _ => id)).errors
    by_cases hnone : (check p.statements).errors = []
    · obtain ⟨w, hm⟩ := htwin.machine
      have hready : s.ready.Twin d₁ w s'.ready := { hm with scope := rfl, depth := rfl }
      have hrun := (simulatesAll d₁ fuel).execEach hready
        (show Chain w s.ready.heap.frames [] globalFrame from rfl) halike
      rw [htwin.table, htwin.table'] at hrun
      obtain ⟨hreport, hmachine⟩ := hrun.conclude (s.checked p) (s'.checked p') hm.sink
      rw [runProgram_accepted hread hnone, runProgram_accepted hread' (hscopes.trans hnone)]
      refine ⟨hreport.eq hd₁, d₁, hd₁, ?_⟩
      rw [conclude_snd, conclude_snd]
      exact { htwin with machine := hmachine }
    · rw [runProgram_misscoped hread hnone, runProgram_misscoped hread' (hscopes ▸ hnone), hscopes]
      exact ⟨rfl, d₁, hd₁, htwin⟩
  · rw [runProgram_unread hread, runProgram_unread (hM.errors ▸ hread), hM.errors]
    exact ⟨rfl, d, hd, h.skip hp.le hp'.le⟩

/-- The answer to a step is the same if the numbers are drawn. -/
theorem Twin.answerBy (h : s.Twin d s') (hd : d.Plain) (step : SessionStep) :
    (s'.answerBy .drawn step).1 = (s.answer step).1 ∧
      ∃ d₁ : Difference, d₁.Plain ∧ (s.answer step).2.Twin d₁ (s'.answerBy .drawn step).2 := by
  cases step with
  | run fuel source =>
    obtain ⟨M, hM⟩ := Numbering.relabelled s.nextId s'.nextId source
    obtain ⟨hreport, d₁, hd₁, htwin⟩ := h.runProgram hd (Numbering.afterwards.fresh _ source)
      (Numbering.drawn.fresh _ source) hM fuel
    exact ⟨congrArg Answer.report hreport, d₁, hd₁, htwin⟩
  | get name =>
    obtain ⟨w, hm⟩ := h.machine
    exact ⟨congrArg Answer.value (see?_eq hm name), d, hd, h⟩
  | eq left right =>
    obtain ⟨w, hm⟩ := h.machine
    have hglobal (name : String) : s'.global? name = s.global? name := hm.global name
    exact ⟨by simp only [Session.answerBy, Session.answer, hglobal], d, hd, h⟩

theorem Twin.answersBy (h : s.Twin d s') (hd : d.Plain) (steps : List SessionStep) :
    s'.answersBy .drawn steps = s.answers steps := by
  induction steps generalizing d s s' with
  | nil => rfl
  | cons step steps ih =>
    obtain ⟨hanswer, d₁, hd₁, htwin⟩ := h.answerBy hd step
    rw [Session.answersBy, Session.answers, hanswer, ih htwin hd₁]

theorem answersBy_afterwards (s : Session) (steps : List SessionStep) :
    s.answersBy .afterwards steps = s.answers steps := by
  induction steps generalizing s with
  | nil => rfl
  | cons step steps ih => rw [answersBy, answers, answerBy_afterwards, ih]

/-- A session shows the same, however it numbers its programs. -/
theorem answersBy_eq (k : Numbering) (limit? : Option Nat) (clock : Clock)
    (steps : List SessionStep) :
    (start limit? clock).answersBy k steps = (start limit? clock).answers steps := by
  cases k with
  | afterwards => exact answersBy_afterwards _ steps
  | drawn => exact (twin_start limit? clock).answersBy Difference.plain_none steps

end Session

end LoxLang
