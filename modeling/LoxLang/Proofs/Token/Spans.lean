import LoxLang.Proofs.Token.Fillers

/-!
# Where the items of a text stand

Every item but the end of the input stands in a piece of the text, a `Span`.  The spans lie one after
the other, what is between them is filler, and the line of an item is the line on which its span ends
(`scan_spans`).  So nothing of the text is lost, and nothing is read twice.

The ends of a span are positions between two characters, and `Span.text` is what stands between
them.
-/

namespace LoxLang

variable {source : String}

/-- A piece of the text that is not empty. -/
structure Span (source : String) where
  start : source.Pos
  stop : source.Pos
  start_lt_stop : start < stop

/-- The text of the span. -/
def Span.text (s : Span source) : String := String.extract s.start s.stop

/-- The number of line breaks before the position, counted from one. -/
def lineAt (p : source.Pos) : Nat := 1 + (String.extract source.startPos p).toList.count '\n'

/-- The span is that of the item: the text that the token or the error stands for, up to the line it
has. -/
def Item.Covers : Item → Span source → Prop
  | token t, s => t.isEnd = false ∧ s.text = t.lexeme ∧ t.line = lineAt s.stop ∧
      ∀ contents, t.kind = .string contents → t.lexeme = "\"" ++ contents ++ "\""
  | error ⟨line, .unexpectedCharacter c⟩, s => s.text = String.singleton c ∧ line = lineAt s.stop
  | error ⟨line, .unterminatedString⟩, s => s.stop = source.endPos ∧ line = lineAt s.stop ∧
      ∃ contents, s.text = "\"" ++ contents ∧ '"' ∉ contents.toList

/-- From the position on, the text consists of the spans in their order, with filler before, between
and after them. -/
def Covered (p : source.Pos) : List (Span source) → Prop
  | [] => Scan.FinalFiller (String.extract p source.endPos).toList
  | s :: spans => p ≤ s.start ∧ Scan.Filler (String.extract p s.start).toList ∧
      Covered s.stop spans

/-! ### Positions -/

theorem extract_of_splits {p q : source.Pos} {before text after : String}
    (hp : p.Splits before (text ++ after)) (hq : q.Splits (before ++ text) after) :
    String.extract p q = text := by
  obtain ⟨hle, htext⟩ := String.copy_slice_eq_iff_splits.2 ⟨_, _, hp, hq⟩
  rw [String.extract_eq_copy_slice p q hle, htext]

/-- The position after a piece of the text. -/
theorem exists_splits {p : source.Pos} {before text after : String}
    (hp : p.Splits before (text ++ after)) : ∃ q : source.Pos, q.Splits (before ++ text) after :=
  ⟨.ofEqAppend (by rw [hp.eq_append, String.append_assoc]), String.Pos.splits_ofEqAppend _⟩

theorem le_of_splits {p q : source.Pos} {before text after : String}
    (hp : p.Splits before (text ++ after)) (hq : q.Splits (before ++ text) after) : p ≤ q :=
  (hp.le_iff_exists_eq_append hq).2 ⟨text, rfl, rfl⟩

theorem lt_of_splits {p q : source.Pos} {before text after : String}
    (hp : p.Splits before (text ++ after)) (hq : q.Splits (before ++ text) after)
    (htext : text ≠ "") : p < q :=
  (hp.lt_iff_exists_eq_append hq).2 ⟨text, htext, rfl, rfl⟩

theorem lineAt_of_splits {p : source.Pos} {before after : String} (hp : p.Splits before after) :
    lineAt p = 1 + before.toList.count '\n' := by
  have hstart : source.startPos.Splits "" (before ++ after) := by
    rw [← hp.eq_append]
    exact String.splits_startPos source
  rw [lineAt, extract_of_splits hstart (by rwa [String.empty_append])]

/-- The line of a position further down. -/
theorem lineAt_add {p q : source.Pos} {before text after : String}
    (hp : p.Splits before (text ++ after)) (hq : q.Splits (before ++ text) after) :
    lineAt q = lineAt p + text.toList.count '\n' := by
  rw [lineAt_of_splits hp, lineAt_of_splits hq, String.toList_append, List.count_append,
    Nat.add_assoc]

/-! ### All items -/

/-- A lexeme that is no blank or comment yields an item, which stands where the lexeme does. -/
theorem Scan.exists_covers {c : Char} {cs rest : List Char} {s : Span source} {before : String}
    (hstop : s.stop.Splits before (String.ofList rest))
    (htext : s.text = String.ofList (munch c cs).text)
    (hrest : (munch c cs).text ++ rest = c :: cs) (hgap : (munch c cs).lexeme ≠ .gap) :
    ∃ item, (munch c cs).item? (lineAt s.stop) = some item ∧ item.Covers s := by
  have hfits := munch_fits c cs
  unfold Munch.Fits at hfits
  unfold Munch.item?
  cases hlexeme : (munch c cs).lexeme with
  | gap => exact absurd hlexeme hgap
  | token kind =>
    refine ⟨_, rfl, munch_isEnd hlexeme, htext, rfl, fun contents hkind => ?_⟩
    obtain rfl : kind = .string contents := hkind
    rw [hlexeme] at hfits
    rw [hfits]
    simp [String.ext_iff]
  | fault f =>
    rw [hlexeme] at hfits
    refine ⟨_, rfl, ?_⟩
    cases f with
    | unexpectedCharacter d => exact ⟨by rw [htext, hfits]; rfl, rfl⟩
    | unterminatedString =>
      obtain ⟨hquote, hcs⟩ := hfits
      obtain rfl : rest = [] := by
        have hlength := congrArg List.length hrest
        rw [hquote, List.length_append, List.length_cons, List.length_cons] at hlength
        exact List.length_eq_zero_iff.1 (by omega)
      refine ⟨?_, rfl, String.ofList cs, ?_, by rwa [String.toList_ofList]⟩
      · have hall : before = source := by simpa using hstop.eq_append.symm
        rw [hall] at hstop
        exact hstop.pos_eq (String.splits_endPos source)
      · rw [htext, hquote]
        simp

/-- The items of what follows a position. -/
theorem scanFrom_spans {p : source.Pos} {before after : String} (hp : p.Splits before after) :
    ∃ items spans, Scan.scanFrom (lineAt p) 0 after.toList =
        items ++ [.token ⟨.symbol .endOfInput, "", lineAt source.endPos⟩] ∧
      List.Forall₂ Item.Covers items spans ∧ Covered p spans := by
  -- on the length of what follows: a filler, a lexeme, and what follows the lexeme
  induction hn : after.toList.length using Nat.strongRecOn generalizing p before after with
  | _ n ih =>
  subst hn
  rcases Scan.filler_or_lexeme after.toList with hend | ⟨w, c, cs, hafter, hw, hlexeme⟩
  · have hsplits : p.Splits before (after ++ "") := by rwa [String.append_empty]
    have hstop : source.endPos.Splits (before ++ after) "" :=
      String.splits_endPos_iff.2 ⟨hp.eq_append.symm, rfl⟩
    refine ⟨[], [], ?_, .nil, ?_⟩
    · rw [Scan.scanFrom_finalFiller hend, lineAt_add hsplits hstop]
      rfl
    · rwa [Covered, extract_of_splits hsplits hstop]
  · obtain ⟨rest, hrest⟩ := Scan.munch_prefix c cs
    obtain rfl : after = String.ofList w ++
        (String.ofList (Scan.munch c cs).text ++ String.ofList rest) := by
      rw [← String.ofList_append, ← String.ofList_append, hrest, ← hafter, String.ofList_toList]
    obtain ⟨a, ha⟩ := exists_splits hp
    obtain ⟨b, hb⟩ := exists_splits ha
    have hne := Scan.munch_text_ne_nil c cs
    obtain ⟨item, hitem, hcovers⟩ := Scan.exists_covers
      (s := ⟨a, b, lt_of_splits ha hb (by simpa using hne)⟩) hb (extract_of_splits ha hb) hrest
      hlexeme
    have hshort : (String.ofList rest).toList.length < (String.ofList w ++
        (String.ofList (Scan.munch c cs).text ++ String.ofList rest)).toList.length := by
      have := List.length_pos_of_ne_nil hne
      simp
      omega
    obtain ⟨items, spans, hscan, hitems, hspans⟩ := ih _ hshort hb rfl
    refine ⟨item :: items, _ :: spans, ?_, .cons hcovers hitems, le_of_splits hp ha, ?_, hspans⟩
    · have hline : lineAt a = lineAt p + w.count '\n' := by
        rw [lineAt_add hp ha, String.toList_ofList]
      have hline' : lineAt b = lineAt a + (Scan.munch c cs).text.count '\n' := by
        rw [lineAt_add ha hb, String.toList_ofList]
      rw [String.toList_ofList] at hscan
      rw [hafter, Scan.scanFrom_filler hw, ← hline, Scan.scanFrom_lexeme hrest, ← hline', hitem,
        hscan]
      rfl
    · rwa [extract_of_splits hp ha, String.toList_ofList]

/-- The spans lie after the position. -/
theorem Covered.le {p : source.Pos} {spans : List (Span source)} (h : Covered p spans)
    {s : Span source} (hs : s ∈ spans) : p ≤ s.start := by
  induction spans generalizing p with
  | nil => cases hs
  | cons s' spans ih =>
    obtain ⟨hle, -, hspans⟩ := h
    rcases List.mem_cons.1 hs with rfl | hs
    · exact hle
    · have hstop : s'.start ≤ s'.stop := String.Pos.le_of_lt s'.start_lt_stop
      exact String.Pos.le_trans hle (String.Pos.le_trans hstop (ih hspans hs))

/-- The spans lie one after the other. -/
theorem Covered.pairwise {p : source.Pos} {spans : List (Span source)} (h : Covered p spans) :
    spans.Pairwise fun s t => s.stop ≤ t.start := by
  induction spans generalizing p with
  | nil => exact .nil
  | cons s spans ih =>
    obtain ⟨-, -, hspans⟩ := h
    exact .cons (fun t ht => hspans.le ht) (ih hspans)

/-- Reading ends with the end of the input, which stands on the last line, and every other item
stands in a span of the text.  The spans lie one after the other; what is left of the text are blanks
and comments. -/
theorem scan_spans (source : String) :
    ∃ (items : List Item) (spans : List (Span source)),
      scan source = items ++ [.token ⟨.symbol .endOfInput, "", lineAt source.endPos⟩] ∧
      List.Forall₂ Item.Covers items spans ∧ spans.Pairwise (fun s t => s.stop ≤ t.start) ∧
      Covered source.startPos spans := by
  have hstart := String.splits_startPos source
  obtain ⟨items, spans, hscan, hitems, hspans⟩ := scanFrom_spans hstart
  rw [lineAt_of_splits hstart] at hscan
  exact ⟨items, spans, hscan, hitems, hspans.pairwise, hspans⟩

end LoxLang
