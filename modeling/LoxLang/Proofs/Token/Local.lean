import LoxLang.Proofs.Token.Longest

/-!
# Lines are read on their own

Nothing but the line is carried over a line break: the items of a text that stands below another one are
those of the text by itself, further down, and above them stand those of the other text, errors and all
(`scan_is_local`).  Only a string that has no end goes on over the line break, and it takes whatever
follows (`Scan.Lexes.unterminated_last`).
-/

namespace LoxLang

/-- The last item before the end of the input is a string without an end. -/
def EndsInString (source : String) : Prop :=
  ∃ items line end', scan source = items ++ [.error ⟨line, .unterminatedString⟩, .token end']

/-- After a string without an end comes the end of the input. -/
theorem Scan.Lexes.unterminated_last {line line' : Nat} {cs : List Char} {items : List Item}
    (h : Lexes line cs items) (hmem : .error ⟨line', .unterminatedString⟩ ∈ items) :
    ∃ before end', items = before ++ [.error ⟨line', .unterminatedString⟩, .token end'] := by
  induction h with
  | done => exact absurd hmem (by simp)
  | gap _ _ ih => exact ih hmem
  | token _ _ ih =>
    obtain ⟨before, end', rfl⟩ := ih ((List.mem_cons.1 hmem).resolve_left nofun)
    exact ⟨_ :: before, end', rfl⟩
  | unexpected _ _ _ ih =>
    obtain ⟨before, end', rfl⟩ := ih ((List.mem_cons.1 hmem).resolve_left nofun)
    exact ⟨_ :: before, end', rfl⟩
  | unterminated _ hrest _ =>
    obtain rfl := Lexes.eq_scanFrom hrest
    obtain heq | hmem := List.mem_cons.1 hmem
    · exact ⟨[], _, by rw [heq]; rfl⟩
    · exact absurd hmem (by simp [scanFrom])

/-- A string without an end is found only where the source ends in one. -/
theorem endsInString_iff {source : String} :
    EndsInString source ↔ ∃ line, .error ⟨line, .unterminatedString⟩ ∈ scan source := by
  constructor
  · rintro ⟨items, line, end', h⟩
    exact ⟨line, by simp [h]⟩
  · rintro ⟨line, h⟩
    obtain ⟨items, end', h⟩ := (Scan.lexes_scanFrom 1 source.toList).unterminated_last h
    exact ⟨items, line, end', h⟩

/-- The items of a source that does not end inside a string, and of another one on the lines below it, are
those of the first one up to the end of the input, and then those of the other one so many lines further
down. -/
theorem scan_is_local {A : String} (hA : ¬ EndsInString A) (B : String) :
    ∃ items, scan A = items ++ [.token (Scan.endOn (linesOf A))] ∧
      scan (A ++ "\n" ++ B) = items ++ (scan B).map (Item.down (linesOf A)) := by
  obtain ⟨items, hitems, -, hjoin⟩ :=
    scan_join (fun line h => hA (endsInString_iff.2 ⟨line, h⟩)) B
  exact ⟨items, hitems, by rw [hjoin, scan_below]⟩

/-- An error, an operator that is cut short and a comment with a quote, and below them an equals sign and
a string without an end. -/
theorem operator_cut_by_line_break :
    ¬ EndsInString "# ! // \"" ∧ ∃ items,
      scan "# ! // \"" = items ++ [.token (Scan.endOn 1)] ∧
      scan ("# ! // \"" ++ "\n" ++ "=\n\"") = items ++ (scan "=\n\"").map (Item.down 1) := by
  have hscan : scan "# ! // \"" =
      [.error ⟨1, .unexpectedCharacter '#'⟩, .token ⟨.symbol .bang, "!", 1⟩,
        .token (Scan.endOn 1)] := by
    rfl
  have hA : ¬ EndsInString "# ! // \"" := by
    rw [endsInString_iff, hscan]
    simp
  exact ⟨hA, scan_is_local hA "=\n\""⟩

end LoxLang
