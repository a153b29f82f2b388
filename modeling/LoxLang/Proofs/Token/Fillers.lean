import LoxLang.Proofs.Token.Lines
import Mathlib.Data.List.TakeWhile

/-!
# Text between tokens

A `Filler` is made of blanks, and of comments with the line break that ends them.  The reader passes
over it and counts its lines (`scanFrom_filler`).  Every text begins with a filler, after which there
is a lexeme that yields an item, or else no item at all (`filler_or_lexeme`); only after the last item
may a comment end with the text (`FinalFiller`).
-/

namespace LoxLang

namespace Scan

/-- Blanks, and comments that end with their line. -/
inductive Filler : List Char → Prop where
  | nil : Filler []
  | blank {c w} : isBlank c = true → Filler w → Filler (c :: w)
  | comment {text w} : '\n' ∉ text → Filler w → Filler ('/' :: '/' :: (text ++ '\n' :: w))

/-- A filler, after which there may be a comment that ends with the text. -/
inductive FinalFiller : List Char → Prop where
  | filler {w} : Filler w → FinalFiller w
  | comment {text w} : Filler w → '\n' ∉ text → FinalFiller (w ++ '/' :: '/' :: text)

theorem FinalFiller.blank {c : Char} {w : List Char} (hc : isBlank c = true) (h : FinalFiller w) :
    FinalFiller (c :: w) := by
  cases h with
  | filler h => exact .filler (.blank hc h)
  | comment h htext => exact .comment (.blank hc h) htext

theorem FinalFiller.comment_line {text w : List Char} (htext : '\n' ∉ text) (h : FinalFiller w) :
    FinalFiller ('/' :: '/' :: (text ++ '\n' :: w)) := by
  cases h with
  | filler h => exact .filler (.comment htext h)
  | @comment text' w' h htext' =>
    have heq : '/' :: '/' :: (text ++ '\n' :: (w' ++ '/' :: '/' :: text')) =
        ('/' :: '/' :: (text ++ '\n' :: w')) ++ '/' :: '/' :: text' := by simp
    rw [heq]
    exact .comment (.comment htext h) htext'

/-! ### Single lexemes -/

theorem munch_blank {c : Char} (hc : isBlank c = true) (cs : List Char) :
    munch c cs = ⟨.gap, [c]⟩ := by rw [munch, if_pos hc]

theorem munch_slash (cs : List Char) : munch '/' cs = munchSlash cs := rfl

theorem munch_comment (cs : List Char) :
    munch '/' ('/' :: cs) = ⟨.gap, '/' :: '/' :: cs.takeWhile (· != '\n')⟩ := by
  rw [munch_slash, munchSlash, List.takeWhile_cons, if_pos (by decide)]

/-- What a lexeme is says what its text is, where the class of the first character does not. -/
def Munch.Fits (c : Char) (cs : List Char) (m : Munch) : Prop :=
  match m.lexeme with
  | .gap => isBlank c = true ∨ c = '/' ∧ ∃ ds, cs = '/' :: ds
  | .token (.string contents) => m.text = '"' :: contents.toList ++ ['"']
  | .token _ => True
  | .fault (.unexpectedCharacter d) => m.text = [d]
  | .fault .unterminatedString => m.text = '"' :: cs ∧ '"' ∉ cs

theorem munchString_fits (c : Char) (cs : List Char) : (munchString cs).Fits c cs := by
  unfold munchString
  split
  · next hend =>
    exact ⟨rfl, fun hquote => by simpa using List.dropWhile_eq_nil_iff.1 hend _ hquote⟩
  · simp [Munch.Fits]

theorem munch_fits (c : Char) (cs : List Char) : (munch c cs).Fits c cs := by
  unfold munch
  split_ifs with hblank hslash
  · exact .inl hblank
  · unfold munchSlash
    split
    · exact .inr ⟨beq_iff_eq.1 hslash, _, rfl⟩
    · trivial
  · exact munchString_fits c cs
  · unfold munchNumber
    dsimp only
    split_ifs
    · trivial
    · trivial
  · trivial
  · split
    · trivial
    · split
      · split
        · trivial
        · trivial
      · exact rfl

/-- A lexeme that yields no item is a blank or a comment. -/
theorem munch_gap {c : Char} {cs : List Char} (h : (munch c cs).lexeme = .gap) :
    isBlank c = true ∨ c = '/' ∧ ∃ ds, cs = '/' :: ds := by
  have hfits := munch_fits c cs
  rwa [Munch.Fits, h] at hfits

/-- The item of the lexeme, if it yields one, when it ends on the given line. -/
def Munch.item? (m : Munch) (line : Nat) : Option Item :=
  match m.lexeme with
  | .gap => none
  | .token kind => some (.token ⟨kind, String.ofList m.text, line⟩)
  | .fault f => some (.error ⟨line, f⟩)

/-- Reading goes on after the text of the first lexeme. -/
theorem scanFrom_lexeme {c : Char} {cs rest : List Char} (h : (munch c cs).text ++ rest = c :: cs)
    (line : Nat) : scanFrom line 0 (c :: cs) =
      ((munch c cs).item? (line + (munch c cs).text.count '\n')).toList ++
        scanFrom (line + (munch c cs).text.count '\n') 0 rest := by
  have hdrop : cs.drop ((munch c cs).text.length - 1) = rest := by
    obtain ⟨d, text, htext⟩ := List.exists_cons_of_ne_nil (munch_text_ne_nil c cs)
    rw [htext, List.cons_append] at h
    rw [htext, List.length_cons, Nat.add_sub_cancel, ← (List.cons.inj h).2, List.drop_left]
  rw [scanFrom, scanFrom_skip, hdrop]
  cases hlexeme : (munch c cs).lexeme with
  | gap => simp [Munch.item?, hlexeme]
  | token kind => simp [Munch.item?, hlexeme]
  | fault f => simp [Munch.item?, hlexeme]

/-! ### Passing over fillers -/

theorem takeWhile_line {text w : List Char} (h : '\n' ∉ text) :
    (text ++ '\n' :: w).takeWhile (· != '\n') = text := by
  rw [List.takeWhile_append_of_pos fun c hc => by
    simpa using fun heq : c = '\n' => h (heq ▸ hc)]
  simp

theorem takeWhile_last_line {text : List Char} (h : '\n' ∉ text) :
    text.takeWhile (· != '\n') = text :=
  List.takeWhile_eq_self_iff.2 fun c hc => by simpa using fun heq : c = '\n' => h (heq ▸ hc)

theorem scanFrom_blank {c : Char} (hc : isBlank c = true) (line : Nat) (cs : List Char) :
    scanFrom line 0 (c :: cs) = scanFrom (line + [c].count '\n') 0 cs := by
  rw [scanFrom, munch_blank hc]
  rfl

/-- A comment ends before the line break. -/
theorem scanFrom_comment {text : List Char} (htext : '\n' ∉ text) (line : Nat) (cs : List Char) :
    scanFrom line 0 ('/' :: '/' :: (text ++ '\n' :: cs)) = scanFrom line 0 ('\n' :: cs) := by
  rw [scanFrom, munch_comment, takeWhile_line htext]
  simp only [List.length_cons, Nat.add_sub_cancel, scanFrom]
  rw [scanFrom_skip, List.drop_left, List.count_cons_of_ne (by decide),
    List.count_cons_of_ne (by decide), List.count_eq_zero.2 htext]
  rfl

/-- The reader passes over a filler, and counts its lines. -/
theorem scanFrom_filler {w : List Char} (hw : Filler w) (line : Nat) (cs : List Char) :
    scanFrom line 0 (w ++ cs) = scanFrom (line + w.count '\n') 0 cs := by
  induction hw generalizing line with
  | nil => rfl
  | @blank c w hc _ ih =>
    rw [List.cons_append, scanFrom_blank hc, ih, Nat.add_assoc, ← List.count_append]
    rfl
  | @comment text w htext _ ih =>
    have hcount : ('/' :: '/' :: (text ++ '\n' :: w)).count '\n' = 1 + w.count '\n' := by
      simp [List.count_eq_zero.2 htext, Nat.add_comm]
    rw [hcount, List.cons_append, List.cons_append, List.append_assoc, List.cons_append,
      scanFrom_comment htext, scanFrom_newline, ih, Nat.add_assoc]

/-- A text without items. -/
theorem scanFrom_finalFiller {w : List Char} (hw : FinalFiller w) (line : Nat) :
    scanFrom line 0 w = [.token ⟨.symbol .endOfInput, "", line + w.count '\n'⟩] := by
  cases hw with
  | filler hw =>
    have hread := scanFrom_filler hw line []
    rwa [List.append_nil] at hread
  | @comment text w hw htext =>
    rw [scanFrom_filler hw, scanFrom, munch_comment, takeWhile_last_line htext]
    have hcount : ('/' :: '/' :: text).count '\n' = 0 := by
      simp [List.count_eq_zero.2 htext]
    simp only [List.length_cons, Nat.add_sub_cancel, scanFrom, List.count_append, hcount,
      Nat.add_zero]
    rw [scanFrom_skip, List.drop_length]
    rfl

/-! ### Finding fillers -/

/-- A text begins with a filler, after which there is a lexeme that yields an item, or no item at
all. -/
theorem filler_or_lexeme (cs : List Char) :
    FinalFiller cs ∨
      ∃ w c rest, cs = w ++ c :: rest ∧ Filler w ∧ (munch c rest).lexeme ≠ .gap := by
  induction hn : cs.length using Nat.strongRecOn generalizing cs with
  | _ n ih =>
  subst hn
  cases cs with
  | nil => exact .inl (.filler .nil)
  | cons c cs =>
    by_cases hgap : (munch c cs).lexeme = .gap
    · rcases munch_gap hgap with hblank | ⟨rfl, ds, rfl⟩
      · rcases ih _ (Nat.lt_succ_self _) cs rfl with h | ⟨w, d, rest, rfl, hw, h⟩
        · exact .inl (h.blank hblank)
        · exact .inr ⟨c :: w, d, rest, rfl, .blank hblank hw, h⟩
      · -- the comment goes on to the next line break or to the end
        by_cases hbreak : '\n' ∈ ds
        · obtain ⟨text, rest', rfl, htext⟩ := List.eq_append_cons_of_mem hbreak
          rcases ih _ (by simp; omega) rest' rfl with h | ⟨w, d, rest, rfl, hw, h⟩
          · exact .inl (h.comment_line htext)
          · exact .inr ⟨'/' :: '/' :: (text ++ '\n' :: w), d, rest, by simp, .comment htext hw, h⟩
        · exact .inl (.comment .nil hbreak)
    · exact .inr ⟨[], c, cs, rfl, .nil, hgap⟩

end Scan

end LoxLang
