import LoxLang.Proofs.Token.Fillers

/-!
# Lexemes with other text between them

A text that has the lexemes of a source, each but the last one before a `Separator`, reads as the source
does: the tokens have the same kinds and texts, and there are no errors (`scan_respaced`).  For a lexeme
reads by itself as it does in the source (`munch_own`), and it ends before a blank.
-/

namespace LoxLang

/-- The token without its line. -/
def Token.unplaced (t : Token) : Token := { t with line := 0 }

namespace Scan

/-! ### One lexeme -/

theorem dropWhile_takeWhile {p : Char → Bool} (cs : List Char) :
    (cs.takeWhile p).dropWhile p = [] :=
  List.dropWhile_eq_nil_iff.2 fun _ => List.mem_takeWhile_imp

theorem munchSlash_own {cs : List Char} {kind : TokenKind}
    (h : (munchSlash cs).lexeme = .token kind) :
    munchSlash (munchSlash cs).text.tail = munchSlash cs := by
  unfold munchSlash at h ⊢
  split at h
  · cases h
  · simp

theorem munchString_own {cs : List Char} {kind : TokenKind}
    (h : (munchString cs).lexeme = .token kind) :
    munchString (munchString cs).text.tail = munchString cs := by
  cases hend : cs.dropWhile (· != '"') with
  | nil =>
    rw [munchString, hend] at h
    cases h
  | cons q rest =>
    have hstring : munchString cs = ⟨.token (.string (String.ofList (cs.takeWhile (· != '"')))),
        '"' :: (cs.takeWhile (· != '"') ++ ['"'])⟩ := by
      rw [munchString, hend]
      rfl
    rw [hstring, List.tail_cons, munchString, dropWhile_break (by decide), dropWhile_takeWhile,
      takeWhile_break (by decide), List.takeWhile_idem]
    rfl

/-- A number without a fraction. -/
theorem munchNumber_whole {cs : List Char}
    (h : ∀ rest, cs.dropWhile Char.isDigit = '.' :: rest → rest.takeWhile Char.isDigit = [])
    (c : Char) : munchNumber c cs =
      ⟨.token (.number (numberValue (c :: cs.takeWhile Char.isDigit) [])),
        c :: cs.takeWhile Char.isDigit⟩ := by
  unfold munchNumber
  dsimp only
  split
  · next rest hrest => rw [h rest hrest]; rfl
  · rfl

/-- A number with a fraction. -/
theorem munchNumber_fraction {cs rest : List Char} (h : cs.dropWhile Char.isDigit = '.' :: rest)
    (hne : rest.takeWhile Char.isDigit ≠ []) (c : Char) : munchNumber c cs =
      ⟨.token (.number (numberValue (c :: cs.takeWhile Char.isDigit)
        (rest.takeWhile Char.isDigit))),
        c :: (cs.takeWhile Char.isDigit ++ '.' :: rest.takeWhile Char.isDigit)⟩ := by
  rw [munchNumber, h]
  exact if_neg (by simpa using hne)

theorem munchNumber_own (c : Char) (cs : List Char) :
    munchNumber c (munchNumber c cs).text.tail = munchNumber c cs := by
  by_cases h : ∃ rest, cs.dropWhile Char.isDigit = '.' :: rest ∧ rest.takeWhile Char.isDigit ≠ []
  · obtain ⟨rest, hrest, hne⟩ := h
    have hagain : (cs.takeWhile Char.isDigit ++ '.' :: rest.takeWhile Char.isDigit).dropWhile
        Char.isDigit = '.' :: rest.takeWhile Char.isDigit := by
      rw [dropWhile_break (by decide), dropWhile_takeWhile, List.nil_append]
    rw [munchNumber_fraction hrest hne, List.tail_cons,
      munchNumber_fraction hagain (by rwa [List.takeWhile_idem]), takeWhile_break (by decide),
      List.takeWhile_idem, List.takeWhile_idem]
  · have hwhole : ∀ rest, cs.dropWhile Char.isDigit = '.' :: rest →
        rest.takeWhile Char.isDigit = [] := by simpa using h
    rw [munchNumber_whole hwhole, List.tail_cons, munchNumber_whole, List.takeWhile_idem]
    rw [dropWhile_takeWhile]
    exact nofun

theorem munchName_own (c : Char) (cs : List Char) :
    munchName c (munchName c cs).text.tail = munchName c cs := by
  rw [munchName, munchName, List.tail_cons, List.takeWhile_idem]

/-- A lexeme by itself reads as it does in a text. -/
theorem munch_own {c : Char} {cs : List Char} {kind : TokenKind}
    (h : (munch c cs).lexeme = .token kind) : munch c (munch c cs).text.tail = munch c cs := by
  unfold munch at h ⊢
  split_ifs at h ⊢
  · exact munchSlash_own h
  · exact munchString_own h
  · exact munchNumber_own c cs
  · exact munchName_own c cs
  · split at h
    · rfl
    · split at h
      · next alone extended _ =>
        split at h
        · rfl
        · rfl
      · cases h

end Scan

/-! ### Texts with given lexemes -/

/-- The text of the token reads by itself as a token of its kind. -/
def Token.Lexed (t : Token) : Prop :=
  ∃ c cs, t.lexeme.toList = c :: cs ∧ Scan.munch c cs = ⟨.token t.kind, c :: cs⟩

/-- A blank, and then blanks and comments that end with their line. -/
def Separator (w : String) : Prop :=
  ∃ b rest, w.toList = b :: rest ∧ Scan.isBlank b = true ∧ Scan.Filler rest

/-- The text consists of the lexemes of the tokens, with a separator after each, which may be missing
after the last one. -/
inductive Spaced : List Token → String → Prop where
  | nil : Spaced [] ""
  | last (t : Token) : Spaced [t] t.lexeme
  | cons (t : Token) {ts : List Token} {w text : String} : Separator w → Spaced ts text →
    Spaced (t :: ts) (t.lexeme ++ w ++ text)

namespace Scan

/-- The tokens of a text read by themselves as they do in the text. -/
theorem scanFrom_lexed (line skip : Nat) (cs : List Char) :
    ∃ items line', scanFrom line skip cs = items ++ [.token ⟨.symbol .endOfInput, "", line'⟩] ∧
      ∀ t, .token t ∈ items → t.Lexed := by
  induction cs generalizing line skip with
  | nil => cases skip <;> exact ⟨[], line, rfl, by simp⟩
  | cons c cs ih =>
    cases skip with
    | succ skip => exact ih line skip
    | zero =>
      obtain ⟨items, line', hitems, hlexed⟩ :=
        ih (line + (munch c cs).text.count '\n') ((munch c cs).text.length - 1)
      rw [scanFrom]
      cases hlexeme : (munch c cs).lexeme with
      | gap => exact ⟨items, line', hitems, hlexed⟩
      | fault f =>
        refine ⟨.error _ :: items, line', congrArg _ hitems, fun t ht => ?_⟩
        exact hlexed t (by simpa using ht)
      | token kind =>
        refine ⟨.token _ :: items, line', congrArg _ hitems, fun t ht => ?_⟩
        rcases List.mem_cons.1 ht with heq | ht
        · obtain ⟨d, text, htext⟩ := List.exists_cons_of_ne_nil (munch_text_ne_nil c cs)
          have hown := munch_own hlexeme
          obtain ⟨rest, hrest⟩ := munch_prefix c cs
          rw [htext] at hrest
          obtain rfl : d = c := (List.cons.inj hrest).1
          rw [htext, List.tail_cons] at hown
          cases heq
          refine ⟨d, text, by rw [String.toList_ofList, htext], ?_⟩
          rw [hown, ← htext, ← hlexeme]
        · exact hlexed t ht

/-- A lexeme ends before a blank and at the end of the text. -/
theorem scanFrom_token {t : Token} (ht : t.Lexed) {ds : List Char}
    (hds : ∀ b ∈ ds.head?, isBlank b = true) (line : Nat) :
    scanFrom line 0 (t.lexeme.toList ++ ds) =
      .token { t with line := line + t.lexeme.toList.count '\n' } ::
        scanFrom (line + t.lexeme.toList.count '\n') 0 ds := by
  obtain ⟨c, cs, htext, hmunch⟩ := ht
  have hread : munch c (cs ++ ds) = ⟨.token t.kind, c :: cs⟩ := by
    cases ds with
    | nil => rw [List.append_nil, hmunch]
    | cons b ds =>
      rw [munch_break (hds b rfl) (by rw [hmunch]; exact nofun) (by rw [hmunch]; exact nofun),
        hmunch]
  have hrest : (munch c (cs ++ ds)).text ++ ds = c :: (cs ++ ds) := by rw [hread]; rfl
  rw [htext, List.cons_append, scanFrom_lexeme hrest, hread, ← htext]
  simp [Munch.item?]

end Scan

/-- A text with given lexemes reads as these lexemes. -/
theorem Spaced.scanFrom {ts : List Token} {text : String} (h : Spaced ts text)
    (hts : ∀ t ∈ ts, t.Lexed) (line : Nat) :
    ∃ (ts' : List Token) (line' : Nat), Scan.scanFrom line 0 text.toList =
        ts'.map Item.token ++ [.token ⟨.symbol .endOfInput, "", line'⟩] ∧
      ts'.map Token.unplaced = ts.map Token.unplaced := by
  induction h generalizing line with
  | nil => exact ⟨[], line, rfl, rfl⟩
  | last t =>
    have hends : ∀ b ∈ ([] : List Char).head?, Scan.isBlank b = true := nofun
    have hread := Scan.scanFrom_token (hts t (List.mem_singleton_self t)) hends line
    rw [List.append_nil] at hread
    exact ⟨[_], _, hread, rfl⟩
  | @cons t ts w text hw _ ih =>
    obtain ⟨b, rest, hb, hblank, hrest⟩ := hw
    obtain ⟨ts', line', hread, hsame⟩ := ih (fun t ht => hts t (List.mem_cons_of_mem _ ht))
      (line + t.lexeme.toList.count '\n' + w.toList.count '\n')
    refine ⟨{ t with line := line + t.lexeme.toList.count '\n' } :: ts', line', ?_,
      congrArg (t.unplaced :: ·) hsame⟩
    have hds : ∀ c ∈ (w.toList ++ text.toList).head?, Scan.isBlank c = true := by
      rw [hb]
      rintro _ ⟨⟩
      exact hblank
    rw [String.toList_append, String.toList_append, List.append_assoc,
      Scan.scanFrom_token (hts t List.mem_cons_self) hds,
      Scan.scanFrom_filler (w := w.toList) (hb ▸ .blank hblank hrest), hread]
    rfl

theorem tokensOf_map_token (ts : List Token) : tokensOf (ts.map Item.token) = ts := by
  rw [tokensOf, List.filterMap_map]
  exact List.filterMap_some

theorem lexicalErrorsOf_map_token (ts : List Token) :
    lexicalErrorsOf (ts.map Item.token) = [] := by
  rw [lexicalErrorsOf, List.filterMap_map]
  exact List.filterMap_eq_nil_iff.2 fun _ _ => rfl

/-- A text with the lexemes of a source has no lexical errors, and the tokens of the source but for
their lines. -/
theorem scan_respaced {source : String} {tokens : List Token} {last : Token}
    (htokens : tokensOf (scan source) = tokens ++ [last]) {w text : String}
    (hw : Scan.Filler w.toList) (htext : Spaced tokens text) :
    lexicalErrorsOf (scan (w ++ text)) = [] ∧
      (tokensOf (scan (w ++ text))).map Token.unplaced =
        (tokensOf (scan source)).map Token.unplaced := by
  obtain ⟨items, line, hitems, hlexed⟩ := Scan.scanFrom_lexed 1 0 source.toList
  have hsource : tokensOf items ++ [⟨.symbol .endOfInput, "", line⟩] = tokens ++ [last] := by
    rw [← htokens, scan, hitems, tokensOf, tokensOf, List.filterMap_append]
    rfl
  obtain ⟨rfl, hlast⟩ := List.append_inj' hsource rfl
  obtain ⟨ts', line', hread, hsame⟩ :=
    htext.scanFrom (fun t ht => hlexed t (mem_of_mem_tokensOf ht)) (1 + w.toList.count '\n')
  have hscan : scan (w ++ text) =
      (ts' ++ [⟨.symbol .endOfInput, "", line'⟩] : List Token).map Item.token := by
    rw [scan, String.toList_append, Scan.scanFrom_filler hw, hread, List.map_append]
    rfl
  rw [hscan, htokens, ← hlast, tokensOf_map_token, lexicalErrorsOf_map_token, List.map_append,
    List.map_append, hsame]
  exact ⟨rfl, rfl⟩

end LoxLang
