import LoxLang.Proofs.Token.Spelling

/-!
# Reading two texts one after the other

A text that does not end inside a string, a line break, and another text read as the two texts read one
after the other, the second one further down (`scan_join`): no lexeme of the first text goes on over the
line break, and lexemes do not see on which line they stand.
-/

namespace LoxLang

/-- The token so many lines further down. -/
def Token.down (k : Nat) (t : Token) : Token := { t with line := t.line + k }

/-- The item so many lines further down. -/
def Item.down (k : Nat) : Item → Item
  | token t => .token (t.down k)
  | error e => .error { e with line := e.line + k }

/-- The line on which the item ends. -/
def Item.line : Item → Nat
  | token t => t.line
  | error e => e.line

namespace Scan

/-! ### One lexeme -/

theorem takeWhile_break {p : Char → Bool} {b : Char} (hp : p b = false) (cs ds : List Char) :
    (cs ++ b :: ds).takeWhile p = cs.takeWhile p := by
  induction cs with
  | nil => simp [hp]
  | cons c cs ih => rw [List.cons_append, List.takeWhile_cons, List.takeWhile_cons, ih]

theorem dropWhile_break {p : Char → Bool} {b : Char} (hp : p b = false) (cs ds : List Char) :
    (cs ++ b :: ds).dropWhile p = cs.dropWhile p ++ b :: ds := by
  induction cs with
  | nil => simp [hp]
  | cons c cs ih =>
    rw [List.cons_append, List.dropWhile_cons, List.dropWhile_cons, ih]
    split_ifs
    · rfl
    · rfl

section

variable {b : Char} (hb : isBlank b = true)

include hb

/-- What ends a comment, a number, a name or an operator. -/
theorem blank_ends : b ≠ '/' ∧ b ≠ '.' ∧ b ≠ '=' ∧ b.isDigit = false ∧ isNameRest b = false := by
  simp only [isBlank, Bool.or_eq_true, beq_iff_eq] at hb
  rcases hb with ((rfl | rfl) | rfl) | rfl
  all_goals decide

theorem munchNumber_break (c : Char) (cs ds : List Char) :
    munchNumber c (cs ++ b :: ds) = munchNumber c cs := by
  obtain ⟨-, hpoint, -, hdigit, -⟩ := blank_ends hb
  unfold munchNumber
  rw [takeWhile_break hdigit, dropWhile_break hdigit]
  cases cs.dropWhile Char.isDigit with
  | nil => simp [hpoint]
  | cons d rest =>
    rw [List.cons_append]
    by_cases hd : d = '.'
    · subst hd
      simp only [takeWhile_break (p := Char.isDigit) hdigit]
    · simp [hd]

/-- A comment ends before a line break only. -/
theorem munchSlash_break {cs : List Char} (hgap : (munchSlash cs).lexeme = .gap → b = '\n')
    (ds : List Char) : munchSlash (cs ++ b :: ds) = munchSlash cs := by
  obtain ⟨hslash, -⟩ := blank_ends hb
  cases cs with
  | nil => simp [munchSlash, hslash]
  | cons c cs =>
    by_cases hc : c = '/'
    · subst hc
      obtain rfl := hgap rfl
      unfold munchSlash
      rw [takeWhile_break (by decide)]
      rfl
    · simp [munchSlash, hc]

end

/-- A string that ends in the text does not see what follows. -/
theorem munchString_append {cs : List Char}
    (h : (munchString cs).lexeme ≠ .fault .unterminatedString) (ds : List Char) : munchString (cs ++ ds) = munchString cs := by
  cases hend : cs.dropWhile (· != '"') with
  | nil =>
    refine absurd ?_ h
    rw [munchString, hend]
  | cons q rest =>
    have hlength : (cs.takeWhile (· != '"')).length ≠ cs.length := by
      rw [← congrArg List.length (List.takeWhile_append_dropWhile (p := (· != '"')) (l := cs)),
        hend, List.length_append, List.length_cons]
      omega
    have htake : (cs ++ ds).takeWhile (· != '"') = cs.takeWhile (· != '"') := by
      rw [List.takeWhile_append, if_neg hlength]
    have hdrop : (cs ++ ds).dropWhile (· != '"') = q :: (rest ++ ds) := by
      rw [List.dropWhile_append, hend]
      rfl
    rw [munchString, munchString, hdrop, hend, htake]

theorem munchName_break {b : Char} (hb : isBlank b = true) (c : Char) (cs ds : List Char) :
    munchName c (cs ++ b :: ds) = munchName c cs := by
  obtain ⟨-, -, -, -, hname⟩ := blank_ends hb
  rw [munchName, munchName, takeWhile_break hname]

/-- A lexeme ends before a blank that follows the text, but a comment only before a line break, and a
string without an end goes on. -/
theorem munch_break {b c : Char} (hb : isBlank b = true) {cs : List Char}
    (hgap : (munch c cs).lexeme = .gap → b = '\n')
    (hfault : (munch c cs).lexeme ≠ .fault .unterminatedString) (ds : List Char) :
    munch c (cs ++ b :: ds) = munch c cs := by
  unfold munch at hgap hfault ⊢
  split_ifs at hgap hfault ⊢
  · rfl
  · exact munchSlash_break hb hgap ds
  · exact munchString_append hfault _
  · exact munchNumber_break hb c cs ds
  · exact munchName_break hb c cs ds
  · obtain ⟨-, -, hequal, -⟩ := blank_ends hb
    cases cs with
    | nil => simp [hequal]
    | cons d cs =>
      rw [List.cons_append]
      by_cases hd : d = '='
      · subst hd
        rfl
      · simp [hd]

/-! ### All lexemes -/

theorem munchSlash_prefix (cs : List Char) : (munchSlash cs).text <+: '/' :: cs := by
  unfold munchSlash
  split
  · exact List.prefix_cons_inj _ |>.2 (List.takeWhile_prefix _)
  · exact List.prefix_cons_inj _ |>.2 List.nil_prefix

theorem munchString_prefix (cs : List Char) : (munchString cs).text <+: '"' :: cs := by
  unfold munchString
  split
  · exact List.prefix_refl _
  · next q rest hend =>
    obtain rfl : q = '"' := by
      have hq := List.head?_dropWhile_not (· != '"') cs
      rw [hend] at hq
      simpa using hq
    refine ⟨rest, ?_⟩
    calc '"' :: cs.takeWhile (· != '"') ++ ['"'] ++ rest
        = '"' :: (cs.takeWhile (· != '"') ++ '"' :: rest) := by simp
      _ = '"' :: cs := by rw [← hend, List.takeWhile_append_dropWhile]

theorem munchNumber_prefix (c : Char) (cs : List Char) : (munchNumber c cs).text <+: c :: cs := by
  unfold munchNumber
  dsimp only
  split_ifs with hfraction
  · exact List.prefix_cons_inj _ |>.2 (List.takeWhile_prefix _)
  · split at hfraction
    · next rest hrest =>
      have hcs : cs.takeWhile Char.isDigit ++ '.' :: rest = cs := by
        rw [← hrest, List.takeWhile_append_dropWhile]
      have hprefix : cs.takeWhile Char.isDigit ++ '.' :: rest.takeWhile Char.isDigit <+:
          cs.takeWhile Char.isDigit ++ '.' :: rest :=
        (List.prefix_append_right_inj _).2 (List.prefix_cons_inj _ |>.2 (List.takeWhile_prefix _))
      rw [hcs] at hprefix
      exact List.prefix_cons_inj _ |>.2 hprefix
    · exact absurd rfl hfraction

theorem munchName_prefix (c : Char) (cs : List Char) : (munchName c cs).text <+: c :: cs :=
  List.prefix_cons_inj _ |>.2 (List.takeWhile_prefix _)

/-- A lexeme takes characters from the front of the text. -/
theorem munch_prefix (c : Char) (cs : List Char) : (munch c cs).text <+: c :: cs := by
  have hsingle : [c] <+: c :: cs := List.prefix_cons_inj _ |>.2 List.nil_prefix
  unfold munch
  split_ifs with _ hslash hquote
  · exact hsingle
  · rw [beq_iff_eq.1 hslash]
    exact munchSlash_prefix cs
  · rw [beq_iff_eq.1 hquote]
    exact munchString_prefix cs
  · exact munchNumber_prefix c cs
  · exact munchName_prefix c cs
  · split
    · exact hsingle
    · split
      · split
        · next rest => exact ⟨rest, rfl⟩
        · exact hsingle
      · exact hsingle

theorem keywords_isEnd : ∀ k ∈ keywords, k.2 ≠ .endOfInput := by decide

theorem punctuation_isEnd : ∀ p ∈ punctuation, p.2 ≠ .endOfInput := by decide

theorem comparisons_isEnd :
    ∀ p ∈ comparisons, p.2.1 ≠ .endOfInput ∧ p.2.2 ≠ .endOfInput := by decide

/-- No lexeme is the end of the input. -/
theorem munch_isEnd {c : Char} {cs : List Char} {kind : TokenKind}
    (h : (munch c cs).lexeme = .token kind) : kind.is .endOfInput = false := by
  have hsymbol {s : Symbol} (hs : s ≠ .endOfInput) : (TokenKind.symbol s).is .endOfInput = false := by
    rw [Bool.eq_false_iff]
    exact mt TokenKind.symbol_is.1 hs
  -- in the order of the lexer: slash, string, number, name, symbol
  unfold munch at h
  split_ifs at h
  · unfold munchSlash at h
    split at h
    · cases h
    · cases h
      rfl
  · unfold munchString at h
    split at h
    · cases h
    · cases h
      rfl
  · unfold munchNumber at h
    dsimp only at h
    split_ifs at h
    · cases h
      rfl
    · cases h
      rfl
  · cases h
    refine hsymbol ?_
    cases hk : keywords.lookup (String.ofList (c :: cs.takeWhile isNameRest)) with
    | none => decide
    | some s => exact keywords_isEnd _ (mem_of_lookup hk)
  · split at h
    · next s hs =>
      cases h
      exact hsymbol (punctuation_isEnd _ (mem_of_lookup hs))
    · split at h
      · next alone extended hs =>
        obtain ⟨halone, hextended⟩ := comparisons_isEnd _ (mem_of_lookup hs)
        split at h
        · cases h
          exact hsymbol hextended
        · cases h
          exact hsymbol halone
      · cases h

/-! ### Items -/

/-- Lexemes do not see on which line they stand. -/
theorem scanFrom_down (k line skip : Nat) (cs : List Char) :
    scanFrom (line + k) skip cs = (scanFrom line skip cs).map (Item.down k) := by
  induction cs generalizing line skip with
  | nil => cases skip <;> rfl
  | cons c cs ih =>
    cases skip with
    | succ skip => exact ih line skip
    | zero =>
      rw [scanFrom, scanFrom, Nat.add_right_comm]
      cases (munch c cs).lexeme with
      | gap => exact ih _ _
      | token kind => exact congrArg _ (ih _ _)
      | fault f => exact congrArg _ (ih _ _)

/-- What is left after a lexeme, and the line breaks in it and in the lexeme. -/
theorem munch_rest (c : Char) (cs : List Char) :
    (munch c cs).text.length - 1 ≤ cs.length ∧
      (munch c cs).text.count '\n' + (cs.drop ((munch c cs).text.length - 1)).count '\n' =
        (c :: cs).count '\n' := by
  obtain ⟨rest, hrest⟩ := munch_prefix c cs
  obtain ⟨d, text, htext⟩ := List.exists_cons_of_ne_nil (munch_text_ne_nil c cs)
  rw [htext] at hrest ⊢
  rw [List.cons_append] at hrest
  obtain ⟨rfl, rfl⟩ := List.cons.inj hrest
  rw [List.length_cons, Nat.add_sub_cancel, List.drop_left, ← List.count_append]
  exact ⟨by simp, rfl⟩

/-- An item stands between the line of the first character and that of the last one. -/
theorem scanFrom_line {line skip : Nat} {cs : List Char} (hskip : skip ≤ cs.length) {item : Item}
    (h : item ∈ scanFrom line skip cs) :
    line ≤ item.line ∧ item.line ≤ line + (cs.drop skip).count '\n' := by
  induction cs generalizing line skip with
  | nil =>
    rw [scanFrom, List.mem_singleton] at h
    rw [h]
    exact ⟨Nat.le_refl _, Nat.le_add_right _ _⟩
  | cons c cs ih =>
    cases skip with
    | succ skip => exact ih (Nat.le_of_succ_le_succ hskip) h
    | zero =>
      obtain ⟨hlength, hcount⟩ := munch_rest c cs
      rw [List.drop_zero, ← hcount, ← Nat.add_assoc]
      have hrest (h : item ∈ scanFrom (line + (munch c cs).text.count '\n')
          ((munch c cs).text.length - 1) cs) := ih hlength h
      rw [scanFrom] at h
      cases hlexeme : (munch c cs).lexeme with
      | gap =>
        rw [hlexeme] at h
        exact (hrest h).imp_left (Nat.le_of_add_right_le ·)
      | token kind =>
        rw [hlexeme] at h
        rcases List.mem_cons.1 h with rfl | h
        · exact ⟨Nat.le_add_right _ _, Nat.le_add_right _ _⟩
        · exact (hrest h).imp_left (Nat.le_of_add_right_le ·)
      | fault f =>
        rw [hlexeme] at h
        rcases List.mem_cons.1 h with rfl | h
        · exact ⟨Nat.le_add_right _ _, Nat.le_add_right _ _⟩
        · exact (hrest h).imp_left (Nat.le_of_add_right_le ·)

/-- The end of the input, on the given line. -/
def endOn (line : Nat) : Token := ⟨.symbol .endOfInput, "", line⟩

/-- A text that a line break follows reads as by itself, up to the end of its input, unless it ends inside
a string. -/
theorem scanFrom_break {line skip : Nat} {cs : List Char} (hskip : skip ≤ cs.length)
    (hends : ∀ line', .error ⟨line', .unterminatedString⟩ ∉ scanFrom line skip cs) (ds : List Char) :
    ∃ items, scanFrom line skip cs = items ++ [.token (endOn (line + (cs.drop skip).count '\n'))] ∧
      (∀ t, .token t ∈ items → t.isEnd = false) ∧
      scanFrom line skip (cs ++ '\n' :: ds) =
        items ++ scanFrom (line + (cs.drop skip).count '\n') 0 ('\n' :: ds) := by
  -- on the text; what a lexeme took is skipped, and it never takes the line break
  induction cs generalizing line skip with
  | nil =>
    obtain rfl : skip = 0 := Nat.le_zero.1 hskip
    exact ⟨[], rfl, fun _ ht => absurd ht List.not_mem_nil, rfl⟩
  | cons c cs ih =>
    cases skip with
    | succ skip => exact ih (Nat.le_of_succ_le_succ hskip) hends
    | zero =>
      have hfault : (munch c cs).lexeme ≠ .fault .unterminatedString := by
        intro hf
        rw [scanFrom, hf] at hends
        exact hends _ List.mem_cons_self
      obtain ⟨hlength, hcount⟩ := munch_rest c cs
      -- the line breaks in the lexeme and after it are those of the text
      have hrest := @ih (line + (munch c cs).text.count '\n') _ hlength
      rw [Nat.add_assoc, hcount] at hrest
      rw [scanFrom] at hends ⊢
      rw [List.cons_append, scanFrom, munch_break (by decide) (fun _ => rfl) hfault, List.drop_zero]
      cases hlexeme : (munch c cs).lexeme with
      | gap =>
        rw [hlexeme] at hends
        exact hrest hends
      | token kind =>
        rw [hlexeme] at hends
        obtain ⟨items, hitems, hothers, hjoin⟩ :=
          hrest fun line' hmem => hends line' (List.mem_cons_of_mem _ hmem)
        refine ⟨_ :: items, congrArg _ hitems, fun t ht => ?_, congrArg _ hjoin⟩
        rcases List.mem_cons.1 ht with heq | ht
        · cases heq
          exact munch_isEnd hlexeme
        · exact hothers t ht
      | fault f =>
        rw [hlexeme] at hends
        obtain ⟨items, hitems, hothers, hjoin⟩ :=
          hrest fun line' hmem => hends line' (List.mem_cons_of_mem _ hmem)
        refine ⟨_ :: items, congrArg _ hitems, fun t ht => ?_, congrArg _ hjoin⟩
        rcases List.mem_cons.1 ht with heq | ht
        · cases heq
        · exact hothers t ht

/-- A line break is no part of a lexeme, and what follows it stands on the next line. -/
theorem scanFrom_newline (line : Nat) (ds : List Char) :
    scanFrom line 0 ('\n' :: ds) = scanFrom (line + 1) 0 ds := rfl

end Scan

/-! ### Whole texts -/

/-- The source below so many empty lines. -/
def below (k : Nat) (source : String) : String := String.ofList (.replicate k '\n') ++ source

theorem below_zero (source : String) : below 0 source = source := by
  rw [below, List.replicate_zero, String.ofList_nil, String.empty_append]

theorem scan_below (k : Nat) (source : String) :
    scan (below k source) = (scan source).map (Item.down k) := by
  have hbreaks (line : Nat) (cs : List Char) : Scan.scanFrom line 0 (.replicate k '\n' ++ cs) =
      Scan.scanFrom (line + k) 0 cs := by
    induction k generalizing line with
    | zero => rfl
    | succ k ih =>
      rw [List.replicate_succ, List.cons_append, Scan.scanFrom_newline, ih, Nat.add_right_comm,
        Nat.add_assoc]
  rw [scan, scan, below, String.toList_append, String.toList_ofList, hbreaks, Scan.scanFrom_down]

theorem tokensOf_scan_below (k : Nat) (source : String) :
    tokensOf (scan (below k source)) = (tokensOf (scan source)).map (Token.down k) := by
  rw [scan_below, tokensOf, tokensOf, List.filterMap_map, List.map_filterMap]
  refine List.filterMap_congr fun item _ => ?_
  cases item <;> rfl

theorem lexicalErrorsOf_scan_below {k : Nat} {source : String}
    (h : lexicalErrorsOf (scan source) = []) : lexicalErrorsOf (scan (below k source)) = [] := by
  rw [lexicalErrorsOf, List.filterMap_eq_nil_iff] at h ⊢
  rw [scan_below, List.forall_mem_map]
  intro item hitem
  have herror := h item hitem
  cases item with
  | token t => rfl
  | error e => cases herror

/-- The number of lines down to a text that stands below the source. -/
def linesOf (source : String) : Nat := source.toList.count '\n' + 1

/-- Every item stands on a line of the source. -/
theorem scan_line {source : String} {item : Item} (h : item ∈ scan source) :
    1 ≤ item.line ∧ item.line ≤ linesOf source := by
  rw [linesOf, Nat.add_comm]
  exact Scan.scanFrom_line (Nat.zero_le _) h

/-- The items of a source that does not end inside a string, and those of the source and another one below
it. -/
theorem scan_join {A : String} (hA : ∀ line, .error ⟨line, .unterminatedString⟩ ∉ scan A) (B : String) :
    ∃ items, scan A = items ++ [.token (Scan.endOn (linesOf A))] ∧
      (∀ t, .token t ∈ items → t.isEnd = false) ∧
      scan (A ++ "\n" ++ B) = items ++ scan (below (linesOf A) B) := by
  obtain ⟨items, hitems, hothers, hjoin⟩ := Scan.scanFrom_break (Nat.zero_le _) hA B.toList
  have htext : (A ++ "\n" ++ B).toList = A.toList ++ '\n' :: B.toList := by simp
  refine ⟨items, ?_, hothers, ?_⟩
  · rw [scan, hitems, List.drop_zero, Nat.add_comm, linesOf]
  · rw [scan_below, scan, scan, htext, hjoin, List.drop_zero, Scan.scanFrom_newline, Nat.add_assoc,
      Scan.scanFrom_down, linesOf]

theorem error_notMem {items : List Item} (h : lexicalErrorsOf items = []) (e : LexicalError) :
    .error e ∉ items :=
  fun he => nomatch List.filterMap_eq_nil_iff.1 h _ he

theorem mem_of_mem_tokensOf {items : List Item} {t : Token} (h : t ∈ tokensOf items) :
    .token t ∈ items := by
  obtain ⟨item, hitem, ht⟩ := List.mem_filterMap.1 h
  cases item with
  | token t' =>
    obtain rfl := Option.some.inj ht
    exact hitem
  | error e => cases ht

/-- The tokens of a source without lexical errors, and those of the source and another one below it. -/
theorem tokensOf_scan_join {A : String} (hA : lexicalErrorsOf (scan A) = []) (B : String) :
    ∃ tokens end', tokensOf (scan A) = tokens ++ [end'] ∧ end'.isEnd = true ∧
      (∀ t ∈ tokens, t.isEnd = false) ∧
      tokensOf (scan (A ++ "\n" ++ B)) = tokens ++ tokensOf (scan (below (linesOf A) B)) := by
  obtain ⟨items, hitems, hothers, hjoin⟩ := scan_join (fun _ => error_notMem hA _) B
  refine ⟨tokensOf items, Scan.endOn (linesOf A), ?_, rfl, fun t ht => hothers t (mem_of_mem_tokensOf ht), ?_⟩
  · rw [hitems, tokensOf, List.filterMap_append]
    rfl
  · rw [hjoin, tokensOf, List.filterMap_append]
    rfl

/-- The source and another one below it have no lexical errors if neither has. -/
theorem lexicalErrors_join {A B : String} (hA : lexicalErrorsOf (scan A) = [])
    (hB : lexicalErrorsOf (scan B) = []) : lexicalErrorsOf (scan (A ++ "\n" ++ B)) = [] := by
  obtain ⟨items, hitems, -, hjoin⟩ := scan_join (fun _ => error_notMem hA _) B
  rw [hitems, lexicalErrorsOf, List.filterMap_append, List.append_eq_nil_iff] at hA
  rw [hjoin, lexicalErrorsOf, List.filterMap_append, List.append_eq_nil_iff]
  exact ⟨hA.1, lexicalErrorsOf_scan_below hB⟩

end LoxLang
