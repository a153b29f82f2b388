import LoxLang.Proofs.Token.Respaced

/-!
# The longest lexeme

A `Rule` of the lexical grammar says which texts are lexemes by themselves, and what they are.  Where
the reader starts a lexeme, it takes the longest text that a rule matches there, as what the rule says;
there is a fault exactly if no rule matches (`munch_longest`, `munch_fault_iff`).  So the items of a
text are those of the lexer that knows nothing but the rules, `Lexes` (`scan_takes_longest`).
-/

namespace LoxLang

namespace Scan

/-! ### The lexical grammar -/

/-- The operators and what they are called. -/
def operators : List (List Char × Symbol) :=
  [(['('], .leftParen), ([')'], .rightParen), (['{'], .leftBrace), (['}'], .rightBrace),
   ([','], .comma), (['.'], .dot), (['-'], .minus), (['+'], .plus), ([';'], .semicolon),
   (['/'], .slash), (['*'], .star), (['!'], .bang), (['!', '='], .bangEqual), (['='], .equal),
   (['=', '='], .equalEqual), (['>'], .greater), (['>', '='], .greaterEqual), (['<'], .less),
   (['<', '='], .lessEqual)]

/-- A letter or an underscore. -/
def IsLetter (c : Char) : Prop := 'a' ≤ c ∧ c ≤ 'z' ∨ 'A' ≤ c ∧ c ≤ 'Z' ∨ c = '_'

/-- A decimal digit. -/
def IsDigit (c : Char) : Prop := '0' ≤ c ∧ c ≤ '9'

/-- One digit or more. -/
def IsNumeral (w : List Char) : Prop := w ≠ [] ∧ ∀ c ∈ w, IsDigit c

/-- A letter, and then letters and digits. -/
def IsName : List Char → Prop
  | [] => False
  | c :: w => IsLetter c ∧ ∀ d ∈ w, IsLetter d ∨ IsDigit d

/-- The text is a lexeme by itself. -/
inductive Rule : List Char → Lexeme → Prop where
  | operator {w s} : (w, s) ∈ operators → Rule w (.token (.symbol s))
  | string {w} : '"' ∉ w → Rule ('"' :: (w ++ ['"'])) (.token (.string (String.ofList w)))
  | whole {w} : IsNumeral w → Rule w (.token (.number (numberValue w [])))
  | fraction {w v} : IsNumeral w → IsNumeral v →
    Rule (w ++ '.' :: v) (.token (.number (numberValue w v)))
  | keyword {w s} : IsName w → (String.ofList w, s) ∈ keywords → Rule w (.token (.symbol s))
  | identifier {w} : IsName w → (∀ s, (String.ofList w, s) ∉ keywords) →
    Rule w (.token (.symbol .identifier))
  | blank {c} : c ∈ [' ', '\t', '\r', '\n'] → Rule [c] .gap
  | comment {w} : '\n' ∉ w → Rule ('/' :: '/' :: w) .gap

/-- The longest text that a rule matches at the front of `cs` is `w`, and the rule makes it the given
lexeme. -/
structure LongestMatch (cs w : List Char) (lexeme : Lexeme) : Prop where
  rule : Rule w lexeme
  front : w <+: cs
  longest : ∀ w' lexeme', Rule w' lexeme' → w' <+: cs → w'.length ≤ w.length

/-- No rule matches at the front of `cs`. -/
def NoMatch (cs : List Char) : Prop := ∀ w lexeme, Rule w lexeme → ¬ w <+: cs

/-- The items of a text whose first character is on the given line: of the longest match at its front,
and then of what is left.  Where no rule matches there is an error, which covers one character, or all
that is left if that begins with a quote. -/
inductive Lexes : (line : Nat) → List Char → List Item → Prop where
  | done {line} : Lexes line [] [.token ⟨.symbol .endOfInput, "", line⟩]
  | gap {line w rest items} : LongestMatch (w ++ rest) w .gap →
    Lexes (line + w.count '\n') rest items → Lexes line (w ++ rest) items
  | token {line w rest kind items} : LongestMatch (w ++ rest) w (.token kind) →
    Lexes (line + w.count '\n') rest items →
    Lexes line (w ++ rest) (.token ⟨kind, String.ofList w, line + w.count '\n'⟩ :: items)
  | unexpected {line c rest items} : NoMatch (c :: rest) → c ≠ '"' → Lexes line rest items →
    Lexes line (c :: rest) (.error ⟨line, .unexpectedCharacter c⟩ :: items)
  | unterminated {line rest items} : NoMatch ('"' :: rest) →
    Lexes (line + rest.count '\n') [] items →
    Lexes line ('"' :: rest) (.error ⟨line + rest.count '\n', .unterminatedString⟩ :: items)

/-! ### Classes of characters -/

theorem isBlank_iff {c : Char} : isBlank c = true ↔ c ∈ [' ', '\t', '\r', '\n'] := by
  simp [isBlank, or_assoc]

theorem isDigit_iff {c : Char} : c.isDigit = true ↔ IsDigit c := by
  simp only [Char.isDigit, IsDigit, Char.le_def, Bool.and_eq_true, decide_eq_true_eq]

theorem isNameStart_iff {c : Char} : isNameStart c = true ↔ IsLetter c := by
  have hupper : c.isUpper = decide ('A' ≤ c ∧ c ≤ 'Z') := rfl
  have hlower : c.isLower = (decide ('a' ≤ c) && decide (c ≤ 'z')) := rfl
  have halpha : c.isAlpha = (c.isUpper || c.isLower) := rfl
  simp only [isNameStart, halpha, hupper, hlower, IsLetter, Bool.or_eq_true, Bool.and_eq_true,
    decide_eq_true_eq, beq_iff_eq]
  rw [or_comm (a := _ ∧ _), or_assoc]

theorem isNameRest_iff {c : Char} : isNameRest c = true ↔ IsLetter c ∨ IsDigit c := by
  rw [← isNameStart_iff, ← isDigit_iff]
  simp only [isNameRest, isNameStart, Char.isAlphanum, Bool.or_eq_true]
  exact or_right_comm

/-- What begins a number begins nothing else. -/
theorem munch_digit {c : Char} (hc : c.isDigit = true) (cs : List Char) :
    munch c cs = munchNumber c cs := by
  have hblank : ¬isBlank c = true := fun h => by simp [(blank_ends h).2.2.2.1] at hc
  have hslash : ¬(c == '/') = true := by rintro h; rw [beq_iff_eq.1 h] at hc; cases hc
  have hquote : ¬(c == '"') = true := by rintro h; rw [beq_iff_eq.1 h] at hc; cases hc
  rw [munch, if_neg hblank, if_neg hslash, if_neg hquote, if_pos hc]

/-- No letter is a digit. -/
theorem IsLetter.not_isDigit {c : Char} (hc : IsLetter c) : ¬c.isDigit = true := by
  rw [isDigit_iff]
  unfold IsDigit IsLetter at *
  simp only [Char.le_def, UInt32.le_iff_toNat_le] at *
  rintro ⟨h, h'⟩
  rcases hc with ⟨h₁, -⟩ | ⟨h₁, -⟩ | rfl
  · have := Nat.le_trans h₁ h'
    revert this; decide
  · have := Nat.le_trans h₁ h'
    revert this; decide
  · revert h'; decide

/-- What begins a name begins nothing else. -/
theorem munch_nameStart {c : Char} (hc : IsLetter c) (cs : List Char) :
    munch c cs = munchName c cs := by
  have hstart := isNameStart_iff.2 hc
  have hblank : ¬isBlank c = true := fun h => by
    have hrest := isNameRest_iff.2 (.inl hc)
    simp [(blank_ends h).2.2.2.2] at hrest
  have hslash : ¬(c == '/') = true := by rintro h; rw [beq_iff_eq.1 h] at hstart; cases hstart
  have hquote : ¬(c == '"') = true := by rintro h; rw [beq_iff_eq.1 h] at hstart; cases hstart
  rw [munch, if_neg hblank, if_neg hslash, if_neg hquote, if_neg hc.not_isDigit, if_pos hstart]

/-! ### What a rule matches is taken -/

/-- The reader takes the text `w`, and perhaps more; if no more, then as the given lexeme. -/
def Munch.Takes (m : Munch) (w : List Char) (lexeme : Lexeme) : Prop :=
  (∀ f, m.lexeme ≠ .fault f) ∧ ∃ more, m.text = w ++ more ∧ (more = [] → m.lexeme = lexeme)

theorem token_ne_fault (kind : TokenKind) (f : LexicalFault) : Lexeme.token kind ≠ .fault f :=
  Lexeme.noConfusion

theorem gap_ne_fault (f : LexicalFault) : Lexeme.gap ≠ .fault f := Lexeme.noConfusion

theorem Munch.takes_self {lexeme : Lexeme} (h : ∀ f, lexeme ≠ .fault f) (w : List Char) :
    Munch.Takes ⟨lexeme, w⟩ w lexeme := ⟨h, [], (List.append_nil w).symm, fun _ => rfl⟩

theorem takes_slash (rest : List Char) :
    (munch '/' rest).Takes ['/'] (.token (.symbol .slash)) := by
  rw [munch_slash]
  unfold munchSlash
  split
  · next cs => exact ⟨gap_ne_fault, '/' :: cs.takeWhile (· != '\n'), rfl,
      fun hmore => absurd hmore (List.cons_ne_nil _ _)⟩
  · exact Munch.takes_self (token_ne_fault _) ['/']

/-- An operator that is no slash stands alone, or it is a comparison that goes on or does not. -/
theorem operator_kinds : ∀ p ∈ operators,
    p.1 = ['/'] ∧ p.2 = .slash ∨
      p.1.tail = [] ∧ punctuation.lookup (p.1.headD ' ') = some p.2 ∨
      p.1.tail = [] ∧ (comparisons.lookup (p.1.headD ' ')).map (·.1) = some p.2 ∨
      p.1.tail = ['='] ∧ (comparisons.lookup (p.1.headD ' ')).map (·.2) = some p.2 := by decide

theorem takes_punctuation {c : Char} {s : Symbol} (h : punctuation.lookup c = some s)
    (rest : List Char) : (munch c rest).Takes [c] (.token (.symbol s)) := by
  have hclass : ∀ p ∈ punctuation, isBlank p.1 = false ∧ (p.1 == '/') = false ∧
      (p.1 == '"') = false ∧ p.1.isDigit = false ∧ isNameStart p.1 = false := by decide
  obtain ⟨hblank, hslash, hquote, hdigit, hname⟩ := hclass _ (mem_of_lookup h)
  simp only [munch, hblank, hslash, hquote, hdigit, hname, Bool.false_eq_true, if_false, h]
  exact Munch.takes_self (token_ne_fault _) [c]

/-- What begins a comparison begins nothing else. -/
theorem munch_comparison {c : Char} {alone extended : Symbol}
    (h : comparisons.lookup c = some (alone, extended)) (rest : List Char) :
    munch c rest = if rest.head? = some '=' then ⟨.token (.symbol extended), [c, '=']⟩
      else ⟨.token (.symbol alone), [c]⟩ := by
  have hclass : ∀ p ∈ comparisons, isBlank p.1 = false ∧ (p.1 == '/') = false ∧
      (p.1 == '"') = false ∧ p.1.isDigit = false ∧ isNameStart p.1 = false ∧
      punctuation.lookup p.1 = none := by decide
  obtain ⟨hblank, hslash, hquote, hdigit, hname, hother⟩ := hclass _ (mem_of_lookup h)
  simp only [munch, hblank, hslash, hquote, hdigit, hname, hother, Bool.false_eq_true, if_false, h]
  cases rest with
  | nil => rfl
  | cons d rest =>
    by_cases hd : d = '='
    · subst hd
      rfl
    · simp [hd]

theorem takes_operator {c : Char} {w : List Char} {s : Symbol} (h : (c :: w, s) ∈ operators)
    (rest : List Char) : (munch c (w ++ rest)).Takes (c :: w) (.token (.symbol s)) := by
  have hkinds := operator_kinds _ h
  simp only [List.tail_cons, List.headD_cons, List.cons.injEq, Option.map_eq_some_iff] at hkinds
  rcases hkinds with ⟨⟨rfl, rfl⟩, rfl⟩ | ⟨rfl, hs⟩ | ⟨rfl, ⟨alone, extended⟩, hs, rfl⟩ |
    ⟨rfl, ⟨alone, extended⟩, hs, rfl⟩
  · exact takes_slash rest
  · exact takes_punctuation hs rest
  · rw [munch_comparison hs]
    split
    · exact ⟨token_ne_fault _, ['='], rfl, fun hmore => absurd hmore (List.cons_ne_nil _ _)⟩
    · exact Munch.takes_self (token_ne_fault _) [c]
  · rw [munch_comparison hs, if_pos (by rfl)]
    exact Munch.takes_self (token_ne_fault _) [c, '=']

theorem takes_string {w : List Char} (hw : '"' ∉ w) (rest : List Char) :
    (munch '"' (w ++ ['"'] ++ rest)).Takes ('"' :: (w ++ ['"']))
      (.token (.string (String.ofList w))) := by
  have hall : ∀ c ∈ w, (c != '"') = true := fun c hc => by
    simpa using fun heq : c = '"' => hw (heq ▸ hc)
  have htake : (w ++ ['"'] ++ rest).takeWhile (· != '"') = w := by
    rw [List.append_assoc, List.takeWhile_append_of_pos hall]
    simp
  have hdrop : (w ++ ['"'] ++ rest).dropWhile (· != '"') = '"' :: rest := by
    rw [List.append_assoc, List.dropWhile_append_of_pos hall]
    rfl
  change (munchString (w ++ ['"'] ++ rest)).Takes _ _
  rw [munchString, hdrop, htake]
  exact Munch.takes_self (token_ne_fault _) _

theorem isDigit_of_isNumeral {w : List Char} (h : IsNumeral w) : ∀ c ∈ w, c.isDigit = true :=
  fun c hc => isDigit_iff.2 (h.2 c hc)

/-- The digits of a number are taken, and perhaps more of them, or a fraction. -/
theorem takes_whole {c : Char} {w : List Char} (h : IsNumeral (c :: w)) (rest : List Char) :
    (munch c (w ++ rest)).Takes (c :: w) (.token (.number (numberValue (c :: w) []))) := by
  have hdigits := isDigit_of_isNumeral h
  have htake : (w ++ rest).takeWhile Char.isDigit = w ++ rest.takeWhile Char.isDigit :=
    List.takeWhile_append_of_pos fun d hd => hdigits d (List.mem_cons_of_mem _ hd)
  rw [munch_digit (hdigits c List.mem_cons_self), munchNumber, htake]
  split_ifs with hfraction
  · refine ⟨token_ne_fault _, rest.takeWhile Char.isDigit, rfl, fun hmore => ?_⟩
    rw [hmore, List.append_nil]
  · refine ⟨token_ne_fault _, rest.takeWhile Char.isDigit ++ _, by rw [← List.cons_append, List.append_assoc],
      fun hmore => ?_⟩
    simp at hmore

theorem takes_fraction {c : Char} {w v : List Char} (hw : IsNumeral (c :: w)) (hv : IsNumeral v)
    (rest : List Char) : (munch c (w ++ '.' :: v ++ rest)).Takes (c :: (w ++ '.' :: v))
      (.token (.number (numberValue (c :: w) v))) := by
  have hwhole := isDigit_of_isNumeral hw
  have hdigits : ∀ d ∈ w, d.isDigit = true := fun d hd => hwhole d (List.mem_cons_of_mem _ hd)
  have htake : (w ++ '.' :: v ++ rest).takeWhile Char.isDigit = w := by
    rw [List.append_assoc, List.takeWhile_append_of_pos hdigits]
    simp
  have hdrop : (w ++ '.' :: v ++ rest).dropWhile Char.isDigit = '.' :: (v ++ rest) := by
    rw [List.append_assoc, List.dropWhile_append_of_pos hdigits]
    rfl
  have hfraction : (v ++ rest).takeWhile Char.isDigit = v ++ rest.takeWhile Char.isDigit :=
    List.takeWhile_append_of_pos (isDigit_of_isNumeral hv)
  rw [munch_digit (hwhole c List.mem_cons_self),
    munchNumber_fraction hdrop (by rw [hfraction]; simp [hv.1]), htake, hfraction]
  refine ⟨token_ne_fault _, rest.takeWhile Char.isDigit, by simp, fun hmore => ?_⟩
  rw [hmore, List.append_nil]

theorem takes_name {c : Char} {w : List Char} (h : IsName (c :: w)) (rest : List Char) :
    (munch c (w ++ rest)).Takes (c :: w)
      (.token (.symbol ((keywords.lookup (String.ofList (c :: w))).getD .identifier))) := by
  have htake : (w ++ rest).takeWhile isNameRest = w ++ rest.takeWhile isNameRest :=
    List.takeWhile_append_of_pos fun d hd => isNameRest_iff.2 (h.2 d hd)
  rw [munch_nameStart h.1, munchName, htake]
  refine ⟨token_ne_fault _, rest.takeWhile isNameRest, rfl, fun hmore => ?_⟩
  rw [hmore, List.append_nil]

theorem takes_comment {w : List Char} (hw : '\n' ∉ w) (rest : List Char) :
    (munch '/' ('/' :: w ++ rest)).Takes ('/' :: '/' :: w) .gap := by
  have htake : (w ++ rest).takeWhile (· != '\n') = w ++ rest.takeWhile (· != '\n') :=
    List.takeWhile_append_of_pos fun c hc => by
      simpa using fun heq : c = '\n' => hw (heq ▸ hc)
  rw [List.cons_append, munch_comment, htake]
  exact ⟨gap_ne_fault, rest.takeWhile (· != '\n'), rfl, fun _ => rfl⟩

theorem Rule.ne_nil {w : List Char} {lexeme : Lexeme} (h : Rule w lexeme) : w ≠ [] := by
  cases h with
  | operator hmem =>
    have hall : ∀ p ∈ operators, p.1 ≠ [] := by decide
    exact hall _ hmem
  | whole hw => exact hw.1
  | keyword hname => rintro rfl; exact hname
  | identifier hname => rintro rfl; exact hname
  | fraction => simp
  | _ => exact List.cons_ne_nil _ _

/-- The keywords are a table: a name has the symbol that is listed for it. -/
theorem lookup_keywords {name : String} {s : Symbol} (h : (name, s) ∈ keywords) :
    keywords.lookup name = some s := by
  have hall : ∀ k ∈ keywords, keywords.lookup k.1 = some k.2 := by decide
  exact hall _ h

/-- What a rule matches is taken, and perhaps more. -/
theorem Rule.taken {c : Char} {w : List Char} {lexeme : Lexeme} (h : Rule (c :: w) lexeme)
    (rest : List Char) : (munch c (w ++ rest)).Takes (c :: w) lexeme := by
  generalize hcw : c :: w = text at h
  cases h with
  | operator hmem =>
    subst hcw
    exact takes_operator hmem rest
  | string hw =>
    cases hcw
    exact takes_string hw rest
  | whole hw =>
    subst hcw
    exact takes_whole hw rest
  | @fraction v u hv hu =>
    cases v with
    | nil => exact absurd rfl hv.1
    | cons d v =>
      cases hcw
      exact takes_fraction hv hu rest
  | keyword hname hmem =>
    subst hcw
    have htakes := takes_name hname rest
    rwa [lookup_keywords hmem] at htakes
  | identifier hname hnone =>
    subst hcw
    have htakes := takes_name hname rest
    cases hlookup : keywords.lookup (String.ofList (c :: w)) with
    | none => rwa [hlookup] at htakes
    | some s => exact absurd (mem_of_lookup hlookup) (hnone s)
  | blank hc =>
    cases hcw
    rw [munch_blank (isBlank_iff.2 hc)]
    exact Munch.takes_self gap_ne_fault [c]
  | comment hw =>
    cases hcw
    exact takes_comment hw rest

/-! ### What is taken is matched by a rule -/

theorem notMem_takeWhile_ne (b : Char) (cs : List Char) : b ∉ cs.takeWhile (· != b) := fun hb => by
  simpa using List.mem_takeWhile_imp hb

theorem rule_munchSlash (cs : List Char) : Rule (munchSlash cs).text (munchSlash cs).lexeme := by
  unfold munchSlash
  split
  · next cs =>
    rw [List.takeWhile_cons, if_pos (by decide)]
    exact .comment (notMem_takeWhile_ne '\n' cs)
  · exact .operator (by decide)

theorem rule_munchString {cs : List Char} (h : ∀ f, (munchString cs).lexeme ≠ .fault f) :
    Rule (munchString cs).text (munchString cs).lexeme := by
  unfold munchString at h ⊢
  split at h
  · exact absurd rfl (h _)
  · exact .string (notMem_takeWhile_ne '"' cs)

theorem isNumeral_takeWhile (cs : List Char) (h : cs.takeWhile Char.isDigit ≠ []) :
    IsNumeral (cs.takeWhile Char.isDigit) :=
  ⟨h, fun _ hd => isDigit_iff.1 (List.mem_takeWhile_imp hd)⟩

theorem rule_munchNumber {c : Char} (hc : c.isDigit = true) (cs : List Char) :
    Rule (munchNumber c cs).text (munchNumber c cs).lexeme := by
  have hwhole : IsNumeral (c :: cs.takeWhile Char.isDigit) := by
    have hnumeral := isNumeral_takeWhile (c :: cs)
    rw [List.takeWhile_cons, if_pos hc] at hnumeral
    exact hnumeral (List.cons_ne_nil _ _)
  by_cases h : ∃ rest, cs.dropWhile Char.isDigit = '.' :: rest ∧ rest.takeWhile Char.isDigit ≠ []
  · obtain ⟨rest, hrest, hne⟩ := h
    rw [munchNumber_fraction hrest hne]
    exact .fraction hwhole (isNumeral_takeWhile rest hne)
  · rw [munchNumber_whole (by simpa using h)]
    exact .whole hwhole

/-- The rule for a name: it is a keyword, or else an identifier. -/
theorem IsName.rule {w : List Char} (h : IsName w) :
    Rule w (.token (.symbol ((keywords.lookup (String.ofList w)).getD .identifier))) := by
  cases hlookup : keywords.lookup (String.ofList w) with
  | none =>
    refine .identifier h fun s hs => ?_
    rw [lookup_keywords hs] at hlookup
    cases hlookup
  | some s => exact .keyword h (mem_of_lookup hlookup)

theorem rule_munchName {c : Char} (hc : isNameStart c = true) (cs : List Char) :
    Rule (munchName c cs).text (munchName c cs).lexeme := by
  have hname : IsName (c :: cs.takeWhile isNameRest) :=
    ⟨isNameStart_iff.1 hc, fun _ hd => isNameRest_iff.1 (List.mem_takeWhile_imp hd)⟩
  exact hname.rule

theorem rule_munch {c : Char} {cs : List Char} (h : ∀ f, (munch c cs).lexeme ≠ .fault f) :
    Rule (munch c cs).text (munch c cs).lexeme := by
  unfold munch at h ⊢
  split_ifs at h ⊢ with hblank hslash hquote hdigit hname
  · exact .blank (isBlank_iff.1 hblank)
  · exact rule_munchSlash cs
  · exact rule_munchString h
  · exact rule_munchNumber hdigit cs
  · exact rule_munchName hname cs
  · split at h
    · next s hs =>
      have hall : ∀ p ∈ punctuation, ([p.1], p.2) ∈ operators := by decide
      exact .operator (hall _ (mem_of_lookup hs))
    · split at h
      · next alone extended hs =>
        have hall : ∀ p ∈ comparisons,
            ([p.1], p.2.1) ∈ operators ∧ ([p.1, '='], p.2.2) ∈ operators := by decide
        obtain ⟨halone, hextended⟩ := hall _ (mem_of_lookup hs)
        split at h
        · exact .operator hextended
        · exact .operator halone
      · exact absurd rfl (h _)

/-! ### The longest match -/

/-- What a rule matches at the front of a text is no more than what is taken. -/
theorem Rule.takes {c : Char} {cs w : List Char} {lexeme : Lexeme} (h : Rule w lexeme)
    (hw : w <+: c :: cs) : (munch c cs).Takes w lexeme := by
  obtain ⟨rest, hrest⟩ := hw
  cases w with
  | nil => exact absurd rfl h.ne_nil
  | cons d w =>
    obtain ⟨rfl, rfl⟩ := List.cons.inj hrest
    exact h.taken rest

/-- A lexeme that is no fault is the longest match. -/
theorem munch_longest {c : Char} {cs : List Char} (h : ∀ f, (munch c cs).lexeme ≠ .fault f) :
    LongestMatch (c :: cs) (munch c cs).text (munch c cs).lexeme where
  rule := rule_munch h
  front := munch_prefix c cs
  longest w lexeme hrule hw := by
    obtain ⟨-, more, htext, -⟩ := hrule.takes hw
    rw [htext, List.length_append]
    exact Nat.le_add_right _ _

/-- There is a fault exactly if no rule matches. -/
theorem munch_fault_iff {c : Char} {cs : List Char} :
    (∃ f, (munch c cs).lexeme = .fault f) ↔ NoMatch (c :: cs) := by
  constructor
  · rintro ⟨f, hf⟩ w lexeme hrule hw
    exact (hrule.takes hw).1 f hf
  · intro hnone
    by_contra hno
    have hmatch := munch_longest fun f hf => hno ⟨f, hf⟩
    exact hnone _ _ hmatch.rule hmatch.front

/-- There is only one longest match, and it is what is taken. -/
theorem LongestMatch.munch_eq {c : Char} {cs w : List Char} {lexeme : Lexeme}
    (h : LongestMatch (c :: cs) w lexeme) : munch c cs = ⟨lexeme, w⟩ := by
  obtain ⟨hfault, more, htext, hlexeme⟩ := h.rule.takes h.front
  have hmunch := munch_longest hfault
  have hle := h.longest _ _ hmunch.rule hmunch.front
  have hmore : more = [] := by
    rw [htext, List.length_append] at hle
    exact List.length_eq_zero_iff.1 (by omega)
  rw [hmore, List.append_nil] at htext
  rw [← htext, ← hlexeme hmore]

/-- Where no rule matches, a quote is left without another one, and any other character is taken by
itself. -/
theorem NoMatch.munch_eq {c : Char} {cs : List Char} (h : NoMatch (c :: cs)) :
    c ≠ '"' ∧ munch c cs = ⟨.fault (.unexpectedCharacter c), [c]⟩ ∨
      c = '"' ∧ '"' ∉ cs ∧ munch c cs = ⟨.fault .unterminatedString, '"' :: cs⟩ := by
  obtain ⟨f, hf⟩ := munch_fault_iff.2 h
  obtain ⟨rest, hrest⟩ := munch_prefix c cs
  have hfits := munch_fits c cs
  rw [Munch.Fits, hf] at hfits
  cases f with
  | unexpectedCharacter d =>
    refine .inl ⟨?_, ?_⟩
    · rintro rfl
      change (munchString cs).lexeme = _ at hf
      unfold munchString at hf
      split at hf
      · cases hf
      · cases hf
    · rw [hfits] at hrest
      obtain ⟨rfl, -⟩ := List.cons.inj hrest
      rw [← hf, ← hfits]
  | unterminatedString =>
    obtain ⟨htext, hquote⟩ := hfits
    rw [htext] at hrest
    obtain ⟨rfl, -⟩ := List.cons.inj hrest
    exact .inr ⟨rfl, hquote, by rw [← hf, ← htext]⟩

/-- A name has the kind of a keyword exactly if it is spelled so. -/
theorem munch_keyword_iff {c : Char} {cs : List Char} (h : IsName (munch c cs).text)
    {k : String × Symbol} (hk : k ∈ keywords) :
    (munch c cs).lexeme = .token (.symbol k.2) ↔ String.ofList (munch c cs).text = k.1 := by
  have hmunch := munch_prefix c cs
  obtain ⟨-, more, hmore, hlexeme⟩ := h.rule.takes hmunch
  rw [hlexeme (by simpa using hmore)]
  simp only [Lexeme.token.injEq, TokenKind.symbol.injEq]
  constructor
  · intro hsymbol
    cases hlookup : keywords.lookup (String.ofList (munch c cs).text) with
    | none =>
      rw [hlookup] at hsymbol
      exact absurd hsymbol.symm (keyword_unique k hk).1
    | some s =>
      rw [hlookup] at hsymbol
      exact (keyword_unique _ (mem_of_lookup hlookup)).2 k hk hsymbol
  · intro hspelled
    rw [hspelled, lookup_keywords hk]
    rfl

/-! ### The reference lexer -/

/-- Reading goes on after the longest match. -/
theorem scanFrom_match {w rest : List Char} {lexeme : Lexeme}
    (h : LongestMatch (w ++ rest) w lexeme) (line : Nat) :
    scanFrom line 0 (w ++ rest) =
      (Munch.item? ⟨lexeme, w⟩ (line + w.count '\n')).toList ++
        scanFrom (line + w.count '\n') 0 rest := by
  cases w with
  | nil => exact absurd rfl h.rule.ne_nil
  | cons c w =>
    have hmunch : munch c (w ++ rest) = ⟨lexeme, c :: w⟩ := h.munch_eq
    have htext : (munch c (w ++ rest)).text ++ rest = c :: (w ++ rest) := by rw [hmunch]; rfl
    have hread := scanFrom_lexeme htext line
    rwa [hmunch] at hread

/-- A character that is taken by itself is no line break. -/
theorem scanFrom_unexpected {c : Char} {cs : List Char} (h : NoMatch (c :: cs))
    (hmunch : munch c cs = ⟨.fault (.unexpectedCharacter c), [c]⟩) (line : Nat) :
    scanFrom line 0 (c :: cs) = .error ⟨line, .unexpectedCharacter c⟩ :: scanFrom line 0 cs := by
  have hline : [c].count '\n' = 0 := by
    rw [List.count_eq_zero, List.mem_singleton]
    rintro rfl
    exact h ['\n'] .gap (.blank (by decide)) ⟨cs, rfl⟩
  have htext : (munch c cs).text ++ cs = c :: cs := by rw [hmunch]; rfl
  rw [scanFrom_lexeme htext, hmunch, hline]
  rfl

theorem scanFrom_unterminated {cs : List Char}
    (hmunch : munch '"' cs = ⟨.fault .unterminatedString, '"' :: cs⟩) (line : Nat) :
    scanFrom line 0 ('"' :: cs) = .error ⟨line + cs.count '\n', .unterminatedString⟩ ::
      scanFrom (line + cs.count '\n') 0 [] := by
  have hline : ('"' :: cs).count '\n' = cs.count '\n' := List.count_cons_of_ne (by decide)
  have htext : (munch '"' cs).text ++ [] = '"' :: cs := by rw [hmunch, List.append_nil]
  rw [scanFrom_lexeme htext, hmunch, hline]
  rfl

/-- Reading gives what the rules alone give. -/
theorem lexes_scanFrom (line : Nat) (cs : List Char) : Lexes line cs (scanFrom line 0 cs) := by
  induction hn : cs.length using Nat.strongRecOn generalizing line cs with
  | _ n ih =>
  subst hn
  cases cs with
  | nil => exact .done
  | cons c cs =>
    by_cases hnone : NoMatch (c :: cs)
    · rcases hnone.munch_eq with ⟨hquote, hmunch⟩ | ⟨rfl, -, hmunch⟩
      · rw [scanFrom_unexpected hnone hmunch]
        exact .unexpected hnone hquote (ih _ (Nat.lt_succ_self _) _ cs rfl)
      · rw [scanFrom_unterminated hmunch]
        exact .unterminated hnone .done
    · have hfault : ∀ f, (munch c cs).lexeme ≠ .fault f := fun f hf =>
        hnone (munch_fault_iff.1 ⟨f, hf⟩)
      have hmatch := munch_longest hfault
      obtain ⟨rest, hrest⟩ := munch_prefix c cs
      have hshort : rest.length < (c :: cs).length := by
        have hpos := List.length_pos_of_ne_nil (munch_text_ne_nil c cs)
        rw [← hrest, List.length_append]
        omega
      have hlexes := fun line => ih _ hshort line rest rfl
      rw [scanFrom_lexeme hrest]
      rw [← hrest] at hmatch ⊢
      unfold Munch.item?
      cases hlexeme : (munch c cs).lexeme with
      | gap => exact .gap (hlexeme ▸ hmatch) (hlexes _)
      | token kind => exact .token (hlexeme ▸ hmatch) (hlexes _)
      | fault f => exact absurd hlexeme (hfault f)

/-- The rules give no other items. -/
theorem Lexes.eq_scanFrom {line : Nat} {cs : List Char} {items : List Item}
    (h : Lexes line cs items) : items = scanFrom line 0 cs := by
  induction h with
  | done => rfl
  | gap hmatch _ ih => rw [scanFrom_match hmatch, ← ih]; rfl
  | token hmatch _ ih => rw [scanFrom_match hmatch, ← ih]; rfl
  | unexpected hnone hquote _ ih =>
    rcases hnone.munch_eq with ⟨-, hmunch⟩ | ⟨hc, -⟩
    · rw [scanFrom_unexpected hnone hmunch, ih]
    · exact absurd hc hquote
  | unterminated hnone _ ih =>
    rcases hnone.munch_eq with ⟨hc, -⟩ | ⟨-, -, hmunch⟩
    · exact absurd rfl hc
    · rw [scanFrom_unterminated hmunch, ih]

end Scan

/-- Whatever is left of a text, the reader takes the longest prefix that a rule of the lexical grammar
matches, as what the rule says; a name is a keyword exactly if it is one of those listed.  There is an
error exactly if no rule matches, because of a character that begins no lexeme or of a quote without
another one after it.  So the items of a text are those that the rules alone give. -/
theorem scan_takes_longest :
    (∀ (c : Char) (cs : List Char),
      ((∀ f, (Scan.munch c cs).lexeme ≠ .fault f) →
        Scan.LongestMatch (c :: cs) (Scan.munch c cs).text (Scan.munch c cs).lexeme) ∧
      (Scan.IsName (Scan.munch c cs).text → ∀ k ∈ keywords,
        ((Scan.munch c cs).lexeme = .token (.symbol k.2) ↔
          String.ofList (Scan.munch c cs).text = k.1)) ∧
      ((∃ f, (Scan.munch c cs).lexeme = .fault f) ↔ Scan.NoMatch (c :: cs)) ∧
      (Scan.NoMatch (c :: cs) →
        c ≠ '"' ∧ Scan.munch c cs = ⟨.fault (.unexpectedCharacter c), [c]⟩ ∨
        c = '"' ∧ '"' ∉ cs ∧ Scan.munch c cs = ⟨.fault .unterminatedString, '"' :: cs⟩)) ∧
    ∀ (source : String) (items : List Item),
      Scan.Lexes 1 source.toList items ↔ items = scan source := by
  refine ⟨fun c cs => ⟨Scan.munch_longest, fun h k hk => ?_, Scan.munch_fault_iff,
    Scan.NoMatch.munch_eq⟩, fun source items => ⟨Scan.Lexes.eq_scanFrom, ?_⟩⟩
  · exact Scan.munch_keyword_iff h hk
  · rintro rfl
    exact Scan.lexes_scanFrom 1 source.toList

end LoxLang
