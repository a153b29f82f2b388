import LoxLang.Proofs.Print.Form
import LoxLang.Proofs.Parse.Composed
import LoxLang.Proofs.Token.Longest

/-!
# The words of a printed tree

The words in a printed tree are texts of tokens and of literals.  The text of a token tells its kind, and
where a kind has one text only, the kind tells the text (`Token.Lexed.kind_eq`, `lexeme_mem_texts`).  The
text of a finite number has no letter in it (`Number.literal_isNumeric`), so that it is not the text of any
name.
-/

namespace LoxLang

/-! ### Texts of tokens -/

/-- The symbols that have one text only, with that text. -/
def spellings : List (String × Symbol) :=
  Scan.operators.map (fun p => (String.ofList p.1, p.2)) ++ keywords

/-- The texts of tokens with one of the symbols. -/
def textsOf (symbols : List Symbol) : List String :=
  (spellings.filter fun p => symbols.contains p.2).map (·.1)

theorem Token.Lexed.rule {t : Token} (h : t.Lexed) : Scan.Rule t.lexeme.toList (.token t.kind) := by
  obtain ⟨c, cs, htext, hmunch⟩ := h
  have hrule := @Scan.rule_munch c cs (by rw [hmunch]; exact Scan.token_ne_fault _)
  rwa [hmunch, ← htext] at hrule

theorem lexed_of_mem_scan {source : String} {t : Token} (ht : t ∈ tokensOf (scan source))
    (hend : t.isEnd = false) : t.Lexed := by
  obtain ⟨items, line, hitems, hlexed⟩ := Scan.scanFrom_lexed 1 0 source.toList
  have hmem := mem_of_mem_tokensOf ht
  rw [scan, hitems] at hmem
  rcases List.mem_append.1 hmem with hmem | hlast
  · exact hlexed t hmem
  · obtain rfl := Item.token.inj (List.mem_singleton.1 hlast)
    cases hend

/-- The text of a token tells its kind. -/
theorem Token.Lexed.kind_eq {t t' : Token} (h : t.Lexed) (h' : t'.Lexed)
    (htext : t.lexeme = t'.lexeme) : t.kind = t'.kind := by
  obtain ⟨c, cs, hcs, hmunch⟩ := h
  obtain ⟨c', cs', hcs', hmunch'⟩ := h'
  rw [htext, hcs'] at hcs
  obtain ⟨rfl, rfl⟩ := List.cons.inj hcs
  simpa using hmunch.symm.trans hmunch'

/-- A token with a symbol has the text of that symbol, or is a name that is no keyword. -/
theorem Token.Lexed.spelling {t : Token} (h : t.Lexed) {s : Symbol} (hkind : t.kind = .symbol s) :
    (t.lexeme, s) ∈ spellings ∨
      s = .identifier ∧ Scan.IsName t.lexeme.toList ∧ ∀ s, (t.lexeme, s) ∉ keywords := by
  have hrule := h.rule
  rw [hkind] at hrule
  generalize htext : t.lexeme.toList = text at hrule
  have hlexeme : t.lexeme = String.ofList text := by rw [← htext, String.ofList_toList]
  rw [hlexeme]
  cases hrule with
  | operator hmem => exact .inl (List.mem_append_left _ (List.mem_map.2 ⟨_, hmem, rfl⟩))
  | keyword _ hmem => exact .inl (List.mem_append_right _ hmem)
  | identifier hname hnone => exact .inr ⟨rfl, hname, hnone⟩

/-- A token with one of the symbols has one of their texts, unless it is an identifier. -/
theorem lexeme_mem_texts {symbols : List Symbol} {t : Token} (h : Parse.Placed Token.Lexed symbols t)
    (hid : .identifier ∉ symbols) : t.lexeme ∈ textsOf symbols := by
  obtain ⟨s, hs, ht⟩ := List.any_eq_true.1 h.2
  rcases h.1.spelling (TokenKind.is_iff.1 ht) with hlisted | ⟨rfl, -⟩
  · exact List.mem_map.2 ⟨_, List.mem_filter.2 ⟨hlisted, by simpa using hs⟩, rfl⟩
  · exact absurd hs hid

/-- An identifier is a name, and no keyword. -/
theorem isName_of_identifier {t : Token} (h : Parse.Placed Token.Lexed [.identifier] t) :
    Scan.IsName t.lexeme.toList ∧ ∀ s, (t.lexeme, s) ∉ keywords := by
  have hkind : t.kind = .symbol .identifier := TokenKind.is_iff.1 (by simpa [Token.is] using h.2)
  have hunlisted : ∀ p ∈ spellings, p.2 ≠ .identifier := by decide
  rcases h.1.spelling hkind with hlisted | ⟨-, hname⟩
  · exact absurd rfl (hunlisted _ hlisted)
  · exact hname

/-! ### Texts of numbers -/

/-- A digit, a point or a sign. -/
def IsFigure (c : Char) : Prop := c.isDigit = true ∨ c = '.' ∨ c = '-'

/-- The text consists of digits, points and signs. -/
def IsNumeric (text : String) : Prop := text.toList ≠ [] ∧ ∀ c ∈ text.toList, IsFigure c

theorem IsNumeric.append {text more : String} (h : IsNumeric text)
    (hmore : ∀ c ∈ more.toList, IsFigure c) : IsNumeric (text ++ more) := by
  rw [IsNumeric, String.toList_append]
  exact ⟨List.append_ne_nil_of_left_ne_nil h.1 _, List.forall_mem_append.2 ⟨h.2, hmore⟩⟩

theorem IsNumeric.prepend {text : String} (h : IsNumeric text) {before : String}
    (hbefore : ∀ c ∈ before.toList, IsFigure c) : IsNumeric (before ++ text) := by
  rw [IsNumeric, String.toList_append]
  exact ⟨List.append_ne_nil_of_right_ne_nil _ h.1, List.forall_mem_append.2 ⟨hbefore, h.2⟩⟩

theorem isNumeric_toString (n : Nat) : IsNumeric (toString n) := by
  rw [IsNumeric, Nat.toString_eq_ofList_toDigits, String.toList_ofList]
  exact ⟨Nat.toDigits_ne_nil, fun c hc =>
    .inl (Nat.isDigit_of_mem_toDigits (by decide) (by decide) hc)⟩

theorem toList_pushn (text : String) (c : Char) (n : Nat) :
    (text.pushn c n).toList = text.toList ++ List.replicate n c := by
  rw [String.pushn_eq_repeat_push]
  induction n with
  | zero => simp [Nat.repeat]
  | succ n ih => rw [Nat.repeat, String.toList_push, ih, List.append_assoc, List.replicate_succ']

namespace Number

open Decimal

theorem isNumeric_positional (d : Numeral) : IsNumeric d.positional := by
  have hdigits := isNumeric_toString d.digits
  have hzero : IsFigure '0' := .inl (by decide)
  unfold Numeral.positional
  dsimp only
  split
  · rw [IsNumeric, toList_pushn]
    exact ⟨List.append_ne_nil_of_left_ne_nil hdigits.1 _,
      List.forall_mem_append.2 ⟨hdigits.2, fun c hc => List.eq_of_mem_replicate hc ▸ hzero⟩⟩
  · generalize hpadded : List.replicate ((-d.exponent).toNat + 1 - (toString d.digits).length) '0' ++
      (toString d.digits).toList = padded
    have hall : ∀ c ∈ padded, IsFigure c := by
      rw [← hpadded]
      exact List.forall_mem_append.2 ⟨fun c hc => List.eq_of_mem_replicate hc ▸ hzero, hdigits.2⟩
    rw [List.splitAt_eq, IsNumeric, String.toList_ofList]
    refine ⟨List.append_ne_nil_of_right_ne_nil _ (List.cons_ne_nil _ _), List.forall_mem_append.2 ⟨?_, ?_⟩⟩
    · exact fun c hc => hall c (List.mem_of_mem_take hc)
    · exact List.forall_mem_cons.2 ⟨.inr (.inl rfl), fun c hc => hall c (List.mem_of_mem_drop hc)⟩

theorem isFigure_sign (negative : Bool) : ∀ c ∈ (sign negative).toList, IsFigure c := by
  cases negative with
  | false => simp [sign]
  | true => simp [sign, IsFigure]

/-- The text of a finite number consists of digits, points and signs. -/
theorem literal_isNumeric {x : Float} {v : Finite} (hx : Binary.ofFloat x = .finite v) :
    IsNumeric (literal x) := by
  unfold literal withFinite
  rw [hx]
  dsimp only
  split
  · refine ((isNumeric_toString _).prepend (isFigure_sign _)).append fun c hc => ?_
    have hmark : c = '.' ∨ c = '0' := by simpa using hc
    rcases hmark with rfl | rfl
    · exact .inr (.inl rfl)
    · exact .inl (by decide)
  · exact (isNumeric_positional _).prepend (isFigure_sign _)

end Number

/-! ### Words -/

theorem IsNumeric.isWord {text : String} (h : IsNumeric text) : Form.IsWord text := by
  refine ⟨h.1, fun c hc hmem => ?_⟩
  have hnone : ∀ d ∈ Form.delimiters, ¬ (d.isDigit = true ∨ d = '.' ∨ d = '-') := by
    simp [Form.delimiters]
  exact hnone c hmem (h.2 c hc)

theorem isWord_of_isName {text : String} (h : Scan.IsName text.toList) : Form.IsWord text := by
  unfold Form.IsWord
  generalize text.toList = cs at h
  cases cs with
  | nil => exact absurd h id
  | cons c cs =>
    refine ⟨List.cons_ne_nil _ _, fun d hd hmem => ?_⟩
    have hrest : Scan.isNameRest d = true := by
      rcases List.mem_cons.1 hd with rfl | hd
      · exact Scan.isNameRest_iff.2 (.inl h.1)
      · exact Scan.isNameRest_iff.2 (h.2 d hd)
    simp only [Form.delimiters, List.mem_cons, List.not_mem_nil, or_false] at hmem
    rcases hmem with rfl | rfl | rfl <;> revert hrest <;> decide

/-- A name begins with a letter. -/
theorem head_of_isName {text : String} (h : Scan.IsName text.toList) :
    text.toList.head?.any Scan.isNameStart = true := by
  generalize text.toList = cs at h
  cases cs with
  | nil => exact absurd h id
  | cons c cs => exact Scan.isNameStart_iff.2 h.1

/-- A number does not begin with a letter. -/
theorem IsNumeric.head {text : String} (h : IsNumeric text) :
    text.toList.head?.any Scan.isNameStart = false := by
  obtain ⟨c, cs, htext⟩ := List.exists_cons_of_ne_nil h.1
  have hc : IsFigure c := h.2 c (htext ▸ List.mem_cons_self)
  rw [htext, List.head?_cons, Option.any_some]
  rcases hc with hdigit | rfl | rfl
  · exact Bool.eq_false_iff.2 fun hname => (Scan.isNameStart_iff.1 hname).not_isDigit hdigit
  · decide
  · decide

end LoxLang
