import LoxLang.Token.Scan
import Mathlib.Data.List.Basic
import Mathlib.Tactic.SplitIfs

/-!
# How names and keywords are spelled

A token that is read from a text is an identifier only if its text is no keyword, and a keyword only
if its text is that keyword (`spelled_of_mem_tokensOf_scan`).
-/

namespace LoxLang

/-- The text of an identifier is no keyword, and a keyword has its own text. -/
def Token.Spelled (t : Token) : Prop :=
  (t.is .identifier → keywords.lookup t.lexeme = none) ∧
    ∀ name s, (name, s) ∈ keywords → t.is s → t.lexeme = name

/-- The symbol is neither that of identifiers nor that of a keyword. -/
def Symbol.isOperator (s : Symbol) : Bool :=
  s != .identifier && keywords.all (·.2 != s)

theorem spelled_of_isOperator {s : Symbol} (hs : s.isOperator = true) (text : String) (line : Nat) :
    (⟨.symbol s, text, line⟩ : Token).Spelled := by
  rw [Symbol.isOperator, Bool.and_eq_true, List.all_eq_true] at hs
  obtain ⟨hid, hkeywords⟩ := hs
  constructor
  · intro h
    rw [Token.is, TokenKind.symbol_is] at h
    simp [h] at hid
  · intro name s' hmem h
    rw [Token.is, TokenKind.symbol_is] at h
    have := hkeywords _ hmem
    simp [h] at this

theorem mem_of_lookup {α β : Type} [BEq α] [LawfulBEq α] {entries : List (α × β)} {a : α} {b : β}
    (h : entries.lookup a = some b) : (a, b) ∈ entries := by
  obtain ⟨before, after, rfl, -⟩ := List.lookup_eq_some_iff.1 h
  simp

/-- No two keywords share a symbol, and none has the symbol of identifiers. -/
theorem keyword_unique : ∀ k ∈ keywords, k.2 ≠ .identifier ∧
    ∀ k' ∈ keywords, k.2 = k'.2 → k.1 = k'.1 := by decide

theorem spelled_name (text : String) (line : Nat) :
    (⟨.symbol ((keywords.lookup text).getD .identifier), text, line⟩ : Token).Spelled := by
  cases h : keywords.lookup text with
  | none =>
    refine ⟨fun _ => h, fun name s hmem hs => ?_⟩
    rw [Token.is, TokenKind.symbol_is] at hs
    exact absurd hs.symm (keyword_unique _ hmem).1
  | some s =>
    have hmem := mem_of_lookup h
    constructor
    · intro hs
      rw [Token.is, TokenKind.symbol_is] at hs
      exact absurd hs (keyword_unique _ hmem).1
    · intro name s' hmem' hs
      rw [Token.is, TokenKind.symbol_is] at hs
      exact (keyword_unique _ hmem).2 _ hmem' hs

theorem spelled_literal {kind : TokenKind} (hkind : ∀ s, kind.is s = false) (text : String)
    (line : Nat) : (⟨kind, text, line⟩ : Token).Spelled := by
  constructor
  · intro h; simp [Token.is, hkind] at h
  · intro name s _ h; simp [Token.is, hkind] at h

namespace Scan

theorem punctuation_isOperator : ∀ p ∈ punctuation, p.2.isOperator = true := by decide

theorem comparisons_isOperator :
    ∀ p ∈ comparisons, p.2.1.isOperator = true ∧ p.2.2.isOperator = true := by decide

/-- If the lexeme is a token, it is spelled as its kind asks. -/
def Munch.Spelled (m : Munch) : Prop :=
  ∀ kind, m.lexeme = .token kind → ∀ line, (⟨kind, String.ofList m.text, line⟩ : Token).Spelled

theorem spelled_symbol {s : Symbol} (hs : s.isOperator = true) (text : List Char) :
    Munch.Spelled ⟨.token (.symbol s), text⟩ := by
  rintro _ ⟨⟩ line
  exact spelled_of_isOperator hs _ line

theorem spelled_munchSlash (cs : List Char) : (munchSlash cs).Spelled := by
  unfold munchSlash
  split
  · exact nofun
  · exact spelled_symbol (by decide) _

theorem spelled_munchString (cs : List Char) : (munchString cs).Spelled := by
  unfold munchString
  split
  · exact nofun
  · rintro _ ⟨⟩ line
    exact spelled_literal (fun _ => rfl) _ line

theorem spelled_munchNumber (c : Char) (cs : List Char) : (munchNumber c cs).Spelled := by
  unfold munchNumber
  dsimp only
  split_ifs
  · rintro _ ⟨⟩ line
    exact spelled_literal (fun _ => rfl) _ line
  · rintro _ ⟨⟩ line
    exact spelled_literal (fun _ => rfl) _ line

theorem spelled_munchName (c : Char) (cs : List Char) : (munchName c cs).Spelled := by
  rintro _ ⟨⟩ line
  exact spelled_name _ line

theorem spelled_munch (c : Char) (cs : List Char) : (munch c cs).Spelled := by
  unfold munch
  split_ifs
  · exact nofun
  · exact spelled_munchSlash cs
  · exact spelled_munchString cs
  · exact spelled_munchNumber c cs
  · exact spelled_munchName c cs
  · split
    · next s hs => exact spelled_symbol (punctuation_isOperator _ (mem_of_lookup hs)) _
    · split
      · next alone extended hs =>
        obtain ⟨halone, hextended⟩ := comparisons_isOperator _ (mem_of_lookup hs)
        split
        · exact spelled_symbol hextended _
        · exact spelled_symbol halone _
      · exact nofun

theorem spelled_of_mem_scanFrom {line skip : Nat} {cs : List Char} {t : Token}
    (h : .token t ∈ scanFrom line skip cs) : t.Spelled := by
  induction cs generalizing line skip with
  | nil =>
    cases skip <;>
    · rw [scanFrom, List.mem_singleton] at h
      cases h
      exact spelled_of_isOperator (by decide) _ _
  | cons c cs ih =>
    cases skip with
    | succ skip => exact ih h
    | zero =>
      rw [scanFrom] at h
      split at h
      · exact ih h
      · next kind hkind =>
        rcases List.mem_cons.1 h with heq | h
        · cases heq
          exact spelled_munch c cs kind hkind _
        · exact ih h
      · rcases List.mem_cons.1 h with heq | h
        · cases heq
        · exact ih h

end Scan

/-- Every token that is read from a text is spelled as its kind asks. -/
theorem spelled_of_mem_tokensOf_scan {source : String} {t : Token}
    (h : t ∈ tokensOf (scan source)) : t.Spelled := by
  obtain ⟨item, hitem, ht⟩ := List.mem_filterMap.1 h
  cases item with
  | token t' =>
    obtain rfl := Option.some.inj ht
    exact Scan.spelled_of_mem_scanFrom hitem
  | error e => cases ht

end LoxLang
