import LoxLang.Proofs.Decimal.Sign
import LoxLang.Proofs.Decimal.Shortest
import LoxLang.Proofs.Print.Words

/-!
# The two texts of a number literal

A number literal is written in a token listing and in a printed tree.  The two texts are the same unless
the number is whole and does not fit in a signed 64-bit word (`literal_texts_agree_iff`).  The printed tree
shows a fraction part in every case; the listing of such a number has digits only.
-/

namespace LoxLang

open Decimal

/-- The text consists of digits, a point and more digits. -/
def HasFraction (text : String) : Prop :=
  ∃ whole fraction, text.toList = whole ++ '.' :: fraction ∧
    Scan.IsNumeral whole ∧ Scan.IsNumeral fraction

theorem not_hasFraction {text : String} (h : Scan.IsNumeral text.toList) : ¬HasFraction text := by
  rintro ⟨whole, fraction, htext, -, -⟩
  have hpoint : Scan.IsDigit '.' :=
    h.2 '.' (htext ▸ List.mem_append_right whole List.mem_cons_self)
  exact absurd hpoint.1 (by decide)

/-! ### Texts of decimals -/

theorem isNumeral_toString (n : Nat) : Scan.IsNumeral (toString n).toList := by
  rw [Nat.toString_eq_ofList_toDigits, String.toList_ofList]
  exact ⟨Nat.toDigits_ne_nil, fun c hc =>
    Scan.isDigit_iff.1 (Nat.isDigit_of_mem_toDigits (by decide) (by decide) hc)⟩

theorem isDigit_of_mem_zeros {n : Nat} {c : Char} (hc : c ∈ List.replicate n '0') : Scan.IsDigit c :=
  List.eq_of_mem_replicate hc ▸ ⟨by decide, by decide⟩

theorem hasFraction_whole (n : Nat) : HasFraction (toString n ++ ".0") :=
  ⟨(toString n).toList, ['0'], String.toList_append, isNumeral_toString n, by decide, by
    simp [Scan.IsDigit]⟩

variable {d : Numeral}

theorem isNumeral_positional (h : 0 ≤ d.exponent) : Scan.IsNumeral d.positional.toList := by
  have hdigits := isNumeral_toString d.digits
  rw [Numeral.positional]
  dsimp only
  rw [if_pos h, toList_pushn]
  exact ⟨List.append_ne_nil_of_left_ne_nil hdigits.1 _,
    List.forall_mem_append.2 ⟨hdigits.2, fun c hc => isDigit_of_mem_zeros hc⟩⟩

theorem hasFraction_positional (h : d.exponent < 0) : HasFraction d.positional := by
  have hdigits := isNumeral_toString d.digits
  rw [Numeral.positional]
  dsimp only
  rw [if_neg (Int.not_le.2 h), List.splitAt_eq]
  generalize hpadded : List.replicate ((-d.exponent).toNat + 1 - (toString d.digits).length) '0' ++
    (toString d.digits).toList = padded
  have hall : ∀ c ∈ padded, Scan.IsDigit c := by
    rw [← hpadded]
    exact List.forall_mem_append.2 ⟨fun c hc => isDigit_of_mem_zeros hc, hdigits.2⟩
  -- the padding leaves a digit before the point
  have hlength : (-d.exponent).toNat + 1 ≤ padded.length := by
    rw [← hpadded, List.length_append, List.length_replicate, String.length_toList]
    omega
  refine ⟨_, _, String.toList_ofList, ⟨?_, fun c hc => hall c (List.mem_of_mem_take hc)⟩,
    ⟨?_, fun c hc => hall c (List.mem_of_mem_drop hc)⟩⟩
  · rw [← List.length_pos_iff, List.length_take]
    omega
  · rw [← List.length_pos_iff, List.length_drop]
    omega

/-! ### Texts of doubles -/

namespace Number

variable {x : Float} {v : Finite}

theorem literal_eq (hx : Binary.ofFloat x = .finite v) (hsign : v.negative = false) :
    literal x = if v.isWhole then toString v.whole ++ ".0" else (shortest .up v).positional := by
  rw [literal, withFinite, hx]
  simp [wholeDigits, plainFinite, sign, hsign]

theorem scanned_eq (hx : Binary.ofFloat x = .finite v) (hsign : v.negative = false) :
    scanned x = if v.isWhole = true ∧ v.whole < 2 ^ 63 then toString v.whole ++ ".0"
      else (shortest .up v).positional := by
  rw [scanned, withFinite, hx]
  simp [plainFinite, sign, hsign]

/-- The text in a printed tree has a fraction part. -/
theorem hasFraction_literal (hx : Binary.ofFloat x = .finite v) (hsign : v.negative = false) :
    HasFraction (literal x) := by
  rw [literal_eq hx hsign]
  split
  · exact hasFraction_whole v.whole
  · next hwhole =>
    exact hasFraction_positional
      (exponent_shortest_neg .up (isDouble_of_ofFloat hx) (Bool.eq_false_iff.2 hwhole))

/-- The text in a listing is that in a printed tree unless the number is whole and large. -/
theorem scanned_eq_literal (hx : Binary.ofFloat x = .finite v) (hsign : v.negative = false)
    (hsmall : ¬(v.isWhole = true ∧ 2 ^ 63 ≤ v.whole)) : scanned x = literal x := by
  rw [scanned_eq hx hsign, literal_eq hx hsign]
  by_cases hwhole : v.isWhole = true
  · rw [if_pos hwhole, if_pos ⟨hwhole, Nat.lt_of_not_le fun hle => hsmall ⟨hwhole, hle⟩⟩]
  · rw [if_neg hwhole, if_neg fun h => hwhole h.1]

/-- The text in a listing of a whole and large number has no fraction part. -/
theorem isNumeral_scanned (hx : Binary.ofFloat x = .finite v) (hsign : v.negative = false)
    (hlarge : 2 ^ 63 ≤ v.whole) : Scan.IsNumeral (scanned x).toList := by
  rw [scanned_eq hx hsign, if_neg fun h => Nat.not_lt_of_le hlarge h.2]
  refine isNumeral_positional (exponent_shortest_nonneg .up (isDouble_of_ofFloat hx) ?_)
  exact (show 10 ^ 18 ≤ 2 ^ 63 by decide).trans hlarge

end Number

/-- A number literal has no sign. -/
theorem Token.Lexed.signBit_eq {t : Token} (h : t.Lexed) {x : Float} (hkind : t.kind = .number x) :
    signBit x = false := by
  have hrule := h.rule
  rw [hkind] at hrule
  generalize t.lexeme.toList = text at hrule
  cases hrule with
  | whole _ => exact signBit_ofScientific _ _
  | fraction _ _ => exact signBit_ofScientific _ _

/-- A number token is an expression by itself. -/
theorem Parse.primary_number {t : Token} {x : Float} (hkind : t.kind = .number x) (fuel : Nat)
    (rest : List Token) :
    Parse.primary (fuel + 1) (t :: rest) = .done (.literal (.number x)) rest [] := by
  have hatom : Parse.atom? t = some (.literal (.number x)) := by rw [Parse.atom?, hkind]
  rw [Parse.primary, Parse.bind_apply, Parse.take?, hatom]
  rfl

/-- The literal of a finite number token has one text in the listing and one in the tree.  That in the tree
always has a fraction part; they are the same unless the number is whole and at least `2 ^ 63`, and
then the listing has digits only. -/
theorem literal_texts_agree_iff {source : String} {t : Token} {x : Float} {v : Finite}
    (ht : t ∈ tokensOf (scan source)) (hkind : t.kind = .number x)
    (hx : Binary.ofFloat x = .finite v) :
    ∃ e text, (∀ fuel rest, Parse.primary (fuel + 1) (t :: rest) = .done e rest []) ∧
      t.listing = "NUMBER " ++ t.lexeme ++ " " ++ text ∧ HasFraction e.render ∧
      (text = e.render ↔ ¬(v.isWhole = true ∧ 2 ^ 63 ≤ v.whole)) ∧
      (v.isWhole = true ∧ 2 ^ 63 ≤ v.whole → Scan.IsNumeral text.toList) := by
  have hend : t.isEnd = false := by rw [Token.isEnd, Token.is, hkind]; rfl
  have hsign : v.negative = false :=
    (negative_eq hx).trans ((lexed_of_mem_scan ht hend).signBit_eq hkind)
  have hfraction := Number.hasFraction_literal hx hsign
  refine ⟨.literal (.number x), Number.scanned x, Parse.primary_number hkind, ?_, ?_, ⟨?_, ?_⟩, ?_⟩
  · rw [Token.listing, hkind]
    simp [TokenKind.name, TokenKind.literal, ToString.toString, String.append_assoc]
  · rwa [Expr.render, Literal.render]
  · rw [Expr.render, Literal.render]
    rintro htext ⟨-, hlarge⟩
    exact not_hasFraction (Number.isNumeral_scanned hx hsign hlarge) (htext ▸ hfraction)
  · rw [Expr.render, Literal.render]
    exact Number.scanned_eq_literal hx hsign
  · exact fun h => Number.isNumeral_scanned hx hsign h.2

/-- A literal with a trailing zero, which neither text shows. -/
theorem fraction_literal_has_one_text :
    ∃ t ∈ tokensOf (scan "12.50"), ∃ e,
      (∀ fuel rest, Parse.primary (fuel + 1) (t :: rest) = .done e rest []) ∧
      t.listing = "NUMBER " ++ t.lexeme ++ " " ++ e.render ∧ HasFraction e.render := by
  have htokens : tokensOf (scan "12.50") =
      [⟨.number (Scan.numberValue ['1', '2'] ['5', '0']), "12.50", 1⟩,
        ⟨.symbol .endOfInput, "", 1⟩] := rfl
  have ht : ⟨.number (Scan.numberValue ['1', '2'] ['5', '0']), "12.50", 1⟩ ∈
      tokensOf (scan "12.50") := htokens ▸ List.mem_cons_self
  have hx : Binary.ofFloat (Scan.numberValue ['1', '2'] ['5', '0']) =
      .finite ⟨false, 25 * 2 ^ 48, -49, false⟩ := by decide +kernel
  obtain ⟨e, text, hnode, hlisting, hfraction, hagree, -⟩ := literal_texts_agree_iff ht rfl hx
  exact ⟨_, ht, e, hnode, hagree.2 (by decide) ▸ hlisting, hfraction⟩

/-- The least whole number that does not fit in a signed 64-bit word has two texts, and its listing has no
fraction part. -/
theorem large_literal_has_two_texts :
    ∃ t ∈ tokensOf (scan "9223372036854775808"), ∃ x v e,
      t.kind = .number x ∧ Binary.ofFloat x = .finite v ∧ Parse.primary 1 [t] = .done e [] [] ∧
      t.listing = "NUMBER 9223372036854775808 9223372036854776000" ∧
      "NUMBER " ++ t.lexeme ++ " " ++ e.render =
        "NUMBER 9223372036854775808 9223372036854775808.0" := by
  have htokens : tokensOf (scan "9223372036854775808") =
      [⟨.number (Scan.numberValue "9223372036854775808".toList []), "9223372036854775808", 1⟩,
        ⟨.symbol .endOfInput, "", 1⟩] := rfl
  have hx : Binary.ofFloat (Scan.numberValue "9223372036854775808".toList []) =
      .finite ⟨false, 2 ^ 52, 11, true⟩ := by decide +kernel
  refine ⟨_, htokens ▸ List.mem_cons_self, _, _, _, rfl, hx, rfl, ?_, ?_⟩
  · decide +kernel
  · decide +kernel

end LoxLang
