import LoxLang.Token

/-!
# Reading tokens from text

A text is cut into lexemes from left to right, each as long as its class allows (`munch`): operators
of one or two characters, names, numbers with an optional fraction, strings, and the blanks and
comments that separate them.  `scan` turns the lexemes into items: tokens, errors, and one token
for the end of the input.

* `Munch.text` is what a lexeme takes, and is never empty (`munch_text_ne_nil`);
* an item stands on the line where its text ends (`scanFrom`);
* an error never stops the reading: the text it covers is skipped.
-/

namespace LoxLang

/-- Why a piece of text is no token. -/
inductive LexicalFault where
  | unexpectedCharacter (c : Char)
  | unterminatedString
  deriving DecidableEq, Repr

/-- The wording of the fault. -/
def LexicalFault.message : LexicalFault → String
  | unexpectedCharacter c => s!"Unexpected character: {c}"
  | unterminatedString => "Unterminated string."

/-- A piece of text that is no token, and the line on which it ends. -/
structure LexicalError where
  line : Nat
  fault : LexicalFault
  deriving DecidableEq, Repr

/-- What reading yields: a token or an error. -/
inductive Item where
  | token (t : Token)
  | error (e : LexicalError)
  deriving Repr

namespace Scan

/-! ### Classes of characters -/

/-- A character that can start a name. -/
def isNameStart (c : Char) : Bool := c.isAlpha || c == '_'

/-- A character that can continue a name. -/
def isNameRest (c : Char) : Bool := c.isAlphanum || c == '_'

/-- A character that separates tokens. -/
def isBlank (c : Char) : Bool := c == ' ' || c == '\t' || c == '\r' || c == '\n'

/-- The characters that are an operator by themselves, whatever follows. -/
def punctuation : List (Char × Symbol) :=
  [('(', .leftParen), (')', .rightParen), ('{', .leftBrace), ('}', .rightBrace), (',', .comma),
   ('.', .dot), ('-', .minus), ('+', .plus), (';', .semicolon), ('*', .star)]

/-- The operators that an equals sign extends: the symbol alone and the symbol with it. -/
def comparisons : List (Char × Symbol × Symbol) :=
  [('!', .bang, .bangEqual), ('=', .equal, .equalEqual), ('<', .less, .lessEqual),
   ('>', .greater, .greaterEqual)]

/-! ### One lexeme -/

/-- What a lexeme stands for. -/
inductive Lexeme where
  /-- A blank or a comment. -/
  | gap
  | token (kind : TokenKind)
  | fault (f : LexicalFault)
  deriving Repr

/-- A lexeme and the text it takes. -/
structure Munch where
  lexeme : Lexeme
  text : List Char
  deriving Repr

/-- The number that digits and, after a point, further digits stand for: the nearest double. -/
def numberValue (whole fraction : List Char) : Float :=
  Float.ofScientific ((whole ++ fraction).foldl (fun n c => 10 * n + (c.toNat - '0'.toNat)) 0) true
    fraction.length

/-- The lexeme that starts with the digit `c`: digits, and a point with digits after it. -/
def munchNumber (c : Char) (cs : List Char) : Munch :=
  let whole := c :: cs.takeWhile Char.isDigit
  let fraction := match cs.dropWhile Char.isDigit with
    | '.' :: rest => rest.takeWhile Char.isDigit
    | _ => []
  if fraction.isEmpty then ⟨.token (.number (numberValue whole [])), whole⟩
  else ⟨.token (.number (numberValue whole fraction)), whole ++ '.' :: fraction⟩

/-- The lexeme that starts with the name character `c`: the longest name, or the keyword that is
spelled so. -/
def munchName (c : Char) (cs : List Char) : Munch :=
  let text := c :: cs.takeWhile isNameRest
  ⟨.token (.symbol ((keywords.lookup (String.ofList text)).getD .identifier)), text⟩

/-- The lexeme that starts with a quote: all up to the next quote, or a fault that covers the rest
of the text if there is none. -/
def munchString (cs : List Char) : Munch :=
  match cs.dropWhile (· != '"') with
  | [] => ⟨.fault .unterminatedString, '"' :: cs⟩
  | _ :: _ =>
    let contents := cs.takeWhile (· != '"')
    ⟨.token (.string (String.ofList contents)), '"' :: contents ++ ['"']⟩

/-- The lexeme that starts with a slash: a comment up to the end of the line, or a division. -/
def munchSlash (cs : List Char) : Munch :=
  match cs with
  | '/' :: _ => ⟨.gap, '/' :: cs.takeWhile (· != '\n')⟩
  | _ => ⟨.token (.symbol .slash), ['/']⟩

/-- The longest lexeme at the front of the text `c :: cs`. -/
def munch (c : Char) (cs : List Char) : Munch :=
  if isBlank c then ⟨.gap, [c]⟩
  else if c == '/' then munchSlash cs
  else if c == '"' then munchString cs
  else if c.isDigit then munchNumber c cs
  else if isNameStart c then munchName c cs
  else match punctuation.lookup c with
    | some s => ⟨.token (.symbol s), [c]⟩
    | none => match comparisons.lookup c with
      | some (alone, extended) =>
        match cs with
        | '=' :: _ => ⟨.token (.symbol extended), [c, '=']⟩
        | _ => ⟨.token (.symbol alone), [c]⟩
      | none => ⟨.fault (.unexpectedCharacter c), [c]⟩

/-- A lexeme takes at least one character, so reading always moves on. -/
theorem munch_text_ne_nil (c : Char) (cs : List Char) : (munch c cs).text ≠ [] := by
  unfold munch munchSlash munchString munchNumber munchName
  grind

/-! ### All lexemes -/

/-- The items of a text whose first character is on the given line, after `skip` characters that
belong to a lexeme already given.  A lexeme is numbered by the line on which it ends. -/
def scanFrom (line : Nat) : (skip : Nat) → List Char → List Item
  | _, [] => [.token ⟨.symbol .endOfInput, "", line⟩]
  | skip + 1, _ :: cs => scanFrom line skip cs
  | 0, c :: cs =>
    let m := munch c cs
    let line := line + m.text.count '\n'
    let skip := m.text.length - 1
    match m.lexeme with
    | .gap => scanFrom line skip cs
    | .token kind => .token ⟨kind, String.ofList m.text, line⟩ :: scanFrom line skip cs
    | .fault f => .error ⟨line, f⟩ :: scanFrom line skip cs

/-- Skipping is dropping. -/
theorem scanFrom_skip (line skip : Nat) (cs : List Char) :
    scanFrom line skip cs = scanFrom line 0 (cs.drop skip) := by
  induction skip generalizing cs with
  | zero => rfl
  | succ skip ih =>
    cases cs with
    | nil => simp [scanFrom]
    | cons c cs => rw [scanFrom, List.drop_succ_cons, ih]

end Scan

/-- The items of a text: its tokens and errors in order, and last the end of the input. -/
def scan (source : String) : List Item := Scan.scanFrom 1 0 source.toList

namespace Item

/-- The token of an item that is no error. -/
def token? : Item → Option Token
  | token t => some t
  | error _ => none

/-- The error of an item that is no token. -/
def error? : Item → Option LexicalError
  | token _ => none
  | error e => some e

end Item

/-- The tokens among the items. -/
def tokensOf (items : List Item) : List Token := items.filterMap Item.token?

/-- The errors among the items. -/
def lexicalErrorsOf (items : List Item) : List LexicalError := items.filterMap Item.error?

end LoxLang
