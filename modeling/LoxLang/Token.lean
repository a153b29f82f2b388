import LoxLang.Number

/-!
# Tokens

A token is a kind, the text it was read from, and the line it ends on.  Most kinds are a bare
`Symbol`; string and number literals carry their value.  What a kind means to the later stages is
its symbol alone, so `TokenKind.is` ignores values.

* `keywords` are the names that are not identifiers;
* `Token.listing` is the line a token listing has for the token;
* `Token.site` is what an error message says about where it happened.
-/

namespace LoxLang

/-- The kinds of tokens that carry no value. -/
inductive Symbol where
  | leftParen | rightParen | leftBrace | rightBrace
  | comma | dot | minus | plus | semicolon | slash | star
  | bang | bangEqual | equal | equalEqual | greater | greaterEqual | less | lessEqual
  | identifier
  | andKw | classKw | elseKw | falseKw | funKw | forKw | ifKw | nilKw
  | orKw | printKw | returnKw | superKw | thisKw | trueKw | varKw | whileKw
  | endOfInput
  deriving DecidableEq, Repr, Inhabited

namespace Symbol

/-- Every symbol. -/
def all : List Symbol :=
  [leftParen, rightParen, leftBrace, rightBrace, comma, dot, minus, plus, semicolon, slash, star,
   bang, bangEqual, equal, equalEqual, greater, greaterEqual, less, lessEqual, identifier,
   andKw, classKw, elseKw, falseKw, funKw, forKw, ifKw, nilKw, orKw, printKw, returnKw, superKw,
   thisKw, trueKw, varKw, whileKw, endOfInput]

theorem mem_all (s : Symbol) : s ∈ all := by cases s <;> decide

/-- The name of a symbol in a token listing. -/
def name : Symbol → String
  | leftParen => "LEFT_PAREN" | rightParen => "RIGHT_PAREN"
  | leftBrace => "LEFT_BRACE" | rightBrace => "RIGHT_BRACE"
  | comma => "COMMA" | dot => "DOT" | minus => "MINUS" | plus => "PLUS"
  | semicolon => "SEMICOLON" | slash => "SLASH" | star => "STAR"
  | bang => "BANG" | bangEqual => "BANG_EQUAL" | equal => "EQUAL" | equalEqual => "EQUAL_EQUAL"
  | greater => "GREATER" | greaterEqual => "GREATER_EQUAL"
  | less => "LESS" | lessEqual => "LESS_EQUAL"
  | identifier => "IDENTIFIER"
  | andKw => "AND" | classKw => "CLASS" | elseKw => "ELSE" | falseKw => "FALSE"
  | funKw => "FUN" | forKw => "FOR" | ifKw => "IF" | nilKw => "NIL" | orKw => "OR"
  | printKw => "PRINT" | returnKw => "RETURN" | superKw => "SUPER" | thisKw => "THIS"
  | trueKw => "TRUE" | varKw => "VAR" | whileKw => "WHILE"
  | endOfInput => "EOF"

/-- The symbol with a given name. -/
def ofName? (name : String) : Option Symbol := all.find? (·.name == name)

end Symbol

/-- The kind of a token, with the value of a literal. -/
inductive TokenKind where
  | symbol (s : Symbol)
  | string (contents : String)
  | number (value : Float)
  deriving Repr

namespace TokenKind

/-- The kind is the given symbol. -/
def is : TokenKind → Symbol → Bool
  | symbol s, t => s == t
  | _, _ => false

@[simp] theorem symbol_is {s t : Symbol} : (symbol s).is t = true ↔ s = t := by simp [is]

@[simp] theorem string_is {text : String} {t : Symbol} : (string text).is t = false := rfl

@[simp] theorem number_is {x : Float} {t : Symbol} : (number x).is t = false := rfl

theorem is_iff {k : TokenKind} {s : Symbol} : k.is s = true ↔ k = .symbol s := by
  cases k <;> simp [is]

/-- The name of a kind in a token listing. -/
def name : TokenKind → String
  | symbol s => s.name
  | string _ => "STRING"
  | number _ => "NUMBER"

/-- The literal part of a token listing. -/
def literal : TokenKind → String
  | symbol _ => "null"
  | string contents => contents
  | number value => Number.scanned value

end TokenKind

/-- The names that have a kind of their own. -/
def keywords : List (String × Symbol) :=
  [("and", .andKw), ("class", .classKw), ("else", .elseKw), ("false", .falseKw),
   ("fun", .funKw), ("for", .forKw), ("if", .ifKw), ("nil", .nilKw),
   ("or", .orKw), ("print", .printKw), ("return", .returnKw), ("super", .superKw),
   ("this", .thisKw), ("true", .trueKw), ("var", .varKw), ("while", .whileKw)]

/-- Where an error message places its cause: the line, and the text of the token there unless that
is the end of the input. -/
structure Site where
  line : Nat
  lexeme? : Option String
  deriving DecidableEq, Repr

/-- The end of the input, or the quoted text of the token. -/
def Site.describe (s : Site) : String :=
  match s.lexeme? with
  | none => " at end"
  | some lexeme => s!" at '{lexeme}'"

/-- A token: its kind, the text it was read from, and the line on which it ends. -/
structure Token where
  kind : TokenKind
  lexeme : String
  line : Nat
  deriving Repr

namespace Token

/-- The token has the given symbol as its kind. -/
def is (t : Token) (s : Symbol) : Bool := t.kind.is s

/-- The token ends the input. -/
def isEnd (t : Token) : Bool := t.is .endOfInput

/-- What an error message says about the place of the token. -/
def site (t : Token) : Site := ⟨t.line, if t.isEnd then none else some t.lexeme⟩

/-- The line a token listing has for the token: kind, text and literal. -/
def listing (t : Token) : String := s!"{t.kind.name} {t.lexeme} {t.kind.literal}"

end Token

end LoxLang
