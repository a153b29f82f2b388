import LoxLang.Text.Printable

/-!
# Quoted text

A quoted text stands between double quotes.  Inside, a double quote and a backslash are written
after a backslash, the common control characters have a letter, and every other character that is
not printable is written as `\u` with its hexadecimal number in braces (`Quoted.escape`).  A single
quote needs no escape.

The string values of a program and the names of files are quoted in this one way (`quoted`).
-/

namespace LoxLang.Text

/-- How one character is written inside quotes. -/
def Quoted.escape (c : Char) : List Char :=
  match c with
  | '\x00' => ['\\', '0']
  | '\t' => ['\\', 't']
  | '\n' => ['\\', 'n']
  | '\r' => ['\\', 'r']
  | '"' => ['\\', '"']
  | '\\' => ['\\', '\\']
  | _ =>
    if isPrintable c then [c]
    else ['\\', 'u', '\x7b'] ++ Nat.toDigits 16 c.toNat ++ ['\x7d']

/-- A text between quotes. -/
def quoted (text : String) : String :=
  String.ofList ('"' :: text.toList.flatMap Quoted.escape ++ ['"'])

end LoxLang.Text
