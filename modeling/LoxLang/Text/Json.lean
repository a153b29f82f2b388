import LoxLang.Number

/-!
# JSON documents

`Json` is the shape of the documents this library writes, and `Json.pretty` writes them with one
entry to a line, two spaces deeper than the bracket around it.
-/

namespace LoxLang.Text

/-- A JSON document of texts, counts, doubles, lists and records with their fields in order. -/
inductive Json where
  | text (s : String)
  | count (n : Nat)
  | double (x : Float)
  | list (entries : List Json)
  | record (fields : List (String × Json))

namespace Json

/-- How one character is written inside a JSON text. -/
def escape (c : Char) : List Char :=
  match c with
  | '"' => ['\\', '"']
  | '\\' => ['\\', '\\']
  | '\x08' => ['\\', 'b']
  | '\x0c' => ['\\', 'f']
  | '\n' => ['\\', 'n']
  | '\r' => ['\\', 'r']
  | '\t' => ['\\', 't']
  | _ =>
    if c.toNat < 0x20 then
      ['\\', 'u', '0', '0', Nat.digitChar (c.toNat / 16), Nat.digitChar (c.toNat % 16)]
    else [c]

/-- A JSON text. -/
def quote (s : String) : String := String.ofList ('"' :: s.toList.flatMap escape ++ ['"'])

/-- A line break and the indentation of the next line. -/
def newline (depth : Nat) : String := "".pushn ' ' (2 * depth) |> ("\n" ++ ·)

mutual

/-- A document whose first line is already indented by `depth` steps. -/
def prettyAt (depth : Nat) : Json → String
  | .text s => quote s
  | .count n => toString n
  | .double x => Number.json x
  | .list [] => "[]"
  | .list (e :: es) =>
    "[" ++ newline (depth + 1) ++ prettyAt (depth + 1) e ++ prettyEntries (depth + 1) es ++
      newline depth ++ "]"
  | .record [] => "\x7b\x7d"
  | .record ((name, v) :: fs) =>
    "\x7b" ++ newline (depth + 1) ++ quote name ++ ": " ++ prettyAt (depth + 1) v ++
      prettyFields (depth + 1) fs ++ newline depth ++ "\x7d"

/-- The later entries of a list, each after a comma. -/
def prettyEntries (depth : Nat) : List Json → String
  | [] => ""
  | e :: es => "," ++ newline depth ++ prettyAt depth e ++ prettyEntries depth es

/-- The later fields of a record, each after a comma. -/
def prettyFields (depth : Nat) : List (String × Json) → String
  | [] => ""
  | (name, v) :: fs =>
    "," ++ newline depth ++ quote name ++ ": " ++ prettyAt depth v ++ prettyFields depth fs

end

/-- A document with one entry to a line. -/
def pretty (j : Json) : String := prettyAt 0 j

end Json

end LoxLang.Text
