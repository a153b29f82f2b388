import LoxLang.Session
import LoxLang.Text.Json
import LoxLang.Text.Utf8
import LoxLang.Tree.Print

/-!
# Reports

What a command shows for a source: its exit status, the text for standard output, and the text for
standard error.

* `tokenizeReport`, `parseReport` and `runReport` work on a source text;
* `fileReport` works on what reading a file gave.

The status is `65` for errors in the source, `70` for a run that failed, and `74` for a file that
could not be read.
-/

namespace LoxLang

/-! ### Reading a file -/

/-- Why the system refuses to open or to read a file. -/
structure SystemError where
  text : String
  code : Nat

namespace SystemError

/-- No file has this name. -/
def notFound : SystemError := ⟨"No such file or directory", 2⟩

/-- A part of the path before its last is no directory. -/
def notDirectory : SystemError := ⟨"Not a directory", 20⟩

/-- A name is longer than the system allows. -/
def nameTooLong : SystemError := ⟨"File name too long", 36⟩

/-- A directory cannot be read as a file. -/
def isDirectory : SystemError := ⟨"Is a directory", 21⟩

end SystemError

/-- Why there is no source text to work on. -/
inductive FileFailure where
  | notOpened (e : SystemError)
  | notRead (e : SystemError)
  | notText (e : Text.Utf8.Malformed)

/-- The text for a file of the given name that cannot be used. -/
def FileFailure.message (path : String) : FileFailure → String
  | notOpened e =>
    "Failed to open file " ++ Text.quoted path ++ s!": {e.text} (os error {e.code})"
  | notRead e =>
    "Failed to read file " ++ Text.quoted path ++ s!": {e.text} (os error {e.code})"
  | notText e => Text.quoted path ++ " is not valid UTF-8: " ++ e.message

/-! ### Reports -/

/-- What a command shows: its exit status, and its two outputs. -/
structure Report where
  exit : Nat
  out : String
  err : String

/-- Texts with a line break after each. -/
def lines (texts : List String) : String := String.join (texts.map (· ++ "\n"))

/-- The diagnostics for standard error, one after another. -/
def diagnosticLines (ds : List Diagnostic) : String := lines (ds.map (·.message))

/-- The status for errors in the source. -/
def exitDataError : Nat := 65

/-- The status for a run that failed. -/
def exitRunError : Nat := 70

/-- The status for a file that could not be read. -/
def exitFileError : Nat := 74

/-- The status after reading a source, given the errors in it. -/
def exitForSource (errors : List Diagnostic) : Nat := if errors.isEmpty then 0 else exitDataError

/-- The kind of a token as a JSON document: its name, with the value of a literal. -/
def TokenKind.json : TokenKind → Text.Json
  | .symbol s => .text s.name
  | .string contents => .record [("STRING", .text contents)]
  | .number x => .record [("NUMBER", .double x)]

/-- A token as a JSON document. -/
def Token.json (t : Token) : Text.Json :=
  .record [("token_type", t.kind.json), ("lexeme", .text t.lexeme), ("line", .count t.line)]

/-- The tokens of a source, one to a line or as one JSON document. -/
def tokenizeReport (json : Bool) (source : String) : Report :=
  let items := scan source
  let errors := (lexicalErrorsOf items).map Diagnostic.lexical
  let tokens := tokensOf items
  let texts := if json then [(Text.Json.list (tokens.map (·.json))).pretty]
    else tokens.map (·.listing)
  ⟨exitForSource errors, lines texts, diagnosticLines errors⟩

/-- The statements of a source that could be read, one to a line. -/
def parseReport (source : String) : Report :=
  let program := SourceProgram.of 0 source
  ⟨exitForSource program.errors, lines (program.statements.map (·.render)),
    diagnosticLines program.errors⟩

/-- The status after a run. -/
def Outcome.exit : Outcome → Nat
  | ok => 0
  | staticError => exitDataError
  | runtimeError => exitRunError
  | unfinished => exitRunError

/-- A source run by itself. -/
def runReport (fuel : Nat) (clock : Clock) (source : String) : Report :=
  let (report, _) := (Session.start none clock).run fuel source
  ⟨report.outcome.exit, Text.Utf8.decodeLossy report.printed, diagnosticLines report.errors⟩

/-! ### Files -/

/-- The report on a file, given what reading it gave and the report on its text. -/
def fileReport (path : String) (contents : Except FileFailure ByteArray)
    (onText : String → Report) : Report :=
  match contents.bind fun bytes => (Text.Utf8.decode bytes).mapError .notText with
  | .ok text => onText text
  | .error e => ⟨exitFileError, "", e.message path ++ "\n"⟩

end LoxLang
