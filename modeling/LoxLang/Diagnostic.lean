import LoxLang.Machine
import LoxLang.Scoping
import LoxLang.Token.Scan
import LoxLang.Tree.Fault

/-!
# Diagnostics

Everything that a user is told: the errors of reading, parsing and scope checking, and the one error
that ends a run.  `Diagnostic.message` is the text, `Diagnostic.line?` the line it names.
-/

namespace LoxLang

/-- An error of one of the stages of a program. -/
inductive Diagnostic where
  | lexical (e : LexicalError)
  | syntactic (e : SyntaxError)
  | scoping (e : ScopeError)
  | running (e : RunError)
  deriving DecidableEq, Repr

namespace Diagnostic

/-- A fault at a place in the source. -/
def located (site : Site) (fault : String) : String :=
  s!"[line {site.line}] Error{site.describe}: {fault}"

/-- The text of a diagnostic. -/
def message : Diagnostic → String
  | lexical e => s!"[line {e.line}] Error: {e.fault.message}"
  | syntactic e => located e.site e.fault.message
  | scoping e => located e.site e.fault.message
  | running (.fault line f) => s!"{f.message}\n[line {line}]"
  | running .sinkFull => "print sink full"

/-- The line a diagnostic names. -/
def line? : Diagnostic → Option Nat
  | lexical e => some e.line
  | syntactic e => some e.site.line
  | scoping e => some e.site.line
  | running (.fault line _) => some line
  | running .sinkFull => none

end Diagnostic

end LoxLang
