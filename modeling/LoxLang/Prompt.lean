import LoxLang.Report

/-!
# The prompt

The prompt runs each line of its input as a source of its own, all in one session.  Errors are shown
and forgotten, so the status is `0` whatever happened, unless a line is not UTF-8.

`Prompt.runLine` runs one line, and `Prompt.report` is the report on a whole input.
-/

namespace LoxLang

namespace Prompt

/-- What is written before each line that is read. -/
def mark : String := "> "

/-- The status when the input is not UTF-8. -/
def exitBadInput : Nat := 1

/-- The text for input that is not UTF-8. -/
def badInput : String :=
  "Error: Failed to read from stdin\n\nCaused by:\n    stream did not contain valid UTF-8\n"

/-- The byte that ends a line. -/
def lineFeed : UInt8 := 10

/-- The first line of the input with its line break, and what follows it. -/
def splitLine (bytes : List UInt8) : List UInt8 × List UInt8 :=
  match bytes.dropWhile (· != lineFeed) with
  | [] => (bytes, [])
  | _ :: rest => (bytes.takeWhile (· != lineFeed) ++ [lineFeed], rest)

/-- A line without its break, which is a line feed or a carriage return and a line feed. -/
def chomp (line : String) : String :=
  match line.toList.reverse with
  | '\n' :: '\r' :: rest => String.ofList rest.reverse
  | '\n' :: rest => String.ofList rest.reverse
  | _ => line

/-- Runs one line, given with its break; fails on a line that is not UTF-8. -/
def runLine (fuel : Nat) (s : Session) (line : ByteArray) : Option (RunReport × Session) :=
  match Text.Utf8.decode line with
  | .ok text => some (s.run fuel (chomp text))
  | .error _ => none

/-- The report of a prompt that reads at most `turns` lines of the input. -/
def reportFrom (fuel : Nat) : (turns : Nat) → Session → List UInt8 → Report
  | 0, _, _ => ⟨0, "", ""⟩
  | _ + 1, _, [] => ⟨0, mark ++ "\n", ""⟩
  | turns + 1, s, b :: bs =>
    let (line, rest) := splitLine (b :: bs)
    match runLine fuel s ⟨line.toArray⟩ with
    | none => ⟨exitBadInput, mark, badInput⟩
    | some (report, s) =>
      let later := reportFrom fuel turns s rest
      ⟨later.exit, mark ++ Text.Utf8.decodeLossy report.printed ++ later.out,
        diagnosticLines report.errors ++ later.err⟩

/-- The report of a prompt on the whole input, whose lines have at least one byte each. -/
def report (fuel : Nat) (clock : Clock) (input : ByteArray) : Report :=
  reportFrom fuel (input.size + 1) (Session.start none clock) input.toList

end Prompt

end LoxLang
