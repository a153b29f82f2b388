import LoxLang.Command
import Std.Time.DateTime.Timestamp

/-!
# The program

The outer layer of the command line: it reads files and standard input, asks `LoxLang.Command` what
to show, and shows it.
-/

open LoxLang

/-- Enough fuel for every program that ends. -/
def runFuel : Nat := Nat.pow 2 60

/-- What the system says about a file that it does not open or read. -/
def systemErrorOf : IO.Error → SystemError
  | .noFileOrDirectory .. => .notFound
  | .inappropriateType _ code details => ⟨details, code.toNat⟩
  | .permissionDenied _ code details => ⟨details, code.toNat⟩
  | .invalidArgument _ code details => ⟨details, code.toNat⟩
  | .resourceExhausted _ code details => ⟨details, code.toNat⟩
  | .otherError code details => ⟨details, code.toNat⟩
  | e => ⟨toString e, 0⟩

/-- The bytes of a file. -/
def readContents (path : String) : IO (Except FileFailure ByteArray) := do
  match ← (IO.FS.Handle.mk path .read).toBaseIO with
  | .error e => return .error (.notOpened (systemErrorOf e))
  | .ok handle =>
    match ← handle.readBinToEnd.toBaseIO with
    | .error e => return .error (.notRead (systemErrorOf e))
    | .ok bytes => return .ok bytes

/-- The next line of the input with its line break; empty at the end of the input. -/
partial def readLine (input : IO.FS.Stream) (line : ByteArray) : IO ByteArray := do
  let byte ← input.read 1
  let line := line ++ byte
  if byte.isEmpty || byte.data.contains Prompt.lineFeed then return line
  else readLine input line

/-- Shows the prompt, runs a line, and goes on until the input ends. -/
partial def runPrompt (input output : IO.FS.Stream) (s : Session) : IO UInt32 := do
  output.putStr Prompt.mark
  output.flush
  let line ← readLine input .empty
  if line.isEmpty then
    output.putStrLn ""
    return 0
  else
    match Prompt.runLine runFuel s line with
    | none =>
      IO.eprint Prompt.badInput
      return Prompt.exitBadInput.toUInt32
    | some (report, s) =>
      output.putStr (Text.Utf8.decodeLossy report.printed)
      IO.eprint (diagnosticLines report.errors)
      runPrompt input output s

/-- Runs the command that the arguments ask for; its exit status is that of the program. -/
def main (args : List String) : IO UInt32 := do
  let now := (← Std.Time.Timestamp.now).toNanosecondsSinceUnixEpoch.toInt
  let clock := Clock.startingAt (now.toNat / 1000)
  match Command.parse? args with
  | none =>
    IO.eprintln "usage: [--log] [run FILE | tokenize FILE [--json] | parse FILE | repl]"
    return 2
  | some .prompt => runPrompt (← IO.getStdin) (← IO.getStdout) (Session.start none clock)
  | some (.file what path) =>
    let report := what.report runFuel clock path (← readContents path)
    IO.print report.out
    IO.eprint report.err
    return report.exit.toUInt32
