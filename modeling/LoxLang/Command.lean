import LoxLang.Prompt

/-!
# Commands

What the arguments of the command line ask for (`Command.parse?`), and the report on a file that a
command gives (`FileCommand.report`).

An argument is an option if it starts with a dash and goes on after it; the others are words.  The
first word names the command.  After the name, options and words stand in any order, until the
argument `--`: all that follows it are words, so that a file whose name starts with a dash can be
given (`Command.splitOptions_append_endOfOptions`).
-/

namespace LoxLang

/-- What is done with the text of a file. -/
inductive FileCommand where
  | run
  | tokenize (json : Bool)
  | parse

/-- A command: something done with a file, or the prompt. -/
inductive Command where
  | file (what : FileCommand) (path : String)
  | prompt

namespace Command

/-- The argument that ends the options. -/
def endOfOptions : String := "--"

/-- The option that asks for a log; it has no effect on what a command shows. -/
def logOption : String := "--log"

/-- The argument is an option; a dash alone is a word. -/
def isOption (arg : String) : Bool :=
  match arg.toList with
  | '-' :: _ :: _ => true
  | _ => false

/-- The options among the arguments, and the words. -/
def splitOptions : List String → List String × List String
  | [] => ([], [])
  | arg :: rest =>
    if arg = endOfOptions then ([], rest)
    else
      let (options, words) := splitOptions rest
      if isOption arg then (arg :: options, words) else (options, arg :: words)

/-- What follows the end of the options is taken as it stands. -/
theorem splitOptions_append_endOfOptions (args rest : List String) (h : endOfOptions ∉ args) :
    splitOptions (args ++ endOfOptions :: rest) =
      ((splitOptions args).1, (splitOptions args).2 ++ rest) := by
  induction args with
  | nil => simp [splitOptions]
  | cons arg args ih =>
    obtain ⟨hne, hmem⟩ := not_or.mp (mt List.mem_cons.mpr h)
    simp only [List.cons_append, splitOptions, Ne.symm hne, if_false, ih hmem]
    split <;> rfl

/-- The options without the one for a log, which may stand once. -/
def withoutLog? (options : List String) : Option (List String) :=
  if options.count logOption ≤ 1 then some (options.filter (· != logOption)) else none

/-- The command of a name, given what stands after the name. -/
def named? (name : String) (args : List String) : Option Command := do
  let (options, words) := splitOptions args
  match name, words, ← withoutLog? options with
  | "repl", [], [] => some .prompt
  | "run", [path], [] => ofFile? .run path
  | "parse", [path], [] => ofFile? .parse path
  | "tokenize", [path], [] => ofFile? (.tokenize false) path
  | "tokenize", [path], ["--json"] => ofFile? (.tokenize true) path
  | _, _, _ => none
where
  /-- A file must have a name. -/
  ofFile? (what : FileCommand) (path : String) : Option Command :=
    if path = "" then none else some (.file what path)

/-- The command that the arguments ask for.  Before its name only the option for a log may stand;
without a name it is the prompt. -/
def parse? (args : List String) : Option Command := do
  match args.span isOption with
  | (before, []) => named? "repl" before
  | (before, name :: after) =>
    match ← withoutLog? before with
    | [] => named? name after
    | _ => none

end Command

/-- The report of a command on a file, given what reading the file gave. -/
def FileCommand.report (fuel : Nat) (clock : Clock) (path : String)
    (contents : Except FileFailure ByteArray) (c : FileCommand) : Report :=
  fileReport path contents <| match c with
    | run => runReport fuel clock
    | tokenize json => tokenizeReport json
    | parse => parseReport

end LoxLang
