import DecimalCalc.CommandLine.Arguments
import DecimalCalc.Calculator

/-!
# What the command line does

Expressions are taken line by line; blank lines are passed over. A line is evaluated, or its tokens
are dumped. A fault is reported and ends its line; any other failure ends the run.
-/

set_option autoImplicit false

namespace DecimalCalc

namespace CommandLine

/-- The settings that a command line asks for. -/
def Arguments.settings (a : Arguments) : Except SettingFault Settings :=
  Settings.initial.change (.set a.precision) .keep (.set a.angleUnit.name) (.set a.locale)

/-- What is written for a line: a result, or the words of a fault. -/
inductive Report
  | result (text : List Char)
  | fault (text : List Char)
  deriving DecidableEq

/-! ## Dumps -/

/-- The line above a dump. -/
def dumpTitle : List Char := "<tokens>\t<rpn>".toList

/-- A token in reverse Polish order: a number as it is, any other with the count of its operands. -/
def describe (registry : Registry) (token : Token) : Except Fault (List Char) :=
  if token.kind = .number then .ok token.text
  else do
    let entry ← registry.lookup token.text
    return token.text ++ '/' :: numeral entry.arity

/-- The tokens of a line, then the same in reverse Polish order. There are no variables, so that
nothing is drawn. -/
def dump (c : Calculator) (line : List Char) : Except Failure (List Char) := do
  let tokens ← c.tokenize line
  let ordered ← c.reversePolish line
  let described ← (ordered.mapM (describe c.registry)).mapError .fault
  return [' '].intercalate (tokens.map fun token => Text.quoted token.text) ++
    '\t' :: [' '].intercalate described

/-! ## Lines -/

/-- The text that a task makes of a line. -/
def perform (c : Calculator) (task : Task) (grouping : Bool) (line : List Char) :
    Drawing Failure (List Char) :=
  match task with
  | .dump => .still (dump c line)
  | .evaluate | .grammar => (c.compute line).bind fun x => .still (c.display x grouping)

/-- What is reported: a text, or the words of a fault. -/
def reportOn : Except Failure (List Char) → Except Failure (Option Report)
  | .ok text => .ok (some (.result text))
  | .error (.fault cause) => .ok (some (.fault cause.message))
  | .error failure => .error failure

/-- The report on a line, and the generator that it leaves; there is none on a blank line. -/
def reportFrom (c : Calculator) (task : Task) (grouping : Bool) (line : List Char) :
    Drawing Failure (Option Report) :=
  let line := Text.strip line
  if line.isEmpty then .ok none
  else (perform c task grouping line).handle reportOn

/-- The report on a line. -/
def report? (c : Calculator) (task : Task) (grouping : Bool) (line : List Char) :
    Except Failure (Option Report) :=
  (reportFrom c task grouping line).outcome c.generator

/-- The reports on some lines, up to the first failure that is no fault. Each line draws from what
the lines before it have left. -/
def reports (c : Calculator) (task : Task) (grouping : Bool) (lines : List (List Char)) :
    List Report × Option Failure :=
  match lines with
  | [] => ([], none)
  | line :: rest =>
    match reportFrom c task grouping line c.generator with
    | (.error failure, _) => ([], some failure)
    | (.ok report, generator) =>
      let (others, failure) := reports { c with generator } task grouping rest
      (report.toList ++ others, failure)

/-- The lines of a text, which end with a line feed, a carriage return, or both. -/
def splitLines : List Char → List (List Char)
  | [] => []
  | '\r' :: '\n' :: rest => [] :: splitLines rest
  | c :: rest =>
    if c = '\n' ∨ c = '\r' then [] :: splitLines rest
    else
      match splitLines rest with
      | [] => [[c]]
      | line :: lines => (c :: line) :: lines

/-! ## Grammar -/

/-- A description of what lines are made of. -/
def grammar (lexicon : Lexicon) : List Char :=
  ['\n'].intercalate
    ["number: digits, perhaps in groups marked by underscores, perhaps with a fraction".toList,
      "symbol: ".toList ++ [' '].intercalate lexicon.symbols,
      "variable: letters".toList,
      "parentheses: ( )".toList,
      "separator: ; or ,".toList,
      "bar: |".toList,
      "space: white space".toList]

/-! ## Whole runs -/

/-- All that a run writes, and what ends it before its time. -/
structure Transcript where
  reports : List Report := []
  title : Option (List Char) := none
  failure : Option Failure := none

namespace Transcript

/-- Lines of text, each of them ended. -/
def ended (lines : List (List Char)) : List Char := lines.flatMap (· ++ ['\n'])

/-- What is written to the standard output. -/
def output (t : Transcript) : List Char :=
  ended (t.title.toList ++ t.reports.filterMap fun
    | .result text => some text
    | .fault _ => none)

/-- What is written to the standard error. -/
def errors (t : Transcript) : List Char :=
  ended (t.reports.filterMap fun
    | .result _ => none
    | .fault text => some text)

end Transcript

/-- What is written before the first line. -/
def title? (c : Calculator) : Task → Option (List Char)
  | .evaluate => none
  | .dump => some dumpTitle
  | .grammar => some (grammar c.lexicon)

/-- Runs a task over some lines, which the description of the grammar does not need. -/
def transcript (a : Arguments) (s : Settings) (lines : List (List Char))
    (generator : Generator := default) : Transcript :=
  let c : Calculator := { settings := s, generator }
  let task := a.task.getD .evaluate
  let (reports, failure) :=
    if task = .grammar then ([], none) else reports c task a.grouping lines
  { reports, title := title? c task, failure }

end CommandLine

end DecimalCalc
