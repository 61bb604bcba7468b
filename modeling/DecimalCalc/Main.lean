import DecimalCalc.CommandLine.Run

/-!
# The command line

Reads lines where the arguments say, and writes each report as soon as its line is read. Nothing is
decided here.
-/

set_option autoImplicit false

namespace DecimalCalc

namespace CommandLine

/-- How the command is used. -/
def usage : String :=
  "usage: decimal-calc [-h] [-v] [-k PRECISION] [-a \x7bdeg,rad\x7d] [--locale LOCALE] [-g]\n" ++
  "                    [-e ... | -p [PROMPT]] [-G | -D]"

/-- The words of a failure that is no fault. -/
def failureText : Failure → String
  | .fault cause => String.ofList cause.message
  | .signal _ => "arithmetic limits exceeded"
  | .stalled position => s!"no progress at position {position}"

/-- Writes the report on a line, and keeps what is left of the generator. The answer says whether the
run goes on. -/
def writeLine (c : Calculator) (task : Task) (grouping : Bool) (generator : IO.Ref Generator)
    (line : String) : IO Bool := do
  let (report, left) := reportFrom c task grouping line.toList (← generator.get)
  generator.set left
  match report with
  | .ok none => return true
  | .ok (some (.result text)) => IO.println (String.ofList text); return true
  | .ok (some (.fault text)) => IO.eprintln (String.ofList text); return true
  | .error failure => IO.eprintln (failureText failure); return false

/-- Takes lines from the standard input, with a prompt before each if there is one. -/
partial def readLines (prompt : String) (write : String → IO Bool) : IO Unit := do
  IO.print prompt
  (← IO.getStdout).flush
  let line ← (← IO.getStdin).getLine
  if line.isEmpty then return
  for part in splitLines line.toList do
    if !(← write (String.ofList part)) then return
  readLines prompt write

/-- The prompt that a source asks for. Terminals at both ends are prompted in any case. -/
def promptText (source : Option Source) : IO String := do
  match source with
  | some (.prompt (c :: text)) => return String.ofList (c :: text)
  | some (.arguments _) => return ""
  | _ =>
    if (← (← IO.getStdin).isTty) && (← (← IO.getStdout).isTty) then return "> " else return ""

/-- Does what the arguments ask for. -/
def obey (a : Arguments) : IO UInt32 := do
  let generator ← IO.mkRef (Generator.ofSeed (← IO.rand 0 4294967295))
  match a.settings with
  | .error cause => IO.eprintln (String.ofList cause.message); return 1
  | .ok settings =>
    let c : Calculator := { settings }
    let task := a.task.getD .evaluate
    if let some text := title? c task then IO.println (String.ofList text)
    if task ≠ .grammar then
      let write := writeLine c task a.grouping generator
      match a.source with
      | some (.arguments lines) =>
        for line in lines do
          if !(← write (String.ofList line)) then return 1
      | source => readLines (← promptText source) write
    return 0

end CommandLine

end DecimalCalc

open DecimalCalc CommandLine in
def main (arguments : List String) : IO UInt32 := do
  match readArguments (arguments.map String.toList) with
  | .ok a => obey a
  | .error .help => IO.println usage; return 0
  | .error .misuse => IO.eprintln usage; return 2
