import DecimalCalc.Number.Literal
import DecimalCalc.Settings

/-!
# Command line arguments

How the arguments of a command line are read. Each is first classified on its own: as an option, as a
plain argument, or as the boundary `--` after which everything is plain. Then the options are taken
from left to right with the arguments that belong to them. Long options may be abbreviated as long as
they stay unambiguous; short ones that take nothing may be run together, and the last of them may have
its argument attached.
-/

set_option autoImplicit false

namespace DecimalCalc

namespace CommandLine

/-! ## Options -/

inductive Flag
  | help
  | verbose
  | precision
  | angleUnit
  | locale
  | grouping
  | expression
  | prompt
  | grammar
  | dump
  deriving DecidableEq

/-- Which of the arguments after an option belong to it. -/
inductive Taking
  | nothing
  | one
  | atMostOne
  | everything
  deriving DecidableEq

namespace Flag

/-- The spellings of all options. -/
def spellings : List (List Char × Flag) :=
  [("-h".toList, .help), ("--help".toList, .help),
    ("-v".toList, .verbose), ("--verbose".toList, .verbose),
    ("-k".toList, .precision), ("--precision".toList, .precision),
    ("-a".toList, .angleUnit), ("--angle-unit".toList, .angleUnit),
    ("--locale".toList, .locale),
    ("-g".toList, .grouping), ("--grouping".toList, .grouping),
    ("-e".toList, .expression), ("--expression".toList, .expression),
    ("-p".toList, .prompt), ("--prompt".toList, .prompt),
    ("-G".toList, .grammar), ("--raw-grammar".toList, .grammar),
    ("-D".toList, .dump), ("--dump".toList, .dump)]

def taking : Flag → Taking
  | .precision | .angleUnit | .locale => .one
  | .prompt => .atMostOne
  | .expression => .everything
  | .help | .verbose | .grouping | .grammar | .dump => .nothing

/-- The option of a spelling. -/
def ofSpelling? (text : List Char) : Option Flag := spellings.lookup text

/-- The options with a spelling that starts with a text. -/
def abbreviatedBy (text : List Char) : List Flag :=
  (spellings.filter fun (spelling, _) => text.isPrefixOf spelling).map Prod.snd

end Flag

/-! ## Classifying -/

/-- What is attached to an option, and whether an equals sign stands between them. -/
structure Attachment where
  afterEquals : Bool
  text : List Char
  deriving DecidableEq

/-- What an argument is, looked at alone. -/
inductive Role
  | plain
  | boundary
  | unknownOption
  | option (flag : Flag) (short : Bool) (attachment : Option Attachment)
  deriving DecidableEq

/-- An argument with its role. -/
structure Word where
  text : List Char
  role : Role
  deriving DecidableEq

/-- What stands before the first equals sign, and what after it, if there is one. -/
def splitAtEquals (text : List Char) : List Char × Option (List Char) :=
  match text.dropWhile (· ≠ '=') with
  | [] => (text, none)
  | _ :: rest => (text.takeWhile (· ≠ '='), some rest)

/-- Whether an argument is written like a negative number, perhaps with a line break at its end. -/
def isNegativeNumber : List Char → Bool
  | '-' :: text =>
    let body := if text.getLast? = some '\n' then text.dropLast else text
    let (whole, rest) := (body.takeWhile Text.isDigit, body.dropWhile Text.isDigit)
    match rest with
    | [] => !whole.isEmpty
    | '.' :: fraction => !fraction.isEmpty && fraction.all Text.isDigit
    | _ => false
  | _ => false

/-- The role of an argument with two or more characters that starts with a hyphen and is not spelled
like an option. An ambiguous abbreviation has none. -/
def hyphenRole? (text : List Char) : Option Role :=
  let (name, value) := splitAtEquals text
  let attachment := value.map (Attachment.mk true)
  match Flag.ofSpelling? name, value with
  | some flag, some _ => some (.option flag (name.length = 2) attachment)
  | _, _ =>
    let candidates :=
      if text.take 2 = ['-', '-'] then
        (Flag.abbreviatedBy name).map fun flag => Role.option flag false attachment
      else
        (Flag.ofSpelling? (text.take 2)).toList.map fun flag =>
          Role.option flag true (some ⟨false, text.drop 2⟩)
    match candidates with
    | [role] => some role
    | _ :: _ => none
    | [] => some (if isNegativeNumber text || text.contains ' ' then .plain else .unknownOption)

/-- The role of an argument other than the boundary. -/
def role? (text : List Char) : Option Role :=
  match Flag.ofSpelling? text with
  | some flag => some (.option flag (text.length = 2) none)
  | none =>
    match text with
    | '-' :: _ :: _ => hyphenRole? text
    | _ => some .plain

/-- Classifies all arguments, unless one of them is ambiguous. -/
def classify? : List (List Char) → Option (List Word)
  | [] => some []
  | text :: rest =>
    if text = "--".toList then
      some (⟨text, .boundary⟩ :: rest.map fun text => ⟨text, .plain⟩)
    else do
      return ⟨text, ← role? text⟩ :: (← classify? rest)

/-! ## Taking options -/

/-- Where expressions come from. -/
inductive Source
  | arguments (lines : List (List Char))
  | prompt (text : List Char)
  | standardInput
  deriving DecidableEq

/-- What is done with expressions. -/
inductive Task
  | evaluate
  | dump
  | grammar
  deriving DecidableEq

/-- What a command line asks for. The source and the task are missing until an option names them. -/
structure Arguments where
  precision : Int := 50
  angleUnit : AngleUnit := .degrees
  locale : List Char := "en_US".toList
  grouping : Bool := false
  source : Option Source := none
  task : Option Task := none
  deriving DecidableEq

/-- Why a command line is not obeyed: it asks for help, or it is misused. -/
inductive Refusal
  | help
  | misuse
  deriving DecidableEq

/-- An option together with the arguments that belong to it. -/
abbrev Choice := Flag × List (List Char)

namespace Arguments

/-- Obeys an option. Expressions and a prompt exclude each other, and so do two tasks. -/
def choose (a : Arguments) : Choice → Except Refusal Arguments
  | (.help, _) => .error .help
  | (.verbose, _) => .ok a
  | (.grouping, _) => .ok { a with grouping := true }
  | (.locale, text :: _) => .ok { a with locale := text }
  | (.precision, text :: _) =>
    match readInt? text with
    | some n => .ok { a with precision := n }
    | none => .error .misuse
  | (.angleUnit, text :: _) =>
    match AngleUnit.ofName? text with
    | some unit => .ok { a with angleUnit := unit }
    | none => .error .misuse
  | (.expression, lines) =>
    match a.source with
    | some (.prompt _) => .error .misuse
    | _ => .ok { a with source := some (.arguments lines) }
  | (.prompt, texts) =>
    match a.source with
    | some (.arguments _) => .error .misuse
    | _ => .ok { a with source := some (.prompt (texts.headD "> ".toList)) }
  | (.grammar, _) =>
    if a.task = some .dump then .error .misuse else .ok { a with task := some .grammar }
  | (.dump, _) =>
    if a.task = some .grammar then .error .misuse else .ok { a with task := some .dump }
  | (.locale, []) | (.precision, []) | (.angleUnit, []) => .error .misuse

end Arguments

/-- What the options of one argument amount to. -/
structure Cluster where
  /-- The options that have all their arguments. -/
  complete : List Choice := []
  /-- The option that takes from the arguments that follow. -/
  pending : Option Flag := none
  /-- Whether an unknown option follows. -/
  leftover : Bool := false

/-- Opens what is attached to an option. Short options that take nothing may go on with another short
option; nothing else may be attached to an option that takes nothing. -/
def openShort (flag : Flag) (afterEquals : Bool) : List Char → Except Refusal Cluster
  | [] =>
    if flag.taking = .nothing then .error .misuse else .ok { complete := [(flag, [[]])] }
  | c :: rest =>
    if flag.taking ≠ .nothing then .ok { complete := [(flag, [c :: rest])] }
    else if afterEquals || c = '-' then .error .misuse
    else
      match Flag.ofSpelling? ['-', c], rest with
      | none, _ => .ok { complete := [(flag, [])], leftover := true }
      | some next, [] => .ok { complete := [(flag, [])], pending := some next }
      | some next, '=' :: value => do
        let cluster ← openShort next true value
        return { cluster with complete := (flag, []) :: cluster.complete }
      | some next, d :: value => do
        let cluster ← openShort next false (d :: value)
        return { cluster with complete := (flag, []) :: cluster.complete }

/-- Opens one option with what is attached to it. -/
def openOption (flag : Flag) (short : Bool) : Option Attachment → Except Refusal Cluster
  | none => .ok { pending := some flag }
  | some attachment =>
    if short then openShort flag attachment.afterEquals attachment.text
    else if flag.taking = .nothing then .error .misuse
    else .ok { complete := [(flag, [attachment.text])] }

/-- How many of the words that follow an option belong to it. An option that takes everything stops
only at the boundary. -/
def takingCount? (taking : Taking) (words : List Word) : Option Nat :=
  let plainNext := words.head?.any (·.role = .plain)
  match taking with
  | .nothing => some 0
  | .one => if plainNext then some 1 else none
  | .atMostOne => some (if plainNext then 1 else 0)
  | .everything => some (words.takeWhile (·.role ≠ .boundary)).length

/-- Obeys the words that are left, of which the first `skip` belong to the option before them.
Whatever belongs to no option is a leftover, which makes for misuse once all options are obeyed. -/
def readWords (a : Arguments) (leftover : Bool) : Nat → List Word → Except Refusal Arguments
  | _, [] => if leftover then .error .misuse else .ok a
  | skip + 1, _ :: rest => readWords a leftover skip rest
  | 0, word :: rest =>
    match word.role with
    | .option flag short attachment => do
      let cluster ← openOption flag short attachment
      let pending := cluster.pending.toList
      let count ←
        match cluster.pending with
        | none => pure 0
        | some flag =>
          match takingCount? flag.taking rest with
          | some count => pure count
          | none => .error .misuse
      let choices := cluster.complete ++ pending.map fun flag =>
        (flag, (rest.take count).map Word.text)
      let a ← choices.foldlM Arguments.choose a
      readWords a (leftover || cluster.leftover) count rest
    | _ => readWords a true 0 rest

/-- Reads the arguments of a command line. -/
def readArguments (texts : List (List Char)) : Except Refusal Arguments :=
  match classify? texts with
  | some words => readWords {} false 0 words
  | none => .error .misuse

end CommandLine

end DecimalCalc
