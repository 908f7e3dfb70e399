import NormalOrder.Bounded.Refusal
import NormalOrder.Text.Integer
import NormalOrder.Text.Quoted

/-!
# Arguments of the command line

An argument is an option if it begins with a dash; a lone dash, a negative number and, unless it is
or abbreviates a known option, an argument with a space in it are plain values.  Long options may be
abbreviated and take a value after `=` or as the next argument.  Short options may be joined, also
behind `=`; the rest of an argument after a short option that takes a value is that value.  After
`--` everything is plain, and a value that is written as `--` is void.

Every argument is classified before any of them has an effect.  Effects take place from left to
right, so the last occurrence of an option wins, and a request for help wins over any mistake in
a later argument that is not one of classification.  Joined options have their effects only if all
of their argument can be read.

At the end stand the line that sums up the usage, the help, and what is said about wrong arguments.
-/

namespace NormalOrder

namespace CommandLine

/-! ### Options -/

/-- The options of the command line. -/
inductive Switch where
  /-- Show how to use the program. -/
  | help
  /-- Evaluate the value. -/
  | expr
  /-- The most contractions. -/
  | maxSteps
  /-- Write Church numerals as numbers. -/
  | numerals
  /-- Write the last term only. -/
  | quiet
  deriving DecidableEq, Repr

namespace Switch

/-- Whether an option takes a value. -/
def takesValue : Switch → Bool
  | expr | maxSteps => true
  | _ => false

/-- The letter of an option. -/
def ofLetter? : Char → Option Switch
  | 'h' => some help
  | 'e' => some expr
  | 'n' => some maxSteps
  | 'q' => some quiet
  | _ => none

/-- The long names of the options. -/
def longNames : List (String × Switch) :=
  [("--help", help), ("--expr", expr), ("--max-steps", maxSteps), ("--numerals", numerals),
    ("--quiet", quiet)]

/-- How an option is called in messages. -/
def title : Switch → String
  | help => "-h/--help"
  | expr => "-e/--expr"
  | maxSteps => "-n/--max-steps"
  | numerals => "--numerals"
  | quiet => "-q/--quiet"

end Switch

/-- What is wrong with the arguments. -/
inductive Misuse where
  /-- An abbreviation could be any of several options. -/
  | ambiguous (argument : String) (options : List String)
  /-- An option has no value. -/
  | valueMissing (switch : Switch)
  /-- An option has a value that it does not take. -/
  | valueIgnored (switch : Switch) (value : String)
  /-- A number of contractions is no integer. -/
  | notAnInteger (value : String)
  /-- Some arguments are not used. -/
  | unrecognized (arguments : List String)
  /-- The number of contractions is negative. -/
  | negativeSteps
  deriving DecidableEq, Repr

/-- The wording of a misuse. -/
def Misuse.message : Misuse → String
  | ambiguous argument options =>
    "ambiguous option: " ++ argument ++ " could match " ++ ", ".intercalate options
  | valueMissing switch => "argument " ++ switch.title ++ ": expected one argument"
  | valueIgnored switch value =>
    "argument " ++ switch.title ++ ": ignored explicit argument " ++ Text.quoted value
  | notAnInteger value =>
    "argument " ++ Switch.maxSteps.title ++ ": invalid int value: " ++ Text.quoted value
  | unrecognized arguments => "unrecognized arguments: " ++ " ".intercalate arguments
  | negativeSteps => "--max-steps must be non-negative"

/-! ### Classification -/

/-- What an argument is. -/
inductive ArgumentClass where
  /-- A value. -/
  | plain
  /-- The first `--`. -/
  | separator
  /-- An option that is not known. -/
  | unknown
  /-- An option by its long name. -/
  | long (switch : Switch) (attached : Option (List Char))
  /-- An option by its letter. -/
  | short (switch : Switch) (attached : Option (List Char))
  deriving DecidableEq, Repr

/-- An argument with its class. -/
structure Argument where
  /-- The argument as it was given. -/
  text : String
  /-- What it is. -/
  kind : ArgumentClass
  deriving DecidableEq, Repr

/-- The text before the first `=`, and the text after it if there is one. -/
def splitEquals (cs : List Char) : List Char × Option (List Char) :=
  match cs.dropWhile (· ≠ '=') with
  | [] => (cs, none)
  | _ :: value => (cs.takeWhile (· ≠ '='), some value)

/-- Digits, at least one, and nothing else; a newline may end the text. -/
def isDigitsLine (cs : List Char) : Bool :=
  let digits := cs.takeWhile Text.isDecimalDigit
  let rest := cs.dropWhile Text.isDecimalDigit
  !digits.isEmpty && (rest = [] || rest = ['\n'])

/-- Whether the text after a dash makes it a negative number: digits, or a fraction with digits
after its point. -/
def isNumberTail (cs : List Char) : Bool :=
  isDigitsLine cs ||
    match cs.dropWhile Text.isDecimalDigit with
    | '.' :: fraction => isDigitsLine fraction
    | _ => false

/-- The class of an argument that is not, and does not abbreviate, a known option. -/
def classifyUnknown (tail : List Char) : ArgumentClass :=
  if isNumberTail tail || tail.contains ' ' then .plain else .unknown

/-- The class of an argument that begins with two dashes and goes on with `tail`. -/
def classifyLong (argument : String) (tail : List Char) : Except Misuse ArgumentClass :=
  let (name, value) := splitEquals ('-' :: '-' :: tail)
  match Switch.longNames.find? fun entry => entry.1.toList = name with
  | some (_, switch) => .ok (.long switch value)
  | none =>
    match Switch.longNames.filter fun entry => name.isPrefixOf entry.1.toList with
    | [] => .ok (classifyUnknown ('-' :: tail))
    | [(_, switch)] => .ok (.long switch value)
    | several => .error (.ambiguous argument (several.map Prod.fst))

/-- The class of an argument that begins with a dash and the letter `c` and goes on with `tail`. -/
def classifyShort (c : Char) (tail : List Char) : ArgumentClass :=
  match Switch.ofLetter? c with
  | none => classifyUnknown (c :: tail)
  | some switch =>
    match tail with
    | [] => .short switch none
    | '=' :: text => .short switch (some text)
    | text => .short switch (some text)

/-- The class of an argument before the first `--`. -/
def classify (argument : String) : Except Misuse ArgumentClass :=
  match argument.toList with
  | '-' :: '-' :: [] => .ok .separator
  | '-' :: '-' :: tail => classifyLong argument tail
  | '-' :: c :: tail => .ok (classifyShort c tail)
  | _ => .ok .plain

/-- The arguments with their classes. -/
def classifyAll : List String → Except Misuse (List Argument)
  | [] => .ok []
  | argument :: rest => do
    let kind ← classify argument
    if kind = .separator then
      pure (⟨argument, kind⟩ :: rest.map (⟨·, .plain⟩))
    else
      let others ← classifyAll rest
      pure (⟨argument, kind⟩ :: others)

/-! ### Effects -/

/-- The value of an option. -/
inductive Value (α : Type) where
  /-- A value. -/
  | given (value : α)
  /-- No value, although there is something in its place. -/
  | void
  deriving DecidableEq, Repr

/-- What the arguments ask for, before it is checked. -/
structure Wishes where
  /-- The file to evaluate. -/
  file : Option String := none
  /-- The program itself. -/
  expr : Option (Value String) := none
  /-- The most contractions. -/
  maxSteps : Value Int := .given Limits.steps
  /-- Whether Church numerals are written as numbers. -/
  numerals : Bool := false
  /-- Whether the last term only is written. -/
  quiet : Bool := false
  deriving DecidableEq, Repr

/-- Why the arguments lead to no run. -/
inductive Halt where
  /-- Help was asked for. -/
  | help
  /-- The arguments are wrong. -/
  | misuse (misuse : Misuse)
  /-- The number of contractions is void, and so cannot be checked. -/
  | voidSteps
  deriving DecidableEq, Repr

/-- How far the arguments have been carried out. -/
structure Progress where
  /-- What they ask for so far. -/
  wishes : Wishes := {}
  /-- Whether the last argument was taken for the file. -/
  atFile : Bool := false
  /-- The arguments that were not used, the latest first. -/
  unused : List String := []
  deriving DecidableEq, Repr

/-- The effect of an option without a value. -/
def Progress.set (p : Progress) : Switch → Except Halt Progress
  | .help => .error .help
  | .numerals => .ok { p with wishes := { p.wishes with numerals := true } }
  | .quiet => .ok { p with wishes := { p.wishes with quiet := true } }
  | switch => .error (.misuse (.valueMissing switch))

/-- The effect of an option with a value. -/
def Progress.assign (p : Progress) (switch : Switch) (value : String) : Except Halt Progress :=
  match switch with
  | .expr => .ok { p with wishes := { p.wishes with expr := some (.given value) } }
  | .maxSteps =>
    match Text.Integer.ofText? value with
    | some n => .ok { p with wishes := { p.wishes with maxSteps := .given n } }
    | none => .error (.misuse (.notAnInteger value))
  | switch => .error (.misuse (.valueIgnored switch value))

/-- The effect of an option with a value in the same argument, where `--` stands for no value. -/
def Progress.assignAttached (p : Progress) (switch : Switch) (value : String) :
    Except Halt Progress :=
  if value = "--" then
    match switch with
    | .expr => .ok { p with wishes := { p.wishes with expr := some .void } }
    | .maxSteps => .ok { p with wishes := { p.wishes with maxSteps := .void } }
    | switch => .error (.misuse (.valueIgnored switch value))
  else p.assign switch value

/-- How joined short options end. -/
inductive ClusterEnd where
  /-- With an option that takes no value. -/
  | complete
  /-- With an option and its value. -/
  | value (switch : Switch) (value : String)
  /-- With an option whose value is the next argument. -/
  | open (switch : Switch)
  deriving DecidableEq, Repr

/-- The options without values joined in one argument, and how it ends; `text` follows `switch`. -/
def cluster (switch : Switch) (text : List Char) : Except Misuse (List Switch × ClusterEnd) :=
  if switch.takesValue then .ok ([], .value switch (String.ofList text))
  else
    match text with
    | [] => .error (.valueIgnored switch "")
    | c :: rest =>
      match Switch.ofLetter? c with
      | none => .error (.valueIgnored switch (String.ofList (c :: rest)))
      | some next =>
        if rest.isEmpty then
          .ok (if next.takesValue then ([switch], .open next) else ([switch, next], .complete))
        else (cluster next rest).map fun (flags, ending) => (switch :: flags, ending)

/-- The effects of several options without values. -/
def Progress.setAll (p : Progress) : List Switch → Except Halt Progress
  | [] => .ok p
  | switch :: rest => do
    let p ← p.set switch
    p.setAll rest

/-- A plain argument: the first one is the file. -/
def Progress.plain (p : Progress) (fileTaken : Bool) (text : String) : Progress :=
  if fileTaken then { p with atFile := false, unused := text :: p.unused }
  else { p with wishes := { p.wishes with file := some text }, atFile := true }

/-- Carries out classified arguments; `fileTaken` tells whether there is a file already.  The
separator is used up if it stands before the file or right behind it. -/
def carryOut (p : Progress) (fileTaken : Bool) : List Argument → Except Halt Progress
  | [] => .ok p
  | ⟨text, .plain⟩ :: rest => carryOut (p.plain fileTaken text) true rest
  | ⟨text, .separator⟩ :: rest =>
    if fileTaken && !p.atFile then
      carryOut { p with unused := text :: p.unused } fileTaken rest
    else carryOut { p with atFile := false } fileTaken rest
  | ⟨text, .unknown⟩ :: rest =>
    carryOut { p with atFile := false, unused := text :: p.unused } fileTaken rest
  | ⟨_, .long switch (some value)⟩ :: rest => do
    let p ← { p with atFile := false }.assignAttached switch (String.ofList value)
    carryOut p fileTaken rest
  | ⟨_, .short switch (some text)⟩ :: rest =>
    match cluster switch text with
    | .error misuse => .error (.misuse misuse)
    | .ok (flags, ending) =>
      let p := { p with atFile := false }
      match ending, rest with
      | .complete, rest => do
        let p ← p.setAll flags
        carryOut p fileTaken rest
      | .value switch value, rest => do
        let p ← p.setAll flags
        let p ← p.assignAttached switch value
        carryOut p fileTaken rest
      | .open switch, ⟨value, .plain⟩ :: rest => do
        let p ← p.setAll flags
        let p ← p.assign switch value
        carryOut p fileTaken rest
      | .open switch, _ => .error (.misuse (.valueMissing switch))
  | ⟨_, .long switch none⟩ :: rest | ⟨_, .short switch none⟩ :: rest =>
    let p := { p with atFile := false }
    if switch.takesValue then
      match rest with
      | ⟨value, .plain⟩ :: rest => do
        let p ← p.assign switch value
        carryOut p fileTaken rest
      | _ => .error (.misuse (.valueMissing switch))
    else do
      let p ← p.set switch
      carryOut p fileTaken rest

/-! ### Settings -/

/-- Where a program comes from. -/
inductive Origin where
  /-- From the arguments themselves. -/
  | inline (source : String)
  /-- From the arguments, where its place is void. -/
  | void
  /-- From a file. -/
  | file (name : String)
  /-- From the standard input. -/
  | stdin
  deriving DecidableEq, Repr

/-- What a run is to do. -/
structure Settings where
  /-- Where the program comes from. -/
  origin : Origin
  /-- The most contractions. -/
  maxSteps : Int
  /-- Whether Church numerals are written as numbers. -/
  numerals : Bool
  /-- Whether the last term only is written. -/
  quiet : Bool
  deriving DecidableEq, Repr

/-- Where the program comes from; the arguments themselves are preferred to a file, and a file to
the standard input. -/
def Wishes.origin (w : Wishes) : Origin :=
  match w.expr, w.file with
  | some (.given source), _ => .inline source
  | some .void, _ => .void
  | none, some name => .file name
  | none, none => .stdin

/-- The settings that are asked for, if the number of contractions is one. -/
def Wishes.settings (w : Wishes) : Except Halt Settings :=
  match w.maxSteps with
  | .void => .error .voidSteps
  | .given maxSteps =>
    if maxSteps < 0 then .error (.misuse .negativeSteps)
    else .ok ⟨w.origin, maxSteps, w.numerals, w.quiet⟩

/-- What the arguments ask for. -/
def settings (arguments : List String) : Except Halt Settings :=
  match classifyAll arguments with
  | .error misuse => .error (.misuse misuse)
  | .ok arguments => do
    let p ← carryOut {} false arguments
    if p.unused ≠ [] then .error (.misuse (.unrecognized p.unused.reverse))
    else p.wishes.settings

/-! ### How to use the command line -/

/-- The usage in one line. -/
def usageLine : String := "usage: lc [-h] [-e EXPR] [-n MAX_STEPS] [--numerals] [-q] [file]\n"

/-- The help. -/
def helpText : String :=
  usageLine ++ "\n" ++
  "Normal-order λ-calculus interpreter.\n" ++
  "\n" ++
  "positional arguments:\n" ++
  "  file                  file to evaluate (if empty, the program is read from\n" ++
  "                        stdin)\n" ++
  "\n" ++
  "options:\n" ++
  "  -h, --help            show this help message and exit\n" ++
  "  -e EXPR, --expr EXPR  evaluate EXPR instead of a file\n" ++
  "  -n MAX_STEPS, --max-steps MAX_STEPS\n" ++
  "                        number of β-reductions after which a term is\n" ++
  "                        considered to have no normal form (default: " ++
    toString Limits.steps ++ ")\n" ++
  "  --numerals            print Church numerals as numbers\n" ++
  "  -q, --quiet           only print the last term of the trace\n"

/-- What is said about wrong arguments. -/
def misuseText (misuse : Misuse) : String :=
  usageLine ++ "lc: error: " ++ misuse.message ++ "\n"

end CommandLine

end NormalOrder
