import NormalOrder.CommandLine.Options
import NormalOrder.Session
import NormalOrder.Text.Decoding

/-!
# A run of the command line

The arguments say where the program comes from.  Once it is there, `run` evaluates it and writes
its trace: the program on the first line and every later term behind a `β`, or the last term only.
Whatever goes wrong is reported among the output.
-/

namespace NormalOrder

namespace CommandLine

/-- What a run leaves behind. -/
structure Outcome where
  /-- The exit code. -/
  code : Int := 0
  /-- What was written to the standard output. -/
  stdout : String := ""
  /-- What was written to the standard error. -/
  stderr : String := ""
  deriving DecidableEq, Repr

/-- A run that breaks off without a report, by the kind of what went wrong and its text. -/
structure Crash where
  /-- The kind of what went wrong. -/
  kind : String
  /-- Its text. -/
  text : String
  deriving DecidableEq, Repr

/-- What was found where a program should come from. -/
inductive Content where
  /-- Nothing that can be read. -/
  | unreadable
  /-- Some bytes. -/
  | bytes (bytes : List UInt8)
  deriving DecidableEq, Repr

/-- What the program is called in messages. -/
def Origin.path : Origin → String
  | inline _ => "<expr>"
  | void => "<expr>"
  | file name => name
  | stdin => "<stdin>"

/-- The incident of a file that cannot be opened; no file has a name with a null character. -/
def unopened (name : String) : Incident :=
  if '\x00' ∈ name.toList then .unforeseen "ValueError" "embedded null byte"
  else .diagnosed (.remark [.plain "'", .strong name, .plain "' could not be opened"])

/-- The text that some bytes are, with its line endings unified. -/
def sourceOfBytes (bytes : List UInt8) : Except Incident String :=
  match Utf8.decode bytes with
  | .error fault => .error (.unforeseen "UnicodeDecodeError" fault.message)
  | .ok text => .ok (Text.withNewlines text)

/-- The source that some content is; a program among the arguments is taken as it stands. -/
def Origin.source (origin : Origin) (content : Content) : Except Incident String :=
  match origin, content with
  | inline source, _ => .ok source
  | _, .unreadable => .error (unopened origin.path)
  | _, .bytes bytes => sourceOfBytes bytes

/-- Writes some terms after `written`, each on a line behind its margin, up to the first that
cannot be printed within `levels` levels. -/
def writeTerms (levels : Nat) (numerals : Bool) (written : String) :
    List (String × Term) → String × Option Incident
  | [] => (written, none)
  | (margin, t) :: rest =>
    match prettyWithin levels t numerals with
    | .error e => (written, some (.ofPrintRefusal e))
    | .ok text => writeTerms levels numerals (written ++ margin ++ text ++ "\n") rest

/-- The terms of a trace that are written, each with its margin. -/
def Settings.selection (s : Settings) (trace : Trace) : List (String × Term) :=
  if s.quiet then [("", trace.result)]
  else ("  ", trace.first) :: trace.later.map ("β ", ·)

/-- Evaluates a registered program: what is written, and what stopped it. -/
def evaluateSource (levels : Nat) (s : Settings) (style : Style) (r : Reporter) :
    String × Option Incident :=
  match Session.ofSource r.source (some s.maxSteps) levels with
  | .error e => ("", some (.ofRejection r.source e))
  | .ok session =>
    match session.evaluate levels with
    | .error _ => ("", some .tooDeep)
    | .ok (trace, session) =>
      writeTerms levels s.numerals (session.remarks trace style (some r)) (s.selection trace)

/-- How a run ends that wrote some output and was stopped by an incident. -/
def conclude (style : Style) (r : Reporter) (written : String) : Option Incident → Outcome
  | none => { stdout := written }
  | some incident =>
    let (printed, verdict) := r.settle style incident
    { stdout := written ++ printed
      code := match verdict with
        | .exit code => code
        | _ => 0 }

/-- A void program is no program, and there is no source to show in the report about it. -/
def voidProgram : Crash := ⟨"AttributeError", "'list' object has no attribute 'rfind'"⟩

/-- The incident of a number of contractions that cannot be checked. -/
def voidSteps : Incident :=
  .unforeseen "TypeError" "'<' not supported between instances of 'list' and 'int'"

/-- The run for given settings and the content found where the program comes from; nothing that it
does takes more than `levels` levels. -/
def run (style : Style) (s : Settings) (content : Content) (levels : Nat := Limits.levels) :
    Except Crash Outcome :=
  if s.origin = .void then .error voidProgram
  else
    match s.origin.source content with
    | .error incident => .ok (conclude style {} "" (some incident))
    | .ok source =>
      let r := Reporter.register {} s.origin.path source
      let (written, incident) := evaluateSource levels s style r
      .ok (conclude style r written incident)

/-- How a run ends that does not take place. -/
def Halt.outcome (style : Style) : Halt → Outcome
  | .help => { stdout := helpText }
  | .misuse wrong => { code := 2, stderr := misuseText wrong }
  | .voidSteps => conclude style {} "" (some CommandLine.voidSteps)

end CommandLine

end NormalOrder
