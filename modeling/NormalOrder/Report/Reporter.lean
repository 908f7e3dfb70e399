import NormalOrder.Report.Diagnostic

/-!
# Reporting

A `Reporter` knows the program that is being run and turns diagnostics into the lines that are
printed about it.  Whatever stops a run is an `Incident`; `Reporter.settle` says what is printed
about it and what becomes of the run.
-/

namespace NormalOrder

/-- What is reported, and about which program. -/
structure Reporter where
  /-- Whether an error ends everything. -/
  fatal : Bool := true
  /-- What the program is called. -/
  path : Option String := none
  /-- The source of the program. -/
  source : String := ""
  deriving DecidableEq, Repr

/-- Something that stops a run. -/
inductive Incident where
  /-- The user wants it to stop. -/
  | interrupted
  /-- The run ends with an exit code. -/
  | exit (code : Int)
  /-- A term or a program has too many levels. -/
  | tooDeep
  /-- There is something to report. -/
  | diagnosed (diagnostic : Diagnostic)
  /-- Anything else, by its kind and its text. -/
  | unforeseen (kind text : String)
  deriving DecidableEq, Repr

/-- The incident of a number with too many digits. -/
def Incident.digits (count : Nat) : Incident := .unforeseen "ValueError" (digitsMessage count)

/-- The incident of a source that is not a program. -/
def Incident.ofRejection (source : String) : Rejection → Incident
  | .lexical e => .diagnosed (.ofLexError source e)
  | .grammatical e => .diagnosed (.ofParseError source e)
  | .digits count => .digits count

/-- What becomes of a run after an incident. -/
inductive Verdict where
  /-- It ends with an exit code. -/
  | exit (code : Int)
  /-- It goes on. -/
  | suppressed
  /-- The incident is left to somebody else. -/
  | passedOn
  deriving DecidableEq, Repr

namespace Reporter

/-- The reporter of another program. -/
def register (r : Reporter) (path source : String) : Reporter :=
  { r with path := some path, source := source }

/-- The beginning of a line: what the program is called and, if a stretch of its source is meant,
where. -/
def place (r : Reporter) (style : Style) (d : Option Diagnostic) : String :=
  match r.path with
  | none => ""
  | some path =>
    match d with
    | none => style.bold (path ++ ": ")
    | some d =>
      if d.pointed ∧ d.source = r.source then
        let place := locate r.source.toList d.position
        style.bold
          (path ++ ":" ++ toString place.number ++ ":" ++ toString place.column ++ ": ")
      else style.bold (path ++ ": ")

/-- The line that warns. -/
def warning (r : Reporter) (style : Style) (message : Message) : String :=
  r.place style none ++ style.paint .magenta "warning: " ++ message.render style ++ "\n"

/-- The lines that report an error. -/
def report (r : Reporter) (style : Style) (d : Diagnostic) : String :=
  r.place style (some d) ++ (if d.internal then style.paint .red "[internal] " else "") ++
    style.paint .red "error: " ++ d.message.render style ++ "\n" ++
    (if !d.internal && !d.source.isEmpty && d.pointed then d.excerpt style .red ++ "\n" else "")

/-- What becomes of a run after an error: a fatal one ends it. -/
def verdict (r : Reporter) : Verdict := if r.fatal then .exit 1 else .suppressed

/-- The diagnostic of an incident that nobody foresaw. -/
def unknownError (kind text : String) : Diagnostic where
  message := [.plain "unknown error: '", .strong kind, .plain ": ", .strong text, .plain "'"]
  internal := true

/-- What is printed about an incident, and what becomes of the run. -/
def settle (r : Reporter) (style : Style) : Incident → String × Verdict
  | .interrupted => (r.report style (.remark [.plain "keyboard interrupt"]), r.verdict)
  | .exit code => ("", .exit code)
  | .tooDeep =>
    (r.report style (.remark
      [.plain "normal form might exist, but maximum recursion depth exceeded"]), r.verdict)
  | .diagnosed d => (r.report style d, r.verdict)
  | .unforeseen kind text =>
    (r.report style (unknownError kind text), if r.fatal then .exit 1 else .passedOn)

end Reporter

end NormalOrder
