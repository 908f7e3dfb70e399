import NormalOrder.Bounded.Printer
import NormalOrder.Bounded.Reduction
import NormalOrder.Bounded.Refusal
import NormalOrder.Report.Reporter
import NormalOrder.Text.Quoted

/-!
# Evaluating a program

A `Session` holds a program, the number of contractions it may take, and its evaluation once there
is one.  It can be evaluated again, also with another number of contractions or with none in
particular, which is the usual number.  Reading and evaluating it take at most `levels` levels,
which are `Limits.levels` unless something else is said.
-/

namespace NormalOrder

/-- The incident of a term that cannot be printed. -/
def Incident.ofPrintRefusal : Refusal UnboundIndex → Incident
  | .tooDeep => .tooDeep
  | .failed e => .unforeseen "ValueError" e.message

/-- A program with its evaluation. -/
structure Session where
  /-- The source of the program. -/
  source : String
  /-- The most contractions of an evaluation, if there is a particular number; a negative one
  counts as zero. -/
  maxSteps : Option Int
  /-- The program. -/
  tree : Term
  /-- The latest evaluation. -/
  evaluation : Option Trace
  deriving DecidableEq, Repr

namespace Session

/-- The session of a source that has not been evaluated. -/
def ofSource (source : String) (maxSteps : Option Int) (levels : Nat := Limits.levels) :
    Except Rejection Session :=
  (parseWithin levels source).map fun tree =>
    ⟨source, some (maxSteps.getD Limits.steps), tree, none⟩

/-- Whether there is an evaluation. -/
def isReduced (s : Session) : Bool := s.evaluation.isSome

/-- The text of a number of contractions. -/
def stepsText : Option Int → String
  | none => "None"
  | some maxSteps => toString maxSteps

/-- The warning that an evaluation stopped before a normal form. -/
def unfinished (maxSteps : Option Int) : Message :=
  [.plain "no normal form was reached within ", .strong (stepsText maxSteps), .plain " steps"]

/-- What a reporter prints about an evaluation. -/
def remarks (s : Session) (trace : Trace) (style : Style) : Option Reporter → String
  | none => ""
  | some r => if trace.normal then "" else r.warning style (unfinished s.maxSteps)

/-- Evaluates the program: the trace, and the session that holds it. -/
def evaluate (s : Session) (levels : Nat := Limits.levels) :
    Except (Refusal Empty) (Trace × Session) :=
  (evaluateWithin levels (s.maxSteps.getD Limits.steps).toNat s.tree).map fun trace =>
    (trace, { s with evaluation := some trace })

/-- The evaluation, made now if there is none. -/
def trace (s : Session) (levels : Nat := Limits.levels) :
    Except (Refusal Empty) (Trace × Session) :=
  match s.evaluation with
  | some trace => .ok (trace, s)
  | none => s.evaluate levels

/-- How a session is shown. -/
def described (s : Session) : String := "NormalOrderReducer(" ++ Text.quoted s.source ++ ")"

end Session

end NormalOrder
