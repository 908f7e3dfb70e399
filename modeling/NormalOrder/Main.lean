import NormalOrder.CommandLine.Run

/-!
# The command line

Reads the program from where the arguments say, evaluates it and prints what came of it.
-/

namespace NormalOrder

namespace CommandLine

/-- All bytes of a stream, after those in `read`. -/
partial def readAll (stream : IO.FS.Stream) (read : ByteArray) : IO ByteArray := do
  let bytes ← stream.read 65536
  if bytes.isEmpty then pure read else readAll stream (read ++ bytes)

/-- The content found where a program comes from. -/
def Origin.content : Origin → IO Content
  | .inline _ | .void => pure .unreadable
  | .file name => do
    try
      let bytes ← IO.FS.readBinFile name
      pure (.bytes bytes.toList)
    catch _ => pure .unreadable
  | .stdin => do
    let bytes ← readAll (← IO.getStdin) .empty
    pure (.bytes bytes.toList)

/-- What is left behind by a run that breaks off. -/
def Crash.outcome (crash : Crash) : Outcome :=
  { code := 1, stderr := crash.kind ++ ": " ++ crash.text ++ "\n" }

/-- What comes of some arguments. -/
def outcome (style : Style) (arguments : List String) : IO Outcome := do
  match settings arguments with
  | .error halt => pure (halt.outcome style)
  | .ok s =>
    let content ← s.origin.content
    match run style s content with
    | .error crash => pure crash.outcome
    | .ok outcome => pure outcome

end CommandLine

end NormalOrder

open NormalOrder in
/-- The command line; output is coloured on a terminal. -/
def main (arguments : List String) : IO UInt32 := do
  let stdout ← IO.getStdout
  let style := if ← stdout.isTty then Style.coloured else Style.plain
  let outcome ← CommandLine.outcome style arguments
  stdout.putStr outcome.stdout
  (← IO.getStderr).putStr outcome.stderr
  pure (UInt32.ofNat outcome.code.toNat)
