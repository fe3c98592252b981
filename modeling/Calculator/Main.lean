import Calculator.CommandLine.Report

/-!
The calculator as a program. Lines of standard input are answered as they come, each a chunk of its
own; all else is a report printed at once.
-/
namespace Calculator.CommandLine

/-- Prints a report and gives its exit code. -/
def Report.emit (report : Report) : IO Nat := do
  IO.print report.output
  (← IO.getStdout).flush
  IO.eprint report.errors
  return report.exitCode

/-- The bytes of a file, if it can be read. -/
def readFile? (path : String) : IO (Option ByteArray) := do
  try
    return some (← IO.FS.readBinFile path)
  catch _ =>
    return none

/-- The next line of standard input with its line feed, after what was read of it before. It is
empty at the end of the input. -/
partial def nextLine (before : ByteArray) : IO ByteArray := do
  let byte ← (← IO.getStdin).read 1
  let line := before ++ byte
  if byte.isEmpty || byte.data.contains 10 then
    return line
  nextLine line

/-- Answers line after line of standard input, as in `Report.ofChunks`, until the end or a line that
is no text. The code is the greatest so far. -/
partial def answerInput (views : Views) (code : Nat) : IO Nat := do
  let line ← nextLine ByteArray.empty
  if line.isEmpty then
    return code
  let code := max code (← (Report.ofInput views line).emit)
  if (Text.decodedLines line).all Option.isSome then answerInput views code else return code

/-- One line for all that the argument parser has to say. -/
def briefUsage : Usage where
  help _ := printed ["Usage: arithmetica [OPTIONS] [CONTENTS]"]
  wrongUse _ := printed ["Usage: arithmetica [OPTIONS] [CONTENTS]"]

end Calculator.CommandLine

open Calculator.CommandLine in
def main (arguments : List String) : IO UInt32 := do
  let report (content : Option ByteArray) : Report :=
    Report.ofArguments briefUsage (fun _ => content) ByteArray.empty arguments
  let code ←
    match Request.ofArguments arguments with
    | .compute .standardInput views => answerInput views 0
    | .compute (.file path) _ => do (report (← readFile? path)).emit
    | _ => (report none).emit
  return code.toUInt32
