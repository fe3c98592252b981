import Calculator.CommandLine.Block
import Calculator.Text.Lines
import Calculator.Text.WhiteSpace

/-!
A whole run of the program: what it prints and the exit code it ends with.

A file is read as one text, and nothing of it is computed unless all of it is text. Standard input
is read line by line, so what comes before a line that is not text has been computed by then. In
both, lines of white space alone are passed over; contents on the command line are one line, blank
or not. Arguments that are refused and requests for help are answered by the argument parser, with
texts of its own.
-/
namespace Calculator.CommandLine

/-- What a run prints, and its exit code. -/
structure Report where
  exitCode : Nat
  output : String
  errors : String
  deriving DecidableEq

/-- Lines as they are printed, each with its line end. -/
def printed (lines : List String) : String := String.join (lines.map (· ++ "\n"))

def versionLine : String := "arithmetica 0.1.0"

/-- What the argument parser prints by itself: its help, and its message about arguments that it
refuses. -/
structure Usage where
  help : List String → String
  wrongUse : List String → String

/-- The message about a file that is missing or is no text. -/
def unreadableFile (path : String) : String :=
  "Failed to read the input file '" ++ path ++ "'. Perhaps this file does not exist?"

/-- The message about a line of standard input that is no text. -/
def unreadableInput : String := "Failed to read from stdin: stream did not contain valid UTF-8"

namespace Report

/-- The report on blocks, in order: the code is zero if every line has a result. -/
def ofBlocks (blocks : List Block) : Report where
  exitCode := if blocks.all Block.succeeded then 0 else 1
  output := printed (blocks.flatMap Block.output)
  errors := printed (blocks.flatMap Block.errors)

/-- The blocks of the lines that are not blank. -/
def blocksOf (views : Views) (lines : List String) : List Block :=
  (lines.filter fun line => !Text.isBlank line).map (Block.ofLine views)

def ofExpression (views : Views) (text : String) : Report := ofBlocks [Block.ofLine views text]

def ofText (views : Views) (text : String) : Report := ofBlocks (blocksOf views (Text.lines text))

/-- The report on a file, from its bytes, if there are any to be had. -/
def ofFile (views : Views) (path : String) (content : Option ByteArray) : Report :=
  match content.bind String.fromUTF8? with
  | some text => ofText views text
  | none => ⟨1, "", printed [unreadableFile path]⟩

/-- The report on standard input, line by line until one is no text. -/
def ofInput (views : Views) (bytes : ByteArray) : Report :=
  let lines := Text.decodedLines bytes
  let report := ofBlocks (blocksOf views ((lines.takeWhile Option.isSome).filterMap id))
  if lines.all Option.isSome then report
  else ⟨1, report.output, report.errors ++ printed [unreadableInput]⟩

/-- One report and then another. -/
def followedBy (first second : Report) : Report where
  exitCode := max first.exitCode second.exitCode
  output := first.output ++ second.output
  errors := first.errors ++ second.errors

/-- The report on standard input that comes in chunks, each answered before the next is read. No
chunk is read after one that is no text. -/
def ofChunks (views : Views) : List ByteArray → Report
  | [] => ⟨0, "", ""⟩
  | chunk :: chunks =>
    let report := ofInput views chunk
    if (Text.decodedLines chunk).all Option.isSome then report.followedBy (ofChunks views chunks)
    else report

/-- What the program does when started with arguments, given the argument parser's texts, a way to
read files and what standard input holds. -/
def ofArguments (usage : Usage) (readFile : String → Option ByteArray) (input : ByteArray)
    (arguments : List String) : Report :=
  match Request.ofArguments arguments with
  | .wrongUse => ⟨2, "", usage.wrongUse arguments⟩
  | .version => ⟨0, printed [versionLine], ""⟩
  | .help => ⟨0, usage.help arguments, ""⟩
  | .compute (.expression text) views => ofExpression views text
  | .compute (.file path) views => ofFile views path (readFile path)
  | .compute .standardInput views => ofInput views input

end Report
end Calculator.CommandLine
