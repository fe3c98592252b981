/-!
What a row of command line arguments asks for.

Flags can be given one by one in long form, or by letters, several in one argument; one argument
that is no flag is the contents. Two hyphens alone end the flags. Since an expression may begin
with a minus, only exact flag names and arguments whose letters are all flags are taken as flags,
and any other argument is contents, however it begins. Once there are contents, no argument can be
taken that way, and one hyphen and letters are flags up to the first letter that is none, which is
a wrong use.

Arguments are read from left to right, and the first thing that settles the request wins: a flag
given twice, a second contents or a value given to a flag is a wrong use, and asking for the
version or for help is answered at once.
-/
namespace Calculator.CommandLine

/-- A named choice on the command line. -/
inductive Flag where
  | file
  | tokens
  | ast
  | version
  | help
  deriving DecidableEq

namespace Flag

def all : List Flag := [file, tokens, ast, version, help]

/-- The long form, without its hyphens. -/
def name : Flag → String
  | file => "file"
  | tokens => "tokens"
  | ast => "ast"
  | version => "version"
  | help => "help"

/-- The short form, without its hyphen. -/
def letter : Flag → Char
  | file => 'f'
  | tokens => 't'
  | ast => 'a'
  | version => 'V'
  | help => 'h'

def ofName? (name : String) : Option Flag := all.find? (·.name == name)

def ofLetter? (letter : Char) : Option Flag := all.find? (·.letter == letter)

end Flag

/-- What a single argument is while flags may still come. -/
inductive Argument where
  /-- One flag, or several in a row. -/
  | flags (flags : List Flag)
  /-- A flag with a value, which no flag takes. -/
  | assignment
  | endOfFlags
  | contents
  deriving DecidableEq

/-- What an argument in long form is, told by what follows its two hyphens. -/
def Argument.ofLong (name : List Char) : Argument :=
  if name.isEmpty then .endOfFlags
  else match Flag.ofName? (String.ofList name) with
    | some flag => .flags [flag]
    | none =>
      if name.contains '=' && (Flag.ofName? (String.ofList (name.takeWhile (· != '=')))).isSome then
        .assignment
      else .contents

def Argument.of (argument : String) : Argument :=
  match argument.toList with
  | '-' :: '-' :: name => ofLong name
  | '-' :: letter :: letters =>
    match (letter :: letters).mapM Flag.ofLetter? with
    | some cluster => .flags cluster
    | none => .contents
  | _ => .contents

/-- The flags at the front of an argument in short form, up to the first letter that is none. -/
def Argument.leadingFlags (argument : String) : List Flag :=
  match argument.toList with
  | '-' :: letters => ((letters.map Flag.ofLetter?).takeWhile Option.isSome).filterMap id
  | _ => []

/-- What is shown of a line besides its result. -/
structure Views where
  tokens : Bool
  tree : Bool
  deriving DecidableEq

/-- Where the lines to be computed come from. -/
inductive Source where
  | standardInput
  | file (path : String)
  | expression (text : String)
  deriving DecidableEq

inductive Request where
  | wrongUse
  | version
  | help
  | compute (source : Source) (views : Views)
  deriving DecidableEq

namespace Request

/-- Adds flags to those given before, unless one of them settles the request. -/
def addFlags (given : List Flag) : List Flag → Except Request (List Flag)
  | [] => .ok given
  | .version :: _ => .error .version
  | .help :: _ => .error .help
  | flag :: flags => if flag ∈ given then .error .wrongUse else addFlags (flag :: given) flags

/-- The request when an argument would be contents and there are some already: a wrong use, unless
one of the flags at its front settles the request before. -/
def refuseContents (given : List Flag) (argument : String) : Request :=
  match addFlags given (Argument.leadingFlags argument) with
  | .ok _ => wrongUse
  | .error request => request

/-- The request when there are no more arguments. A file needs contents, its path. -/
def finish (given : List Flag) (contents : Option String) : Request :=
  let views : Views := ⟨.tokens ∈ given, .ast ∈ given⟩
  match contents with
  | none => if .file ∈ given then wrongUse else compute .standardInput views
  | some text => compute (if .file ∈ given then .file text else .expression text) views

/-- Takes an argument as the contents, unless there are some, and goes on. -/
def readContents (given : List Flag) : Option String → List String → Request
  | contents, [] => finish given contents
  | none, argument :: arguments => readContents given (some argument) arguments
  | some _, _ :: _ => wrongUse

/-- Reads arguments, after these flags and contents were given. -/
def read (given : List Flag) (contents : Option String) : List String → Request
  | [] => finish given contents
  | argument :: arguments =>
    match Argument.of argument with
    | .endOfFlags => readContents given contents arguments
    | .assignment => wrongUse
    | .contents =>
      if contents.isSome then refuseContents given argument
      else read given (some argument) arguments
    | .flags flags =>
      match addFlags given flags with
      | .ok given => read given contents arguments
      | .error request => request

def ofArguments (arguments : List String) : Request := read [] none arguments

end Request
end Calculator.CommandLine
