import Gloss.CommandLine.Arguments
import Gloss.CommandLine.Help
import Gloss.CommandLine.Source
import Gloss.Listing

namespace Gloss.CommandLine

structure Result where
  exitCode : Int
  standardOutput : String
  standardError : String
deriving DecidableEq

namespace Result

def ofFailure (f : Failure) : Result :=
  ⟨f.exitCode, "", if f.message.isEmpty then "" else f.message ++ "\n"⟩

def ofStop : Stop → Result
  | .refused why => ⟨2, "", usageError why⟩
  | .help topic => ⟨0, help topic, ""⟩
  | .version => ⟨0, versionLine, ""⟩

end Result

def exitCode (outcome : Outcome) : Int := if outcome.isClean then 0 else 1

def printReport (name : String) (source : String) (report : Report) (coloring : Coloring)
    (terminal : Bool) : String :=
  render coloring terminal source report.tokens report.outcome.errorSpan?
    ++ (if source.isEmpty || source.endsWith "\n" then "" else "\n")
    ++ name ++ ": " ++ report.outcome.status ++ "\n"

/-- Checks the text at a path. Besides the status, people get a picture of a syntax error on
standard error, which a library for diagnostics draws from `Diagnostic.withEndOfInput`, the name and
the text. The picture is left out here: `standardError` stays empty. -/
def checkFile (host : Host) (path : String) (json : Bool) (color : ColorMode) :
    Except Failure Result := do
  let source ← readSource host path
  let report := check source
  let name := displayName path
  let output :=
    if json then (report.toJson name).render ++ "\n"
    else printReport name source report { Coloring.standard with mode := color } host.terminal
  return ⟨exitCode report.outcome, output, ""⟩

def tokensFile (host : Host) (path : String) (json : Bool) : Except Failure Result := do
  let tokens := tokenize (← readSource host path)
  return ⟨0, if json then (tokensJson tokens).render ++ "\n" else tokenLines tokens, ""⟩

namespace Request

/-- The path of the text to work on. A file to tokenize goes before a command, and a command before
a file to check. -/
def path? (r : Request) : Option String := r.lex <|> r.order.map Order.file <|> r.file

def run (host : Host) (r : Request) : Except Failure Result :=
  match r.lex, r.order, r.file with
  | some path, _, _ => tokensFile host path false
  | none, some (.check path json color), _ => checkFile host path json color
  | none, some (.tokens path json), _ => tokensFile host path json
  | none, none, some path => checkFile host path false .auto
  | none, none, none => .error ⟨"Error: no input file (try `lumen --help`)", 1⟩

end Request

def run (host : Host) (arguments : List String) : Result :=
  match Request.ofArguments arguments with
  | .error stop => .ofStop stop
  | .ok request =>
    match request.run host with
    | .error failure => .ofFailure failure
    | .ok result => result

end Gloss.CommandLine
