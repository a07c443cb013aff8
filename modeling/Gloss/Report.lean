import Gloss.Grammar.Parse
import Gloss.Position
import Gloss.Tokenize

namespace Gloss

inductive Location where
  /-- At the token with this span. -/
  | token (span : Span) (position : Position)
  /-- At the end of the text. -/
  | endOfInput (offset : Nat) (position : Position)
deriving DecidableEq

namespace Location

def position : Location → Position
  | token _ p | endOfInput _ p => p

def span? : Location → Option Span
  | token s _ => some s
  | endOfInput .. => none

def describe : Location → String
  | token _ p => s!"line {p.line}, column {p.column}"
  | endOfInput _ p => s!"end of input (line {p.line}, column {p.column})"

def ofError (source : String) (e : SyntaxError) : Location :=
  match e.token? with
  | some t => token t.span (.ofOffset source t.span.start)
  | none => endOfInput source.utf8ByteSize (.ofOffset source source.utf8ByteSize)

end Location

structure Finding where
  diagnostic : Diagnostic
  location : Location
deriving DecidableEq

namespace Finding

def ofDiagnostic (source : String) (d : Diagnostic) : Finding := ⟨d, .ofError source d.error⟩

def message (f : Finding) : String := f.diagnostic.error.message

def kind (f : Finding) : SyntaxError.Kind := f.diagnostic.error.kind

def hint? (f : Finding) : Option String := f.diagnostic.hint

def describe (f : Finding) : String := f.message ++ " at " ++ f.location.describe

end Finding

inductive Outcome where
  | clean
  | syntaxError (finding : Finding)
  /-- Something else than the text was wrong; no check ends so. -/
  | unknown (message : String)
deriving DecidableEq

namespace Outcome

def isClean : Outcome → Bool
  | clean => true
  | syntaxError _ | unknown _ => false

def status : Outcome → String
  | clean => "No syntax errors."
  | syntaxError f => f.describe
  | unknown message => "Unknown error: " ++ message

def errorSpan? : Outcome → Option Span
  | syntaxError f => f.location.span?
  | clean | unknown _ => none

end Outcome

/-- Parses the tokens of a text. The text itself only tells where an error is. -/
def checkTokens (source : String) (tokens : List Token) : Outcome :=
  match (parse tokens).error? with
  | none => .clean
  | some e => .syntaxError (.ofDiagnostic source (.ofError e))

structure Report where
  tokens : List Token
  outcome : Outcome
deriving DecidableEq

def check (source : String) : Report :=
  let tokens := tokenize source
  ⟨tokens, checkTokens source tokens⟩

end Gloss
