import Gloss.Json
import Gloss.Quoted
import Gloss.Report

namespace Gloss

def Span.fields (s : Span) : List (String × Json) :=
  [("start", .number s.start), ("end", .number s.stop)]

def Position.fields (p : Position) : List (String × Json) :=
  [("line", .number p.line), ("column", .number p.column)]

def Token.toJson (t : Token) : Json :=
  .record (t.span.fields ++ [("text", .text t.text), ("type", .text t.category.tag)])

def Token.line (t : Token) : String :=
  s!"{t.span.start}..{t.span.stop} {t.category.tag} " ++ Quoted.encode t.text

def Location.toJson : Location → Json
  | .token span p => .record ([("at", .text "token"), ("span", .record span.fields)] ++ p.fields)
  | .endOfInput offset p =>
    .record ([("at", .text "end_of_input"), ("offset", .number offset)] ++ p.fields)

/-- The fields of a finding; one without a hint has no such field. -/
def Finding.fields (f : Finding) : List (String × Json) :=
  [("message", .text f.message), ("kind", .text f.kind.tag)]
    ++ (f.hint?.map fun hint => ("hint", Json.text hint)).toList
    ++ [("location", f.location.toJson)]

def Outcome.toJson : Outcome → Json
  | .clean => .record [("status", .text "clean")]
  | .syntaxError f => .record (("status", .text "syntax_error") :: f.fields)
  | .unknown message => .record [("status", .text "unknown"), ("message", .text message)]

def tokensJson (tokens : List Token) : Json := .list (tokens.map Token.toJson)

def Report.toJson (r : Report) (name : String) : Json :=
  .record [("file", .text name), ("message", .text r.outcome.status),
    ("tokens", tokensJson r.tokens), ("outcome", r.outcome.toJson)]

def tokenLines (tokens : List Token) : String :=
  tokens.foldl (fun out t => out ++ t.line ++ "\n") ""

end Gloss
