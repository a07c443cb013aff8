import Gloss.Grammar.Goal

namespace Gloss

structure Progress where
  unread : List Token
  names : NameSet

structure Verdict extends Progress where
  error? : Option SyntaxError

namespace Goal

inductive Replies where
  /-- A goal has read the token; the names and the goals are now these. -/
  | read (names : NameSet) (goals : List Goal)
  /-- All goals are met, and the token is left. -/
  | met
  | failed (error : SyntaxError)

def offerAll (names : NameSet) (t : Token) (last : Bool) : List Goal → Replies
  | [] => .met
  | goal :: goals =>
    match goal.offer names t last with
    | .reads names next => .read names (next ++ goals)
    | .leaves => offerAll names t last goals
    | .fails error => .failed error

def meet (goals : List Goal) (names : NameSet) : List Token → Verdict
  | [] => ⟨⟨[], names⟩, goals.findSome? (missing? names)⟩
  | t :: rest =>
    match offerAll names t rest.isEmpty goals with
    | .read names goals => meet goals names rest
    | .met => ⟨⟨t :: rest, names⟩, none⟩
    | .failed error => ⟨⟨t :: rest, names⟩, some error⟩

end Goal

namespace Progress

def start (tokens : List Token) : Progress := ⟨tokens, ∅⟩

def parse (p : Progress) : Verdict := Goal.meet [.statements] p.names p.unread

/-- Parses again and again, each time from where the last parse stopped. -/
def parses (p : Progress) : Nat → List Verdict
  | 0 => []
  | n + 1 => p.parse :: p.parse.toProgress.parses n

end Progress

def parse (tokens : List Token) : Verdict := (Progress.start tokens).parse

end Gloss
