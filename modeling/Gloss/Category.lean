import Gloss.Lexicon

namespace Gloss

inductive Category where
  | keyword
  | operator
  | literal
  | bracket
  | identifier
deriving DecidableEq

namespace Category

/-- All kinds, highest priority first. -/
def all : List Category := [.keyword, .operator, .literal, .bracket, .identifier]

def tag : Category → String
  | .keyword => "keyword"
  | .operator => "operator"
  | .literal => "literal"
  | .bracket => "bracket"
  | .identifier => "identifier"

def description : Category → String
  | .keyword => "reserved word"
  | .operator => "run of arithmetic, comparison or assignment symbols"
  | .literal => "quoted string or number"
  | .bracket => "parenthesis, bracket or brace"
  | .identifier => "name"

theorem mem_all (c : Category) : c ∈ all := by cases c <;> decide

def lexicon : Lexicon Category where
  entries := all
  spelling := tag
  complete := mem_all
  distinct := by decide

def ofTag? (tag : String) : Option Category := lexicon.ofSpelling? tag

theorem ofTag?_tag (c : Category) : ofTag? c.tag = some c := lexicon.ofSpelling?_spelling c

end Category

structure Register (α : Type) extends Lexicon α where
  category : Category

end Gloss
