import Gloss.Character
import Gloss.Category
import Gloss.Vocabulary.Keyword
import Gloss.Vocabulary.Sign

/-! Where a pattern leaves a choice, the way that is written first is preferred, and a repetition
prefers more to less. -/
namespace Gloss

inductive Pattern where
  | literal (text : String)
  | one (c : CharClass)
  /-- Any number of characters of a class. -/
  | star (c : CharClass)
  /-- At least one character of a class. -/
  | plus (c : CharClass)
  /-- A place with a word character on exactly one side. -/
  | wordEdge
  | seq (p q : Pattern)
  | either (p q : Pattern)
  | group (p : Pattern)
  | optional (p : Pattern)

namespace Pattern

def special : List Char :=
  ['\\', '.', '+', '*', '?', '(', ')', '|', '[', ']', '\x7b', '\x7d', '^', '$', '#', '&', '-', '~']

def escape (c : Char) : String := if c ∈ special then "\\" ++ c.toString else c.toString

def escapeText (s : String) : String := String.join (s.toList.map escape)

end Pattern

def CharClass.written : CharClass → String
  | operator => "[" ++ Pattern.escapeText Operator.characters ++ "]"
  | bracket => "[()\\[\\]\x7b\x7d]"
  | digit => "[0-9]"
  | nameStart => "[a-zA-Z_]"
  | word => "(?-u:\\w)"
  | quoted quote => "[^" ++ quote.toString ++ "\\r\\n]"

namespace Pattern

def written : Pattern → String
  | literal text => escapeText text
  | one c => c.written
  | star c => c.written ++ "*"
  | plus c => c.written ++ "+"
  | wordEdge => "(?-u:\\b)"
  | seq p q => p.written ++ q.written
  | either p q => p.written ++ "|" ++ q.written
  | group p => "(?:" ++ p.written ++ ")"
  | optional p => p.written ++ "?"

def quotedText (quote : Char) : Pattern :=
  .seq (.literal quote.toString) (.seq (.star (.quoted quote)) (.literal quote.toString))

def number : Pattern :=
  .seq .wordEdge
    (.seq (.plus .digit)
      (.seq (.optional (.group (.seq (.literal ".") (.plus .digit)))) .wordEdge))

def anyKeyword : Pattern :=
  Keyword.all.tail.foldl (fun p k => .either p (.literal k.spelling))
    (.literal Keyword.ifWord.spelling)

end Pattern

def Category.pattern : Category → Pattern
  | .keyword => .seq .wordEdge (.seq (.group .anyKeyword) .wordEdge)
  | .operator => .plus .operator
  | .literal =>
    .either (.quotedText '"')
      (.either (.quotedText '\'') (.either (.quotedText '\x60') .number))
  | .bracket => .one .bracket
  | .identifier => .seq .wordEdge (.seq (.one .nameStart) (.seq (.star .word) .wordEdge))

/-- The class of operator characters is the one that patterns write out. -/
theorem CharClass.has_operator_iff (c : Char) :
    CharClass.operator.has c ↔ c ∈ Operator.characters.toList := by
  have spelled : Operator.characters.toList = ['+', '-', '*', '/', '=', '<', '>', '!'] := by decide
  simp [spelled, CharClass.has, or_assoc]

end Gloss
