import Gloss.Character
import Gloss.Category
import Gloss.Vocabulary.Keyword

/-! Lengths are counted in characters, and are zero where no token of the kind begins. -/
namespace Gloss.Lexeme

def endsWord (text : List Char) : Bool := !text.head?.any isWordChar

/-- The whole word that begins here; nothing in the middle of a word. -/
def word (insideWord : Bool) (text : List Char) : List Char :=
  if insideWord then [] else text.takeWhile isWordChar

def keyword (insideWord : Bool) (text : List Char) : Nat :=
  match word insideWord text with
  | [] => 0
  | c :: w => if (Keyword.ofSpelling? (String.ofList (c :: w))).isSome then w.length + 1 else 0

def identifier (insideWord : Bool) (text : List Char) : Nat :=
  match word insideWord text with
  | [] => 0
  | c :: w => if CharClass.nameStart.has c then w.length + 1 else 0

def operator (text : List Char) : Nat := (text.takeWhile CharClass.operator.has).length

def bracket (text : List Char) : Nat := if text.head?.any CharClass.bracket.has then 1 else 0

/-- The text after a quote, up to and with the next such quote; none if the line ends first. -/
def quoted (quote : Char) (text : List Char) : Nat :=
  let inside := text.takeWhile (CharClass.quoted quote).has
  if text[inside.length]? = some quote then inside.length + 1 else 0

/-- A point and at least one digit that end a word. -/
def fraction : List Char → Nat
  | '.' :: text =>
    let digits := (text.takeWhile CharClass.digit.has).length
    if digits ≠ 0 && endsWord (text.drop digits) then digits + 1 else 0
  | _ => 0

def number (insideWord : Bool) (text : List Char) : Nat :=
  if insideWord then 0
  else
    let digits := (text.takeWhile CharClass.digit.has).length
    let rest := text.drop digits
    -- Digits that other word characters follow are no number.
    if digits ≠ 0 && endsWord rest then digits + fraction rest else 0

def literal (insideWord : Bool) (text : List Char) : Nat :=
  match text with
  | [] => 0
  | c :: rest =>
    if isQuote c then
      match quoted c rest with
      | 0 => 0
      | n + 1 => n + 2
    else number insideWord text

end Lexeme

/-- The number of characters of the token of a kind that begins here, zero if none does. -/
def Category.lexemeLength (c : Category) (insideWord : Bool) (text : List Char) : Nat :=
  match c with
  | .keyword => Lexeme.keyword insideWord text
  | .operator => Lexeme.operator text
  | .literal => Lexeme.literal insideWord text
  | .bracket => Lexeme.bracket text
  | .identifier => Lexeme.identifier insideWord text

end Gloss
