import Gloss.Lexeme
import Gloss.Text
import Gloss.Token

namespace Gloss

def Token.ofLexeme (c : Category) (offset : Nat) (lexeme : List Char) : Token :=
  ⟨⟨offset, offset + byteLength lexeme⟩, String.ofList lexeme, c⟩

namespace Category

/-- Adds the tokens of a kind in a text to those found so far. The text begins at `offset`, inside
a word or not, and its first `covered` characters belong to the last token found. -/
def scan (c : Category) (found : Array Token) (insideWord : Bool) (offset covered : Nat)
    (text : List Char) : Array Token :=
  match text with
  | [] => found
  | x :: rest =>
    match covered with
    | n + 1 => c.scan found (isWordChar x) (offset + x.utf8Size) n rest
    | 0 =>
      match c.lexemeLength insideWord text with
      | 0 => c.scan found (isWordChar x) (offset + x.utf8Size) 0 rest
      | n + 1 =>
        let token := Token.ofLexeme c offset (text.take (n + 1))
        c.scan (found.push token) (isWordChar x) (offset + x.utf8Size) n rest

/-- A scan only adds to what was found before. -/
theorem toList_scan (c : Category) (found : Array Token) (insideWord : Bool) (offset covered : Nat)
    (text : List Char) :
    (c.scan found insideWord offset covered text).toList
      = found.toList ++ (c.scan #[] insideWord offset covered text).toList := by
  induction text generalizing found insideWord offset covered with
  | nil => simp [scan]
  | cons x rest ih =>
    cases covered with
    | succ n => rw [scan, scan]; exact ih ..
    | zero =>
      rw [scan, scan]
      split
      · exact ih ..
      · rw [ih (found.push _), ih (Array.push #[] _)]; simp

def candidates (c : Category) (text : List Char) : List Token :=
  (c.scan #[] false 0 0 text).toList

end Category

def candidates (source : String) : List Token :=
  let text := source.toList
  Category.all.flatMap (·.candidates text)

end Gloss
