namespace Gloss

inductive CharClass where
  | operator
  | bracket
  | digit
  /-- What a name may begin with: a letter or an underscore. -/
  | nameStart
  /-- Letters, digits and the underscore. -/
  | word
  /-- All but the given quote and the two line ends. -/
  | quoted (quote : Char)
deriving DecidableEq

namespace CharClass

def has : CharClass → Char → Bool
  | operator, c =>
    c = '+' || c = '-' || c = '*' || c = '/' || c = '=' || c = '<' || c = '>' || c = '!'
  | bracket, c => c = '(' || c = ')' || c = '[' || c = ']' || c = '\x7b' || c = '\x7d'
  | digit, c => c.isDigit
  | nameStart, c => c.isAlpha || c = '_'
  | word, c => c.isAlphanum || c = '_'
  | quoted quote, c => c ≠ quote && c ≠ '\r' && c ≠ '\n'

theorem has_word_of_has_nameStart {c : Char} (h : nameStart.has c) : word.has c := by
  simp only [has, Char.isAlphanum, Bool.or_eq_true] at *
  exact h.imp_left Or.inl

theorem has_word_of_has_digit {c : Char} (h : digit.has c) : word.has c := by
  simp only [has, Char.isAlphanum, Bool.or_eq_true] at *
  exact Or.inl (Or.inr h)

end CharClass

abbrev isWordChar (c : Char) : Bool := CharClass.word.has c

def isQuote (c : Char) : Bool := c = '"' || c = '\'' || c = '\x60'

end Gloss
