import Gloss.Vocabulary.Keyword
import Gloss.Vocabulary.Sign

/-! Nothing is asked of the two offsets of a span, so a token may be out of date or not belong to a
text at all. -/
namespace Gloss

/-- The bytes from `start` up to, and without, `stop`. -/
structure Span where
  start : Nat
  stop : Nat
deriving DecidableEq

namespace Span

def length (s : Span) : Nat := s.stop - s.start

def isEmpty (s : Span) : Bool := s.stop ≤ s.start

def point (offset : Nat) : Span := ⟨offset, offset⟩

theorem isEmpty_iff_length_eq_zero (s : Span) : s.isEmpty ↔ s.length = 0 := by
  simp only [isEmpty, length, decide_eq_true_eq]; omega

end Span

structure Token where
  span : Span
  text : String
  category : Category
deriving DecidableEq

namespace Register

variable {α : Type} [DecidableEq α] (r : Register α) {t : Token} {x : α}

/-- The entry that a token spells; a token of another kind spells none. -/
def find? (t : Token) : Option α :=
  if t.category = r.category then r.ofSpelling? t.text else none

def spells (t : Token) (x : α) : Bool := r.find? t = some x

omit [DecidableEq α] in
theorem find?_eq_some_iff :
    r.find? t = some x ↔ t.category = r.category ∧ t.text = r.spelling x := by
  rw [find?]
  split <;> simp [r.ofSpelling?_eq_some_iff, *]

/-- A token spells an entry exactly when it has the register's kind and the entry's text. -/
theorem spells_iff : r.spells t x ↔ t.category = r.category ∧ t.text = r.spelling x :=
  decide_eq_true_iff.trans r.find?_eq_some_iff

omit [DecidableEq α] in
theorem find?_of_category (h : t.category ≠ r.category) : r.find? t = none := if_neg h

theorem spells_of_category (h : t.category ≠ r.category) : r.spells t x = false := by
  rw [spells, r.find?_of_category h]
  rfl

end Register

namespace Token

def keyword? (t : Token) : Option Keyword :=
  Register.keywords.find? t

/-- The operator that an operator token spells; a run such as `=-` spells none. -/
def operator? (t : Token) : Option Operator :=
  Register.operators.find? t

def bracket? (t : Token) : Option Bracket :=
  Register.brackets.find? t

def isKeyword (t : Token) (k : Keyword) : Bool := Register.keywords.spells t k

def isOperator (t : Token) (o : Operator) : Bool := Register.operators.spells t o

def isBracket (t : Token) (b : Bracket) : Bool := Register.brackets.spells t b

def startsOperand (t : Token) : Bool :=
  t.category = .literal || t.category = .identifier || t.isBracket ⟨.round, true⟩

theorem isKeyword_eq (t : Token) (k : Keyword) : t.isKeyword k = decide (t.keyword? = some k) := rfl

theorem isOperator_eq (t : Token) (o : Operator) :
    t.isOperator o = decide (t.operator? = some o) := rfl

theorem isBracket_eq (t : Token) (b : Bracket) : t.isBracket b = decide (t.bracket? = some b) := rfl

theorem isKeyword_iff (t : Token) (k : Keyword) :
    t.isKeyword k ↔ t.category = .keyword ∧ t.text = k.spelling :=
  Register.keywords.spells_iff

theorem isOperator_iff (t : Token) (o : Operator) :
    t.isOperator o ↔ t.category = .operator ∧ t.text = o.spelling :=
  Register.operators.spells_iff

theorem isBracket_iff (t : Token) (b : Bracket) :
    t.isBracket b ↔ t.category = .bracket ∧ t.text = b.spelling :=
  Register.brackets.spells_iff

end Token
end Gloss
