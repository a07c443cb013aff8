import Gloss.Category

namespace Gloss

inductive Operator where
  | plus
  | minus
  | star
  | slash
  | equal
  | notEqual
  | less
  | lessEqual
  | greater
  | greaterEqual
  | assign
  | not
  /-- Ends a statement. No text is read as this sign; it occurs only in token lists made by hand. -/
  | semicolon
deriving DecidableEq

namespace Operator

def all : List Operator :=
  [.plus, .minus, .star, .slash, .equal, .notEqual, .less, .lessEqual, .greater, .greaterEqual,
    .assign, .not, .semicolon]

def spelling : Operator → String
  | .plus => "+"
  | .minus => "-"
  | .star => "*"
  | .slash => "/"
  | .equal => "=="
  | .notEqual => "!="
  | .less => "<"
  | .lessEqual => "<="
  | .greater => ">"
  | .greaterEqual => ">="
  | .assign => "="
  | .not => "!"
  | .semicolon => ";"

inductive Level where
  | additive
  | multiplicative
deriving DecidableEq

def Level.rank : Level → Nat
  | .additive => 1
  | .multiplicative => 2

def level? : Operator → Option Level
  | .plus | .minus => some .additive
  | .star | .slash => some .multiplicative
  | _ => none

def characters : String := "+-*/=<>!"

theorem mem_all (o : Operator) : o ∈ all := by cases o <;> decide

end Operator

def Register.operators : Register Operator where
  entries := Operator.all
  spelling := Operator.spelling
  complete := Operator.mem_all
  distinct := by decide
  category := .operator

@[simp]
theorem Register.operators_category : operators.category = .operator := rfl

def Operator.ofSpelling? (s : String) : Option Operator := Register.operators.ofSpelling? s

inductive Bracket.Shape where
  | round
  | square
  | curly
deriving DecidableEq

structure Bracket where
  shape : Bracket.Shape
  opening : Bool
deriving DecidableEq

namespace Bracket

def all : List Bracket :=
  [⟨.round, true⟩, ⟨.round, false⟩, ⟨.square, true⟩, ⟨.square, false⟩, ⟨.curly, true⟩,
    ⟨.curly, false⟩]

def spelling : Bracket → String
  | ⟨.round, true⟩ => "("
  | ⟨.round, false⟩ => ")"
  | ⟨.square, true⟩ => "["
  | ⟨.square, false⟩ => "]"
  | ⟨.curly, true⟩ => "\x7b"
  | ⟨.curly, false⟩ => "\x7d"

def partner (b : Bracket) : Bracket := { b with opening := !b.opening }

theorem mem_all (b : Bracket) : b ∈ all := by
  rcases b with ⟨_ | _ | _, _ | _⟩ <;> decide

@[simp]
theorem partner_partner (b : Bracket) : b.partner.partner = b := by simp [partner]

end Bracket

def Register.brackets : Register Bracket where
  entries := Bracket.all
  spelling := Bracket.spelling
  complete := Bracket.mem_all
  distinct := by decide
  category := .bracket

@[simp]
theorem Register.brackets_category : brackets.category = .bracket := rfl

def Bracket.ofSpelling? (s : String) : Option Bracket := Register.brackets.ofSpelling? s

end Gloss
