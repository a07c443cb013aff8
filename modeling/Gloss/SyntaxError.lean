import Gloss.Token

namespace Gloss

/-- A demand on a token: its kind and, if `text` is given, its exact text. -/
structure Expectation where
  category : Category
  text : Option String
deriving DecidableEq

namespace Expectation

def admits (e : Expectation) (t : Token) : Bool :=
  t.category = e.category && e.text.all (t.text = ·)

def describe (e : Expectation) : String :=
  match e.text with
  | some text => e.category.tag ++ " '" ++ text ++ "'"
  | none => e.category.tag

end Expectation

namespace Register

variable {α : Type} (r : Register α)

def demand (x : α) : Expectation := ⟨r.category, some (r.spelling x)⟩

@[simp]
theorem demand_category (x : α) : (r.demand x).category = r.category := rfl

/-- A token meets the demand for an entry exactly when it spells that entry. -/
theorem admits_demand [DecidableEq α] {t : Token} {x : α} :
    (r.demand x).admits t = r.spells t x := by
  rw [Bool.eq_iff_iff, r.spells_iff]
  simp only [Expectation.admits, demand, Option.all_some, Bool.and_eq_true]
  exact and_congr decide_eq_true_iff decide_eq_true_iff

end Register

namespace Expectation

def ofKeyword (k : Keyword) : Expectation := Register.keywords.demand k

def ofOperator (o : Operator) : Expectation := Register.operators.demand o

def ofBracket (b : Bracket) : Expectation := Register.brackets.demand b

def name : Expectation := ⟨.identifier, none⟩

theorem admits_ofOperator (o : Operator) (t : Token) :
    (ofOperator o).admits t = t.isOperator o :=
  Register.operators.admits_demand

theorem admits_ofBracket (b : Bracket) (t : Token) : (ofBracket b).admits t = t.isBracket b :=
  Register.brackets.admits_demand

end Expectation

inductive Wanted where
  | token (e : Expectation)
  | phrase (text : String)
deriving DecidableEq

def Wanted.describe : Wanted → String
  | .token e => e.describe
  | .phrase text => text

inductive SyntaxError where
  /-- The token does not meet the demand. -/
  | expectedToken (wanted : Expectation) (found : Token)
  /-- The tokens ended where more was wanted. -/
  | endOfInput (wanted : Wanted)
  /-- A reserved word that starts no statement. -/
  | unknownKeyword (found : Token)
  /-- A token that starts no statement. -/
  | unexpectedToken (found : Token)
  /-- After `let`, neither `variable` nor `function`. -/
  | expectedDeclarator (found : Token)
  /-- An assignment to a name that is not declared. -/
  | undeclaredVariable (target : Token)
  /-- A token that starts no operand where one is wanted. -/
  | invalidExpression (found : Token)
deriving DecidableEq

namespace SyntaxError

inductive Kind where
  | expectedToken
  | endOfInput
  | unknownKeyword
  | unexpectedToken
  | expectedDeclarator
  | undeclaredVariable
  | invalidExpression
deriving DecidableEq

def Kind.title : Kind → String
  | expectedToken => "expected token"
  | endOfInput => "unexpected end of input"
  | unknownKeyword => "unknown keyword"
  | unexpectedToken => "unexpected token"
  | expectedDeclarator => "expected declarator"
  | undeclaredVariable => "undeclared variable"
  | invalidExpression => "invalid expression"

def Kind.tag : Kind → String
  | expectedToken => "expected_token"
  | endOfInput => "unexpected_eof"
  | unknownKeyword => "unknown_keyword"
  | unexpectedToken => "unexpected_token"
  | expectedDeclarator => "expected_declarator"
  | undeclaredVariable => "undeclared_variable"
  | invalidExpression => "invalid_expression"

def kind : SyntaxError → Kind
  | expectedToken .. => .expectedToken
  | endOfInput _ => .endOfInput
  | unknownKeyword _ => .unknownKeyword
  | unexpectedToken _ => .unexpectedToken
  | expectedDeclarator _ => .expectedDeclarator
  | undeclaredVariable _ => .undeclaredVariable
  | invalidExpression _ => .invalidExpression

def token? : SyntaxError → Option Token
  | expectedToken _ found => some found
  | endOfInput _ => none
  | unknownKeyword found => some found
  | unexpectedToken found => some found
  | expectedDeclarator found => some found
  | undeclaredVariable target => some target
  | invalidExpression found => some found

/-- What went wrong, in one line. If the kinds differ the message names the kinds, else the
texts. -/
def message : SyntaxError → String
  | expectedToken wanted found =>
    if found.category ≠ wanted.category then
      "Expected " ++ wanted.category.tag ++ ", found " ++ found.category.tag ++ " '" ++ found.text
        ++ "'"
    else
      "Expected '" ++ wanted.text.getD "" ++ "', found '" ++ found.text ++ "'"
  | endOfInput wanted => "Expected " ++ wanted.describe ++ ", but reached end of input"
  | unknownKeyword found => "Unknown keyword '" ++ found.text ++ "'"
  | unexpectedToken found => "Unexpected token '" ++ found.text ++ "'"
  | expectedDeclarator found =>
    "Expected 'variable' or 'function' after 'let', found '" ++ found.text ++ "'"
  | undeclaredVariable target => "Variable '" ++ target.text ++ "' is not declared"
  | invalidExpression found => "Invalid expression: unexpected '" ++ found.text ++ "'"

def statementHint : String :=
  "statements start with 'let', 'if', 'return' or a declared variable name"

def hint? : SyntaxError → Option String
  | unknownKeyword _ | unexpectedToken _ => some statementHint
  | undeclaredVariable target => some ("declare it first with `let variable " ++ target.text ++ "`")
  | invalidExpression _ =>
    some "an expression operand is a literal, a name or a parenthesized expression"
  | expectedToken .. | endOfInput _ | expectedDeclarator _ => none

/-- An error is about no token exactly when it is an end of input. -/
theorem token?_eq_none_iff (e : SyntaxError) : e.token? = none ↔ e.kind = .endOfInput := by
  cases e <;> simp [token?, kind]

end SyntaxError

structure Label where
  offset : Nat
  length : Nat
deriving DecidableEq

def Span.label (s : Span) : Label := ⟨s.start, s.length⟩

structure Diagnostic where
  error : SyntaxError
  hint : Option String
  label : Option Label
deriving DecidableEq

namespace Diagnostic

def code : String := "lumen::syntax"

def labelText : String := "here"

def ofError (e : SyntaxError) : Diagnostic :=
  ⟨e, e.hint?, e.token?.map (·.span.label)⟩

def withHint (d : Diagnostic) (hint : String) : Diagnostic := { d with hint := some hint }

/-- Points an error at the end of input to that end; an error about a token stays there. -/
def withEndOfInput (d : Diagnostic) (offset : Nat) : Diagnostic :=
  if d.error.token? = none then { d with label := some (Span.point offset).label } else d

end Diagnostic
end Gloss
