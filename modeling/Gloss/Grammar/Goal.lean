import Gloss.NameSet
import Gloss.SyntaxError

/-!
A goal is a part of a program that is still to be read:

    program    := statement*
    statement  := 'let' declarator | 'if' '(' expression ')' block ('else' block)?
                | 'return' expression ';'? | NAME '=' expression ';'?
    declarator := 'variable' NAME ('=' expression)? ';'? | 'function' NAME '(' ')' block?
    block      := '{' statement* '}'
    expression := term (('+' | '-') term)*
    term       := factor (('*' | '/') factor)*
    factor     := LITERAL | NAME | '(' expression ')'

One token decides what becomes of a goal: it is read and leaves smaller goals to meet, the goal is
met without it, or the goal cannot be met.
-/
namespace Gloss

inductive Goal where
  /-- Statements up to the end of input. -/
  | statements
  | statement
  /-- Statements up to a closing brace, and the brace. -/
  | restOfBlock
  | token (wanted : Expectation)
  /-- A name, which is declared by it. -/
  | newVariable
  /-- That the name of `target` is declared; no token is read for it. -/
  | declared (target : Token)
  /-- What follows `let`. -/
  | declarator
  /-- An `=` and an expression, or nothing. -/
  | initializer
  /-- A block, or nothing. -/
  | optionalBlock
  /-- An `else` and a block, or nothing. -/
  | alternative
  /-- A `;`, or nothing. -/
  | terminator
  | expression
  | term
  | factor
  /-- Any number of terms, each after a `+` or `-`. -/
  | moreTerms
  /-- Any number of factors, each after a `*` or `/`. -/
  | moreFactors
deriving DecidableEq

namespace Goal

def openParenthesis : Bracket := ⟨.round, true⟩

def closeParenthesis : Bracket := openParenthesis.partner

def openBrace : Bracket := ⟨.curly, true⟩

def closeBrace : Bracket := openBrace.partner

def block : List Goal := [.token (.ofBracket openBrace), .restOfBlock]

/-- What is to be read after the first token of a statement. A name starts an assignment unless it
is the last token of all. -/
def afterFirst (t : Token) (last : Bool) : Except SyntaxError (List Goal) :=
  match t.category with
  | .keyword =>
    match t.keyword? with
    | some .letWord => .ok [.declarator]
    | some .ifWord =>
      .ok ([.token (.ofBracket openParenthesis), .expression, .token (.ofBracket closeParenthesis)]
        ++ block ++ [.alternative])
    | some .returnWord => .ok [.expression, .terminator]
    | _ => .error (.unknownKeyword t)
  | .identifier =>
    if last then .error (.unexpectedToken t)
    else .ok [.declared t, .token (.ofOperator .assign), .expression, .terminator]
  | .operator | .literal | .bracket => .error (.unexpectedToken t)

def afterOperandStart (t : Token) : Except SyntaxError (List Goal) :=
  if !t.startsOperand then .error (.invalidExpression t)
  else if t.isBracket openParenthesis then
    .ok [.expression, .token (.ofBracket closeParenthesis)]
  else .ok []

def bindsAt (level : Operator.Level) (t : Token) : Bool :=
  t.operator?.bind Operator.level? = some level

inductive Reply where
  /-- The token is read; the names are now these, and the goals are to be met next. -/
  | reads (names : NameSet) (next : List Goal)
  /-- The goal is met, and the token left for the next goal. -/
  | leaves
  | fails (error : SyntaxError)

def Reply.ofExcept (names : NameSet) (more : List Goal) : Except SyntaxError (List Goal) → Reply
  | .ok next => .reads names (next ++ more)
  | .error error => .fails error

def Reply.readIf (wanted : Bool) (names : NameSet) (next : List Goal) : Reply :=
  if wanted then .reads names next else .leaves

def offer (names : NameSet) (t : Token) (last : Bool) : Goal → Reply
  | .statements => .ofExcept names [.statements] (afterFirst t last)
  | .statement => .ofExcept names [] (afterFirst t last)
  | .restOfBlock =>
    if t.isBracket closeBrace then .reads names []
    else .ofExcept names [.restOfBlock] (afterFirst t last)
  | .token wanted =>
    if wanted.admits t then .reads names [] else .fails (.expectedToken wanted t)
  -- The name is declared before its initializer is read, so it may occur there.
  | .newVariable =>
    if Expectation.name.admits t then .reads (names.insert t.text) []
    else .fails (.expectedToken .name t)
  | .declared target =>
    if target.text ∈ names then .leaves else .fails (.undeclaredVariable target)
  | .declarator =>
    match t.keyword? with
    | some .variableWord => .reads names [.newVariable, .initializer, .terminator]
    -- The name of a function is only read; it may not be assigned to.
    | some .functionWord =>
      .reads names [.token .name, .token (.ofBracket openParenthesis),
        .token (.ofBracket closeParenthesis), .optionalBlock]
    | _ => .fails (.expectedDeclarator t)
  | .initializer => .readIf (t.isOperator .assign) names [.expression]
  | .optionalBlock => .readIf (t.isBracket openBrace) names [.restOfBlock]
  | .alternative => .readIf (t.isKeyword .elseWord) names block
  | .terminator => .readIf (t.isOperator .semicolon) names []
  | .expression => .ofExcept names [.moreFactors, .moreTerms] (afterOperandStart t)
  | .term => .ofExcept names [.moreFactors] (afterOperandStart t)
  | .factor => .ofExcept names [] (afterOperandStart t)
  | .moreTerms => .readIf (bindsAt .additive t) names [.term, .moreTerms]
  | .moreFactors => .readIf (bindsAt .multiplicative t) names [.factor, .moreFactors]

def missing? (names : NameSet) : Goal → Option SyntaxError
  | .token wanted => some (.endOfInput (.token wanted))
  | .restOfBlock => some (.endOfInput (.token (.ofBracket closeBrace)))
  | .newVariable => some (.endOfInput (.token .name))
  | .statement => some (.endOfInput (.phrase "statement"))
  | .declarator => some (.endOfInput (.phrase "'variable' or 'function' after 'let'"))
  | .expression | .term | .factor => some (.endOfInput (.phrase "expression"))
  | .declared target =>
    if target.text ∈ names then none else some (.undeclaredVariable target)
  | .statements | .initializer | .optionalBlock | .alternative | .terminator | .moreTerms
  | .moreFactors => none

end Goal
end Gloss
