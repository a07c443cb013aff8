import Gloss.Category

namespace Gloss

inductive Keyword where
  | ifWord
  | elseWord
  | returnWord
  | forWord
  | whileWord
  | letWord
  | variableWord
  | functionWord
  | constWord
  | varWord
  | classWord
deriving DecidableEq

namespace Keyword

inductive Family where
  | controlFlow
  | loop
  | declaration
deriving DecidableEq

inductive Usage where
  /-- Starts a statement. -/
  | statement
  /-- Follows `let` and says what is declared. -/
  | declarator
  /-- Continues a statement after a block. -/
  | clause
  /-- Has no place in the grammar yet. -/
  | reserved
deriving DecidableEq

/-- All reserved words, in the order in which a scan tries them. -/
def all : List Keyword :=
  [.ifWord, .elseWord, .returnWord, .forWord, .whileWord, .letWord, .variableWord, .functionWord,
    .constWord, .varWord, .classWord]

def spelling : Keyword → String
  | .ifWord => "if"
  | .elseWord => "else"
  | .returnWord => "return"
  | .forWord => "for"
  | .whileWord => "while"
  | .letWord => "let"
  | .variableWord => "variable"
  | .functionWord => "function"
  | .constWord => "const"
  | .varWord => "var"
  | .classWord => "class"

def family : Keyword → Family
  | .ifWord | .elseWord | .returnWord => .controlFlow
  | .forWord | .whileWord => .loop
  | .letWord | .variableWord | .functionWord | .constWord | .varWord | .classWord => .declaration

def usage : Keyword → Usage
  | .ifWord | .returnWord | .letWord => .statement
  | .elseWord => .clause
  | .variableWord | .functionWord => .declarator
  | .forWord | .whileWord | .constWord | .varWord | .classWord => .reserved

theorem mem_all (k : Keyword) : k ∈ all := by cases k <;> decide

end Keyword

def Register.keywords : Register Keyword where
  entries := Keyword.all
  spelling := Keyword.spelling
  complete := Keyword.mem_all
  distinct := by decide
  category := .keyword

@[simp]
theorem Register.keywords_category : keywords.category = .keyword := rfl

def Keyword.ofSpelling? (s : String) : Option Keyword := Register.keywords.ofSpelling? s

theorem Keyword.ofSpelling?_eq_some_iff {s : String} {k : Keyword} :
    ofSpelling? s = some k ↔ s = k.spelling :=
  Register.keywords.ofSpelling?_eq_some_iff

end Gloss
