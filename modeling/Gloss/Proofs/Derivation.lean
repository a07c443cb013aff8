import Gloss.NameSet
import Gloss.Token

/-! The grammar by the spellings of its words and signs, with one flat set of declared names
threaded through each derivation from left to right. -/
namespace Gloss

def Token.Spells (t : Token) (c : Category) (text : String) : Prop :=
  t.category = c ∧ t.text = text

inductive ExpressionPart where
  | expression
  | term
  | factor
  /-- Any number of terms, each after a `+` or `-`. -/
  | moreTerms
  /-- Any number of factors, each after a `*` or `/`. -/
  | moreFactors

inductive Phrase where
  /-- Any number of statements. -/
  | program
  | statement
  /-- What follows `let`. -/
  | declarator
  | block
  /-- An `=` and an expression, or nothing. -/
  | initializer
  /-- A block, or nothing. -/
  | body
  /-- An `else` and a block, or nothing. -/
  | alternative
  /-- A `;`, or nothing. -/
  | terminator

/-- Which tokens form a part of an expression. No name has to be declared for it. -/
inductive Forms : ExpressionPart → List Token → Prop
  | literal {t : Token} : t.category = .literal → Forms .factor [t]
  | name {t : Token} : t.category = .identifier → Forms .factor [t]
  | parenthesized {l r : Token} {a : List Token} : l.Spells .bracket "(" → Forms .expression a →
      r.Spells .bracket ")" → Forms .factor (l :: (a ++ [r]))
  | term {a b : List Token} : Forms .factor a → Forms .moreFactors b → Forms .term (a ++ b)
  | noFactors : Forms .moreFactors []
  | moreFactors {t : Token} {a b : List Token} :
      t.Spells .operator "*" ∨ t.Spells .operator "/" → Forms .factor a → Forms .moreFactors b →
      Forms .moreFactors (t :: (a ++ b))
  | expression {a b : List Token} : Forms .term a → Forms .moreTerms b → Forms .expression (a ++ b)
  | noTerms : Forms .moreTerms []
  | moreTerms {t : Token} {a b : List Token} :
      t.Spells .operator "+" ∨ t.Spells .operator "-" → Forms .term a → Forms .moreTerms b →
      Forms .moreTerms (t :: (a ++ b))

/-- Which tokens derive a part of a program, from the names declared before it to those declared
after it. A variable is declared ahead of its initializer, a function is not declared, and a block
adds to the names of what surrounds it. -/
inductive Derives : Phrase → NameSet → List Token → NameSet → Prop
  | noStatements {s : NameSet} : Derives .program s [] s
  | statements {s s₁ s₂ : NameSet} {a b : List Token} : Derives .statement s a s₁ →
      Derives .program s₁ b s₂ → Derives .program s (a ++ b) s₂
  | declaration {s s₁ : NameSet} {t : Token} {a : List Token} : t.Spells .keyword "let" →
      Derives .declarator s a s₁ → Derives .statement s (t :: a) s₁
  | conditional {s s₁ s₂ : NameSet} {t l r : Token} {a b c : List Token} :
      t.Spells .keyword "if" → l.Spells .bracket "(" → Forms .expression a →
      r.Spells .bracket ")" → Derives .block s b s₁ → Derives .alternative s₁ c s₂ →
      Derives .statement s (t :: l :: (a ++ r :: (b ++ c))) s₂
  | returns {s s₁ : NameSet} {t : Token} {a b : List Token} : t.Spells .keyword "return" →
      Forms .expression a → Derives .terminator s b s₁ → Derives .statement s (t :: (a ++ b)) s₁
  | assignment {s s₁ : NameSet} {t u : Token} {a b : List Token} : t.category = .identifier →
      t.text ∈ s → u.Spells .operator "=" → Forms .expression a → Derives .terminator s b s₁ →
      Derives .statement s (t :: u :: (a ++ b)) s₁
  | letVariable {s s₁ s₂ : NameSet} {t u : Token} {a b : List Token} :
      t.Spells .keyword "variable" → u.category = .identifier →
      Derives .initializer (s.insert u.text) a s₁ → Derives .terminator s₁ b s₂ →
      Derives .declarator s (t :: u :: (a ++ b)) s₂
  | letFunction {s s₁ : NameSet} {t u l r : Token} {a : List Token} :
      t.Spells .keyword "function" → u.category = .identifier → l.Spells .bracket "(" →
      r.Spells .bracket ")" → Derives .body s a s₁ →
      Derives .declarator s (t :: u :: l :: r :: a) s₁
  | block {s s₁ : NameSet} {l r : Token} {a : List Token} : l.Spells .bracket "\x7b" →
      Derives .program s a s₁ → r.Spells .bracket "\x7d" → Derives .block s (l :: (a ++ [r])) s₁
  | noInitializer {s : NameSet} : Derives .initializer s [] s
  | initializer {s : NameSet} {t : Token} {a : List Token} : t.Spells .operator "=" →
      Forms .expression a → Derives .initializer s (t :: a) s
  | noBody {s : NameSet} : Derives .body s [] s
  | body {s s₁ : NameSet} {a : List Token} : Derives .block s a s₁ → Derives .body s a s₁
  | noAlternative {s : NameSet} : Derives .alternative s [] s
  | alternative {s s₁ : NameSet} {t : Token} {a : List Token} : t.Spells .keyword "else" →
      Derives .block s a s₁ → Derives .alternative s (t :: a) s₁
  | noTerminator {s : NameSet} : Derives .terminator s [] s
  | terminator {s : NameSet} {t : Token} : t.Spells .operator ";" → Derives .terminator s [t] s

end Gloss
