import Gloss.Grammar.Parse
import Gloss.Proofs.Derivation

namespace Gloss

def Stops (p : Token → Bool) (ts : List Token) : Prop := ∀ t ∈ ts.head?, p t = false

section Stops

variable {p q : Token → Bool} {t : Token} {ts : List Token}

theorem stops_cons : Stops p (t :: ts) ↔ p t = false := by simp [Stops]

theorem Stops.mono (h : Stops p ts) (hq : ∀ t, p t = false → q t = false) : Stops q ts :=
  fun t ht => hq t (h t ht)

end Stops

namespace Token

variable {t : Token}

theorem keyword?_eq_some_iff {k : Keyword} :
    t.keyword? = some k ↔ t.Spells .keyword k.spelling :=
  Register.keywords.find?_eq_some_iff

theorem operator?_eq_some_iff {o : Operator} :
    t.operator? = some o ↔ t.Spells .operator o.spelling :=
  Register.operators.find?_eq_some_iff

theorem bracket?_eq_some_iff {b : Bracket} :
    t.bracket? = some b ↔ t.Spells .bracket b.spelling :=
  Register.brackets.find?_eq_some_iff

theorem keyword?_of_category (h : t.category ≠ .keyword) : t.keyword? = none :=
  Register.keywords.find?_of_category h

theorem operator?_of_category (h : t.category ≠ .operator) : t.operator? = none :=
  Register.operators.find?_of_category h

theorem bracket?_of_category (h : t.category ≠ .bracket) : t.bracket? = none :=
  Register.brackets.find?_of_category h

theorem isBracket_of_category {b : Bracket} (h : t.category ≠ .bracket) :
    t.isBracket b = false :=
  Register.brackets.spells_of_category h

/-- The level of an operator token, by the signs of that level. -/
theorem bindsAt_additive_iff : Goal.bindsAt .additive t ↔
    t.Spells .operator "+" ∨ t.Spells .operator "-" := by
  have hp := t.operator?_eq_some_iff (o := .plus)
  have hm := t.operator?_eq_some_iff (o := .minus)
  simp only [Operator.spelling] at hp hm
  rw [← hp, ← hm, Goal.bindsAt, decide_eq_true_eq]
  cases t.operator? with
  | none => simp
  | some o => cases o <;> simp [Operator.level?]

theorem bindsAt_multiplicative_iff : Goal.bindsAt .multiplicative t ↔
    t.Spells .operator "*" ∨ t.Spells .operator "/" := by
  have hs := t.operator?_eq_some_iff (o := .star)
  have hd := t.operator?_eq_some_iff (o := .slash)
  simp only [Operator.spelling] at hs hd
  rw [← hs, ← hd, Goal.bindsAt, decide_eq_true_eq]
  cases t.operator? with
  | none => simp
  | some o => cases o <;> simp [Operator.level?]

end Token

theorem Expectation.admits_name {t : Token} :
    Expectation.name.admits t ↔ t.category = .identifier := by
  simp only [Expectation.admits, Expectation.name, Option.all_none, Bool.and_true]
  exact decide_eq_true_iff

namespace Goal

variable {g : Goal} {gs n : List Goal} {s s₁ : NameSet} {t : Token} {ts : List Token}

theorem ofExcept_eq_reads_iff {more : List Goal} {x : Except SyntaxError (List Goal)} :
    Reply.ofExcept s more x = .reads s₁ n ↔ ∃ m, x = .ok m ∧ s₁ = s ∧ n = m ++ more := by
  cases x with
  | ok m => simp [Reply.ofExcept, eq_comm]
  | error e => simp [Reply.ofExcept]

theorem ofExcept_eq_fails_iff {more : List Goal} {x : Except SyntaxError (List Goal)}
    {e : SyntaxError} : Reply.ofExcept s more x = .fails e ↔ x = .error e := by
  cases x with
  | ok m => simp [Reply.ofExcept]
  | error e => simp [Reply.ofExcept]

theorem ofExcept_ne_leaves {more : List Goal} {x : Except SyntaxError (List Goal)} :
    Reply.ofExcept s more x ≠ .leaves := by
  cases x <;> exact nofun

theorem readIf_eq_reads_iff {wanted : Bool} {m : List Goal} :
    Reply.readIf wanted s m = .reads s₁ n ↔ wanted ∧ s₁ = s ∧ n = m := by
  cases wanted <;> simp [Reply.readIf, eq_comm]

theorem meet_reads (h : g.offer s t ts.isEmpty = .reads s₁ n) :
    meet (g :: gs) s (t :: ts) = meet (n ++ gs) s₁ ts := by
  rw [meet, offerAll, h]

theorem meet_leaves (h : g.offer s t ts.isEmpty = .leaves) :
    meet (g :: gs) s (t :: ts) = meet gs s (t :: ts) := by
  rw [meet, meet, offerAll, h]

theorem meet_fails {e : SyntaxError} (h : g.offer s t ts.isEmpty = .fails e) :
    meet (g :: gs) s (t :: ts) = ⟨⟨t :: ts, s⟩, some e⟩ := by
  rw [meet, offerAll, h]

/-- Two goals that ask the same of a token, and then leave the same goals, are met alike. -/
theorem meet_congr {h : Goal} {hs more more' : List Goal} {x : Except SyntaxError (List Goal)}
    (hg : g.offer s t ts.isEmpty = .ofExcept s more x)
    (hh : h.offer s t ts.isEmpty = .ofExcept s more' x) (hm : more ++ gs = more' ++ hs) :
    meet (g :: gs) s (t :: ts) = meet (h :: hs) s (t :: ts) := by
  cases x with
  | ok n => rw [meet_reads hg, meet_reads hh, List.append_assoc, List.append_assoc, hm]
  | error e => rw [meet_fails hg, meet_fails hh]

theorem meet_end (h : g.missing? s = none) : meet (g :: gs) s [] = meet gs s [] := by
  rw [meet, meet, List.findSome?_cons, h]

/-- A goal that may be met by nothing reads a token that it wants. -/
theorem meet_wanted {wants : Token → Bool}
    (h : ∀ t last, g.offer s t last = .readIf (wants t) s n) (ht : wants t) :
    meet (g :: gs) s (t :: ts) = meet (n ++ gs) s ts :=
  meet_reads (by rw [h, ht]; rfl)

/-- A goal that may be met by nothing is so where the tokens end or the next one is not wanted. -/
theorem meet_unwanted {wants : Token → Bool}
    (h : ∀ t last, g.offer s t last = .readIf (wants t) s n) (hend : g.missing? s = none)
    (hts : Stops wants ts) : meet (g :: gs) s ts = meet gs s ts := by
  cases ts with
  | nil => exact meet_end hend
  | cons t ts => exact meet_leaves (by rw [h, stops_cons.mp hts]; rfl)

theorem meet_term : meet (.term :: gs) s ts = meet (.factor :: .moreFactors :: gs) s ts := by
  cases ts with
  | nil => rfl
  | cons t ts => exact meet_congr rfl rfl rfl

/-- The first token does not tell an expression from its first term. -/
theorem meet_expression :
    meet (.expression :: gs) s ts = meet (.term :: .moreTerms :: gs) s ts := by
  cases ts with
  | nil => rfl
  | cons t ts => exact meet_congr rfl rfl rfl

/-- In front of a token, statements are one statement and the others. -/
theorem meet_statements :
    meet (.statements :: gs) s (t :: ts) = meet (.statement :: .statements :: gs) s (t :: ts) :=
  meet_congr rfl rfl rfl

theorem meet_restOfBlock (h : t.isBracket closeBrace = false) :
    meet (.restOfBlock :: gs) s (t :: ts) = meet (.statement :: .restOfBlock :: gs) s (t :: ts) :=
  meet_congr (by rw [offer, h]; rfl) rfl rfl

theorem meet_token {wanted : Expectation} (h : wanted.admits t) :
    meet (.token wanted :: gs) s (t :: ts) = meet gs s ts :=
  meet_reads (n := []) (by rw [offer, if_pos h])

/-- An operand that is a literal or a name ends with its first token. -/
theorem afterOperandStart_leaf (h : t.category = .literal ∨ t.category = .identifier) :
    afterOperandStart t = .ok [] := by
  have hb : t.isBracket openParenthesis = false :=
    Token.isBracket_of_category (by rcases h with h | h <;> simp [h])
  rcases h with h | h <;> simp [afterOperandStart, Token.startsOperand, hb, h]

theorem afterOperandStart_parenthesis (h : t.Spells .bracket "(") :
    afterOperandStart t = .ok [.expression, .token (.ofBracket closeParenthesis)] := by
  have hb : t.isBracket openParenthesis = true := (t.isBracket_iff _).mpr h
  have hs : t.startsOperand = true := Bool.or_eq_true_iff.mpr (Or.inr hb)
  rw [afterOperandStart, if_pos hb, hs]
  rfl

/-- The first token of an operand is one of these two. -/
theorem of_afterOperandStart (h : afterOperandStart t = .ok n) :
    ((t.category = .literal ∨ t.category = .identifier) ∧ n = []) ∨
    (t.Spells .bracket "(" ∧ n = [.expression, .token (.ofBracket closeParenthesis)]) := by
  by_cases hb : t.Spells .bracket "("
  · rw [afterOperandStart_parenthesis hb] at h
    exact Or.inr ⟨hb, (Except.ok.inj h).symm⟩
  · have hn : t.isBracket openParenthesis = false :=
      Bool.eq_false_iff.mpr fun ht => hb ((t.isBracket_iff _).mp ht)
    by_cases hl : t.category = .literal ∨ t.category = .identifier
    · rw [afterOperandStart_leaf hl] at h
      exact Or.inl ⟨hl, (Except.ok.inj h).symm⟩
    · rw [not_or] at hl
      have hs : t.startsOperand = false := by
        simp [Token.startsOperand, hl, show t.isBracket ⟨.round, true⟩ = false from hn]
      rw [afterOperandStart, hs] at h
      cases h

theorem afterFirst_let (h : t.Spells .keyword "let") (last : Bool) :
    afterFirst t last = .ok [.declarator] := by
  have hk : t.keyword? = some .letWord := Token.keyword?_eq_some_iff.mpr h
  simp only [afterFirst, h.1, hk]

theorem afterFirst_if (h : t.Spells .keyword "if") (last : Bool) :
    afterFirst t last = .ok ([.token (.ofBracket openParenthesis), .expression,
      .token (.ofBracket closeParenthesis)] ++ block ++ [.alternative]) := by
  have hk : t.keyword? = some .ifWord := Token.keyword?_eq_some_iff.mpr h
  simp only [afterFirst, h.1, hk]

theorem afterFirst_return (h : t.Spells .keyword "return") (last : Bool) :
    afterFirst t last = .ok [.expression, .terminator] := by
  have hk : t.keyword? = some .returnWord := Token.keyword?_eq_some_iff.mpr h
  simp only [afterFirst, h.1, hk]

theorem afterFirst_name (h : t.category = .identifier) :
    afterFirst t false =
      .ok [.declared t, .token (.ofOperator .assign), .expression, .terminator] := by
  simp [afterFirst, h]

/-- The first token of a statement is one of these four. -/
theorem of_afterFirst {last : Bool} (h : afterFirst t last = .ok n) :
    (t.Spells .keyword "let" ∧ n = [.declarator]) ∨
    (t.Spells .keyword "if" ∧ n = [.token (.ofBracket openParenthesis), .expression,
      .token (.ofBracket closeParenthesis)] ++ block ++ [.alternative]) ∨
    (t.Spells .keyword "return" ∧ n = [.expression, .terminator]) ∨
    (t.category = .identifier ∧ last = false ∧
      n = [.declared t, .token (.ofOperator .assign), .expression, .terminator]) := by
  unfold afterFirst at h
  split at h
  · split at h
    case h_1 hk => exact Or.inl ⟨Token.keyword?_eq_some_iff.mp hk, (Except.ok.inj h).symm⟩
    case h_2 hk =>
      exact Or.inr (Or.inl ⟨Token.keyword?_eq_some_iff.mp hk, (Except.ok.inj h).symm⟩)
    case h_3 hk =>
      exact Or.inr (Or.inr (Or.inl ⟨Token.keyword?_eq_some_iff.mp hk, (Except.ok.inj h).symm⟩))
    case h_4 => cases h
  · next hc =>
    cases last with
    | true => cases h
    | false => exact Or.inr (Or.inr (Or.inr ⟨hc, rfl, (Except.ok.inj h).symm⟩))
  all_goals cases h

end Goal
end Gloss
