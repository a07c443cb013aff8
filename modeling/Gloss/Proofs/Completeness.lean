import Gloss.Proofs.Machine

/-! No token that starts a statement or closes a block can continue a statement, so an optional tail
is never mistaken for what comes next. -/
namespace Gloss

namespace Token

variable {t : Token} {k : Keyword} {o : Operator} {b : Bracket}

def binds (t : Token) : Bool := Goal.bindsAt .additive t || Goal.bindsAt .multiplicative t

/-- Whether a token may continue a statement that could end before it. -/
def continuesStatement (t : Token) : Bool :=
  t.isOperator .assign || t.isOperator .semicolon || t.binds || t.isBracket Goal.openBrace ||
    t.isKeyword .elseWord

theorem continuesStatement_of_category (hk : t.category ≠ .keyword) (ho : t.category ≠ .operator)
    (hb : t.category ≠ .bracket) : t.continuesStatement = false := by
  simp [continuesStatement, binds, Goal.bindsAt, isOperator_eq, isKeyword_eq, isBracket_eq,
    keyword?_of_category hk, operator?_of_category ho, bracket?_of_category hb]

theorem continuesStatement_of_keyword (h : t.Spells .keyword k.spelling) (hk : k ≠ .elseWord) :
    t.continuesStatement = false := by
  have ho : t.category ≠ .operator := by simp [h.1]
  have hb : t.category ≠ .bracket := by simp [h.1]
  simp [continuesStatement, binds, Goal.bindsAt, isOperator_eq, isKeyword_eq, isBracket_eq,
    keyword?_eq_some_iff.mpr h, operator?_of_category ho, bracket?_of_category hb, hk]

theorem continuesStatement_of_bracket (h : t.Spells .bracket b.spelling)
    (hb : b ≠ Goal.openBrace) : t.continuesStatement = false := by
  have hk : t.category ≠ .keyword := by simp [h.1]
  have ho : t.category ≠ .operator := by simp [h.1]
  simp [continuesStatement, binds, Goal.bindsAt, isOperator_eq, isKeyword_eq, isBracket_eq,
    bracket?_eq_some_iff.mpr h, keyword?_of_category hk, operator?_of_category ho, hb]

theorem binds_of_not_continuesStatement (h : t.continuesStatement = false) : t.binds = false := by
  simp only [continuesStatement, Bool.or_eq_false_iff] at h
  exact h.1.1.2

theorem binds_of_category (h : t.category ≠ .operator) : t.binds = false := by
  simp [binds, Goal.bindsAt, operator?_of_category h]

theorem binds_of_operator (h : t.Spells .operator o.spelling) (ho : o.level? = none) :
    t.binds = false := by
  simp [binds, Goal.bindsAt, operator?_eq_some_iff.mpr h, ho]

end Token

namespace ExpressionPart

def goal : ExpressionPart → Goal
  | expression => .expression
  | term => .term
  | factor => .factor
  | moreTerms => .moreTerms
  | moreFactors => .moreFactors

def continuedBy : ExpressionPart → Token → Bool
  | expression | moreTerms => Token.binds
  | term | moreFactors => Goal.bindsAt .multiplicative
  | factor => fun _ => false

end ExpressionPart

namespace Goal

theorem stops_multiplicative {b c : List Token} (hb : Forms .moreTerms b)
    (hc : Stops Token.binds c) : Stops (bindsAt .multiplicative) (b ++ c) := by
  cases hb with
  | noTerms => exact hc.mono fun t ht => (Bool.or_eq_false_iff.mp ht).2
  | moreTerms ht _ _ =>
    refine stops_cons.mpr ?_
    have ha := Token.bindsAt_additive_iff.mpr ht
    simp only [bindsAt, decide_eq_true_eq] at ha
    simp [bindsAt, ha]

/-- An expression is read to its end, and no further. -/
theorem meet_forms {x : ExpressionPart} {a : List Token} (h : Forms x a) (gs : List Goal)
    (s : NameSet) {b : List Token} (hb : Stops x.continuedBy b) :
    meet (x.goal :: gs) s (a ++ b) = meet gs s b := by
  -- A part ends where no sign of its own level follows.
  induction h generalizing gs b with
  | @literal t ht =>
    exact meet_reads (n := []) (by
      rw [ExpressionPart.goal, offer, afterOperandStart_leaf (Or.inl ht)]; rfl)
  | @name t ht =>
    exact meet_reads (n := []) (by
      rw [ExpressionPart.goal, offer, afterOperandStart_leaf (Or.inr ht)]; rfl)
  | @parenthesized l r a hl _ hr ih =>
    have hread (last : Bool) : Goal.factor.offer s l last =
        .reads s [.expression, .token (.ofBracket closeParenthesis)] := by
      rw [offer, afterOperandStart_parenthesis hl]; rfl
    have hclose : (Expectation.ofBracket closeParenthesis).admits r = true := by
      rw [Expectation.admits_ofBracket]
      exact (r.isBracket_iff _).mpr hr
    have hstop : Stops Token.binds (r :: b) :=
      stops_cons.mpr (Token.binds_of_category (by simp [hr.1]))
    simp only [List.cons_append, List.append_assoc, List.nil_append, ExpressionPart.goal]
    rw [meet_reads (hread _)]
    exact (ih _ hstop).trans (meet_token hclose)
  | @term a b' _ _ iha ihb =>
    -- Nothing continues a factor, so the factors behind it may begin with anything.
    simp only [ExpressionPart.goal, List.append_assoc] at *
    rw [meet_term, iha _ (fun _ _ => rfl), ihb _ hb]
  | noFactors => exact meet_unwanted (fun _ _ => rfl) rfl hb
  | @moreFactors t a b' ht _ _ iha ihb =>
    simp only [ExpressionPart.goal, List.cons_append, List.append_assoc] at *
    rw [meet_wanted (fun _ _ => rfl) (Token.bindsAt_multiplicative_iff.mpr ht)]
    exact (iha _ (fun _ _ => rfl)).trans (ihb _ hb)
  | @expression a b' _ hb' iha ihb =>
    simp only [ExpressionPart.goal, List.append_assoc] at *
    rw [meet_expression, iha _ (stops_multiplicative hb' hb), ihb _ hb]
  | noTerms =>
    exact meet_unwanted (fun _ _ => rfl) rfl (hb.mono fun t ht => (Bool.or_eq_false_iff.mp ht).1)
  | @moreTerms t a b' ht _ hb' iha ihb =>
    simp only [ExpressionPart.goal, List.cons_append, List.append_assoc] at *
    rw [meet_wanted (fun _ _ => rfl) (Token.bindsAt_additive_iff.mpr ht)]
    exact (iha _ (stops_multiplicative hb' hb)).trans (ihb _ hb)

end Goal

namespace Phrase

def continuedBy : Phrase → Token → Bool
  | program | statement | declarator => Token.continuesStatement
  | initializer => fun t => t.isOperator .assign || t.binds
  | body => fun t => t.isBracket Goal.openBrace
  | alternative => fun t => t.isKeyword .elseWord
  | terminator => fun t => t.isOperator .semicolon
  | block => fun _ => false

/-- That goals which ask for this part are met by `a`, and that what follows is left to the goals
behind them. Statements are asked for by a goal that stays. -/
def Meets (x : Phrase) (s : NameSet) (a : List Token) (s₁ : NameSet) (gs : List Goal)
    (b : List Token) : Prop :=
  match x with
  | program => ∀ loop, loop = .statements ∨ loop = .restOfBlock →
      Goal.meet (loop :: gs) s (a ++ b) = Goal.meet (loop :: gs) s₁ b
  | statement => Goal.meet (.statement :: gs) s (a ++ b) = Goal.meet gs s₁ b
  | declarator => Goal.meet (.declarator :: gs) s (a ++ b) = Goal.meet gs s₁ b
  | block => Goal.meet (Goal.block ++ gs) s (a ++ b) = Goal.meet gs s₁ b
  | initializer => Goal.meet (.initializer :: gs) s (a ++ b) = Goal.meet gs s₁ b
  | body => Goal.meet (.optionalBlock :: gs) s (a ++ b) = Goal.meet gs s₁ b
  | alternative => Goal.meet (.alternative :: gs) s (a ++ b) = Goal.meet gs s₁ b
  | terminator => Goal.meet (.terminator :: gs) s (a ++ b) = Goal.meet gs s₁ b

end Phrase

section Stops

variable {s s₁ : NameSet} {a b : List Token} {t : Token}

/-- The first token of a statement neither continues a statement nor closes a block. -/
theorem Derives.exists_head (h : Derives .statement s a s₁) : ∃ t a', a = t :: a' ∧
    t.continuesStatement = false ∧ t.isBracket Goal.closeBrace = false := by
  have hword (t : Token) (k : Keyword) (ht : t.Spells .keyword k.spelling) (hk : k ≠ .elseWord) :
      t.continuesStatement = false ∧ t.isBracket Goal.closeBrace = false :=
    ⟨Token.continuesStatement_of_keyword ht hk, Token.isBracket_of_category (by simp [ht.1])⟩
  cases h with
  | declaration ht _ => exact ⟨_, _, rfl, hword _ .letWord ht (by decide)⟩
  | conditional ht _ _ _ _ _ => exact ⟨_, _, rfl, hword _ .ifWord ht (by decide)⟩
  | returns ht _ _ => exact ⟨_, _, rfl, hword _ .returnWord ht (by decide)⟩
  | @assignment _ _ t _ _ _ ht _ _ _ _ =>
    refine ⟨_, _, rfl, ?_, ?_⟩
    · exact Token.continuesStatement_of_category (by simp [ht]) (by simp [ht]) (by simp [ht])
    · exact Token.isBracket_of_category (by simp [ht])

/-- No statement begins with a token that could continue the one before it. -/
theorem Derives.stops_program (h : Derives .program s a s₁)
    (hb : Stops Token.continuesStatement b) : Stops Token.continuesStatement (a ++ b) := by
  cases h with
  | noStatements => exact hb
  | statements h _ =>
    obtain ⟨t, a', rfl, ht, _⟩ := h.exists_head
    exact stops_cons.mpr ht

theorem Derives.stops_terminator (h : Derives .terminator s a s₁)
    (hb : Stops Token.continuesStatement b) : Stops Phrase.initializer.continuedBy (a ++ b) := by
  cases h with
  | noTerminator =>
    refine hb.mono fun t ht => ?_
    have hbind := Token.binds_of_not_continuesStatement ht
    simp only [Token.continuesStatement, Bool.or_eq_false_iff] at ht
    exact Bool.or_eq_false_iff.mpr ⟨ht.1.1.1.1, hbind⟩
  | @terminator _ t ht =>
    have ho : t.operator? = some .semicolon := Token.operator?_eq_some_iff.mpr ht
    exact stops_cons.mpr (Bool.or_eq_false_iff.mpr
      ⟨by simp [Token.isOperator_eq, ho], Token.binds_of_operator (o := .semicolon) ht rfl⟩)

/-- Where a statement stops, each of its optional tails stops as well. -/
theorem Stops.tails (h : Stops Token.continuesStatement b) :
    Stops Phrase.terminator.continuedBy b ∧ Stops Phrase.body.continuedBy b ∧
      Stops Phrase.alternative.continuedBy b := by
  refine ⟨h.mono fun t ht => ?_, h.mono fun t ht => ?_, h.mono fun t ht => ?_⟩ <;>
    simp only [Token.continuesStatement, Bool.or_eq_false_iff] at ht
  · exact ht.1.1.1.2
  · exact ht.1.2
  · exact ht.2

theorem stops_binds (h : Stops Phrase.initializer.continuedBy b) : Stops Token.binds b :=
  h.mono fun _ ht => (Bool.or_eq_false_iff.mp ht).2

end Stops

namespace Goal

variable {s s₁ : NameSet} {a b : List Token} {t : Token} {ts : List Token} {gs : List Goal}

/-- A token that spells an entry is read where the entry is demanded. -/
theorem meet_demand {α : Type} [DecidableEq α] {r : Register α} {x : α}
    (h : t.Spells r.category (r.spelling x)) :
    meet (.token (r.demand x) :: gs) s (t :: ts) = meet gs s ts :=
  meet_token (r.admits_demand.trans (r.spells_iff.mpr h))

theorem meet_bracket {k : Bracket} (h : t.Spells .bracket k.spelling) :
    meet (.token (.ofBracket k) :: gs) s (t :: ts) = meet gs s ts :=
  meet_demand h

theorem meet_operator {o : Operator} (h : t.Spells .operator o.spelling) :
    meet (.token (.ofOperator o) :: gs) s (t :: ts) = meet gs s ts :=
  meet_demand h

theorem meet_name (h : t.category = .identifier) :
    meet (.token .name :: gs) s (t :: ts) = meet gs s ts :=
  meet_token (Expectation.admits_name.mpr h)

theorem meet_newVariable (h : t.category = .identifier) :
    meet (.newVariable :: gs) s (t :: ts) = meet gs (s.insert t.text) ts :=
  meet_reads (n := []) (by rw [offer, if_pos (Expectation.admits_name.mpr h)])

theorem meet_declared (h : t.text ∈ s) : meet (.declared t :: gs) s ts = meet gs s ts := by
  cases ts with
  | nil => exact meet_end (if_pos h)
  | cons u ts => exact meet_leaves (if_pos h)

/-- A goal that asks for an optional block, and finds its brace, asks for the block. -/
theorem meet_optionalBlock (h : t.Spells .bracket "\x7b") :
    meet (.optionalBlock :: gs) s (t :: ts) = meet (block ++ gs) s (t :: ts) := by
  have hb : t.isBracket openBrace = true := (t.isBracket_iff _).mpr h
  rw [meet_wanted (fun _ _ => rfl) hb]
  exact (meet_bracket h).symm

/-- The parts of a program are read to their ends, and no further. -/
theorem meets_of_derives {x : Phrase} (h : Derives x s a s₁) (gs : List Goal)
    (hb : Stops x.continuedBy b) : x.Meets s a s₁ gs b := by
  -- Each part is met token by token; what may stop it is known from what follows it in its rule.
  induction h generalizing gs b with
  | noStatements => exact fun _ _ => rfl
  | @statements s s₁ s₂ a a' ha ha' iha iha' =>
    -- Either loop asks for one statement and stays behind it.
    intro loop hloop
    obtain ⟨t, rest, rfl, ht, hclose⟩ := ha.exists_head
    have hsplit : meet (loop :: gs) s (t :: rest ++ a' ++ b) =
        meet (.statement :: loop :: gs) s (t :: rest ++ (a' ++ b)) := by
      rw [List.append_assoc]
      rcases hloop with rfl | rfl
      · exact meet_statements
      · exact meet_restOfBlock hclose
    rw [hsplit, iha (loop :: gs) (ha'.stops_program hb), iha' gs hb loop hloop]
  | declaration ht _ ih =>
    exact (meet_reads (n := [.declarator]) (by rw [offer, afterFirst_let ht]; rfl)).trans
      (ih gs hb)
  | @conditional s s₁ s₂ t l r a a' c ht hl ha hr _ _ iha' ihc =>
    -- The closing parenthesis stops the condition, and a block ends with its own brace.
    have hstop : Stops Token.binds (r :: (a' ++ (c ++ b))) :=
      stops_cons.mpr (Token.binds_of_category (by simp [hr.1]))
    simp only [Phrase.Meets, List.cons_append, List.append_assoc]
    rw [meet_reads (by rw [offer, afterFirst_if ht]; rfl)]
    refine (meet_bracket hl).trans ((meet_forms ha _ _ hstop).trans ((meet_bracket hr).trans ?_))
    exact (iha' _ (fun _ _ => rfl)).trans (ihc _ (Stops.tails hb).2.2)
  | @returns s s₁ t a c ht ha hc ihc =>
    have hstop := stops_binds (hc.stops_terminator hb)
    simp only [Phrase.Meets, List.cons_append, List.append_assoc]
    rw [meet_reads (by rw [offer, afterFirst_return ht]; rfl)]
    exact (meet_forms ha _ _ hstop).trans (ihc _ (Stops.tails hb).1)
  | @assignment s s₁ t u a c ht hdecl hu ha hc ihc =>
    have hstop := stops_binds (hc.stops_terminator hb)
    simp only [Phrase.Meets, List.cons_append, List.append_assoc]
    rw [meet_reads (by rw [offer, List.isEmpty_cons, afterFirst_name ht]; rfl)]
    refine (meet_declared hdecl).trans ((meet_operator (o := .assign) hu).trans ?_)
    exact (meet_forms ha _ _ hstop).trans (ihc _ (Stops.tails hb).1)
  | @letVariable s s₁ s₂ t u a c ht hu _ hc iha ihc =>
    have hk : t.keyword? = some .variableWord := Token.keyword?_eq_some_iff.mpr ht
    simp only [Phrase.Meets, List.cons_append, List.append_assoc]
    rw [meet_reads (by rw [offer, hk])]
    refine (meet_newVariable hu).trans ?_
    exact (iha _ (hc.stops_terminator hb)).trans (ihc _ (Stops.tails hb).1)
  | @letFunction s s₁ t u l r a ht hu hl hr _ ih =>
    have hk : t.keyword? = some .functionWord := Token.keyword?_eq_some_iff.mpr ht
    simp only [Phrase.Meets, List.cons_append]
    rw [meet_reads (by rw [offer, hk])]
    refine (meet_name hu).trans ((meet_bracket hl).trans ((meet_bracket hr).trans ?_))
    exact ih _ (Stops.tails hb).2.1
  | @block s s₁ l r a hl _ hr ih =>
    -- The closing brace starts no statement: it is what the loop of the block waits for.
    have hclose : r.isBracket closeBrace = true := (r.isBracket_iff _).mpr hr
    have hstop : Stops Token.continuesStatement (r :: b) := stops_cons.mpr
      (Token.continuesStatement_of_bracket (b := closeBrace) hr (by decide))
    simp only [Phrase.Meets, List.cons_append, List.append_assoc, List.nil_append]
    refine (meet_bracket hl).trans ((ih _ hstop _ (Or.inr rfl)).trans ?_)
    exact meet_reads (n := []) (by rw [offer, if_pos hclose])
  | noInitializer =>
    exact meet_unwanted (fun _ _ => rfl) rfl (hb.mono fun t ht => (Bool.or_eq_false_iff.mp ht).1)
  | initializer ht ha =>
    have hassign := (Token.isOperator_iff _ .assign).mpr ht
    exact (meet_wanted (fun _ _ => rfl) hassign).trans (meet_forms ha _ _ (stops_binds hb))
  | noBody => exact meet_unwanted (fun _ _ => rfl) rfl hb
  | body h ih =>
    cases h with
    | block hl _ _ => exact (meet_optionalBlock hl).trans (ih gs (fun _ _ => rfl))
  | noAlternative => exact meet_unwanted (fun _ _ => rfl) rfl hb
  | alternative ht _ ih =>
    have helse := (Token.isKeyword_iff _ .elseWord).mpr ht
    exact (meet_wanted (fun _ _ => rfl) helse).trans (ih gs (fun _ _ => rfl))
  | noTerminator => exact meet_unwanted (fun _ _ => rfl) rfl hb
  | terminator ht =>
    have hsemicolon := (Token.isOperator_iff _ .semicolon).mpr ht
    exact meet_wanted (n := []) (fun _ _ => rfl) hsemicolon

end Goal
end Gloss
