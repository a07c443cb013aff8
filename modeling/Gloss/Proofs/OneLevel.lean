import Gloss.Proofs.Settling

namespace Gloss

def Token.Joins (t : Token) : Prop := t.category = .operator ∧ t.text ∈ ["+", "-", "*", "/"]

instance (t : Token) : Decidable t.Joins := inferInstanceAs (Decidable (_ ∧ _))

/-- Operands joined by operators, without regard to their levels. -/
inductive Joined : List Token → Prop
  | leaf {t : Token} : t.category = .literal ∨ t.category = .identifier → Joined [t]
  | parenthesized {l r : Token} {a : List Token} : l.Spells .bracket "(" → Joined a →
      r.Spells .bracket ")" → Joined (l :: (a ++ [r]))
  | join {t : Token} {a b : List Token} : Joined a → t.Joins → Joined b → Joined (a ++ t :: b)

/-- How it ends to read from `count` tokens. -/
inductive OperandReading (count : Nat) where
  /-- At least one token is read, and these are left. -/
  | read (unread : List Token) (less : unread.length < count)
  /-- These are left, of which the first one is wrong or missing. -/
  | failed (unread : List Token) (error : SyntaxError)

namespace OperandReading

variable {count : Nat}

def verdict (names : NameSet) : OperandReading count → Verdict
  | .read unread _ => ⟨⟨unread, names⟩, none⟩
  | .failed unread error => ⟨⟨unread, names⟩, some error⟩

def before (goals : List Goal) (names : NameSet) : OperandReading count → Verdict
  | .read unread _ => Goal.meet goals names unread
  | .failed unread error => ⟨⟨unread, names⟩, some error⟩

theorem before_nil (r : OperandReading count) (names : NameSet) :
    r.before [] names = r.verdict names := by
  cases r with
  | read unread less => exact Goal.meet_nil names unread
  | failed unread error => rfl

end OperandReading

mutual

def operand (tokens : List Token) : OperandReading tokens.length :=
  match tokens with
  | [] => .failed [] (.endOfInput (.phrase "expression"))
  | t :: rest =>
    if t.category = .literal ∨ t.category = .identifier then .read rest (Nat.lt_succ_self _)
    else if t.isBracket Goal.openParenthesis then
      let close := Expectation.ofBracket Goal.closeParenthesis
      match operands rest with
      | .failed unread error => .failed unread error
      | .read [] _ => .failed [] (.endOfInput (.token close))
      | .read (u :: unread) less =>
        if close.admits u then .read unread (by simp at less ⊢; omega)
        else .failed (u :: unread) (.expectedToken close u)
    else .failed (t :: rest) (.invalidExpression t)
termination_by (tokens.length, 0)

/-- Reads an operand, and another one as long as a sign joins it, in one loop. -/
def operands (tokens : List Token) : OperandReading tokens.length :=
  match operand tokens with
  | .failed unread error => .failed unread error
  | .read [] less => .read [] less
  | .read (t :: unread) less =>
    if t.Joins then
      match operands unread with
      | .failed unread' error => .failed unread' error
      | .read unread' less' => .read unread' (by simp at less; omega)
    else .read (t :: unread) less
termination_by (tokens.length, 1)
decreasing_by
  · exact Prod.Lex.right _ Nat.zero_lt_one
  · exact Prod.Lex.left _ _ (by simp at less; omega)

end

section Laws

variable {t : Token} {a ts : List Token} {gs : List Goal} {s : NameSet}

/-- The operators of both levels are the four signs. -/
theorem Token.binds_iff (t : Token) : t.binds ↔ t.Joins := by
  rw [Token.binds, Bool.or_eq_true, Token.bindsAt_additive_iff, Token.bindsAt_multiplicative_iff]
  simp only [Token.Joins, Token.Spells, List.mem_cons, List.not_mem_nil, or_false]
  tauto

theorem Token.not_joins_of_category (h : t.category ≠ .operator) : ¬t.Joins := fun ht => h ht.1

/-- What the two levels derive is joined operands. -/
theorem Forms.joined {part : ExpressionPart} (h : Forms part a) : match part with
    | .expression | .term | .factor => Joined a
    | .moreTerms | .moreFactors => ∀ b, Joined b → Joined (b ++ a) := by
  have hadditive {t : Token} (ht : t.Spells .operator "+" ∨ t.Spells .operator "-") : t.Joins := by
    rcases ht with ⟨hc, ht⟩ | ⟨hc, ht⟩ <;> exact ⟨hc, by rw [ht]; decide⟩
  have hmultiplicative {t : Token} (ht : t.Spells .operator "*" ∨ t.Spells .operator "/") :
      t.Joins := by
    rcases ht with ⟨hc, ht⟩ | ⟨hc, ht⟩ <;> exact ⟨hc, by rw [ht]; decide⟩
  -- The loops only make a run longer, so they are claimed of every run before them.
  induction h with
  | literal ht => exact .leaf (Or.inl ht)
  | name ht => exact .leaf (Or.inr ht)
  | parenthesized hl _ hr ih => exact .parenthesized hl ih hr
  | term _ _ iha ihb | expression _ _ iha ihb => exact ihb _ iha
  | noFactors | noTerms =>
    intro b hb
    rw [List.append_nil]
    exact hb
  | moreFactors ht _ _ iha ihb =>
    intro b hb
    have hjoined := ihb _ (.join hb (hmultiplicative ht) iha)
    rw [List.append_assoc] at hjoined
    exact hjoined
  | moreTerms ht _ _ iha ihb =>
    intro b hb
    have hjoined := ihb _ (.join hb (hadditive ht) iha)
    rw [List.append_assoc] at hjoined
    exact hjoined

namespace Goal

/-- A factor is a leaf, or begins with a parenthesis, or fails. -/
theorem meet_factor : meet (.factor :: gs) s (t :: ts) =
    if t.category = .literal ∨ t.category = .identifier then meet gs s ts
    else if t.isBracket openParenthesis then
      meet (.expression :: .token (.ofBracket closeParenthesis) :: gs) s ts
    else ⟨⟨t :: ts, s⟩, some (.invalidExpression t)⟩ := by
  -- A leaf is read whole; a parenthesis leaves an expression and its partner.
  by_cases hleaf : t.category = .literal ∨ t.category = .identifier
  · rw [if_pos hleaf]
    exact meet_reads (n := []) (by rw [offer, afterOperandStart_leaf hleaf]; rfl)
  · rw [if_neg hleaf]
    split
    · next hopen =>
      have hstart := afterOperandStart_parenthesis ((t.isBracket_iff _).mp hopen)
      exact meet_reads (n := [.expression, .token (.ofBracket closeParenthesis)])
        (by rw [offer, hstart]; rfl)
    · next hopen =>
      have hother : t.isBracket ⟨.round, true⟩ = false := (Bool.not_eq_true _).mp hopen
      have hstart : t.startsOperand = false := by
        rw [not_or] at hleaf
        simp [Token.startsOperand, hleaf, hother]
      exact meet_fails (by rw [offer, afterOperandStart, hstart]; rfl)

/-- An expression is a factor with both loops behind it. -/
theorem meet_expression_factor :
    meet (.expression :: gs) s ts = meet (.factor :: .moreFactors :: .moreTerms :: gs) s ts := by
  rw [meet_expression, meet_term]

/-- Together both loops go on with an expression behind an operator of either level, and are done
where there is none. -/
theorem meet_loops : meet (.moreFactors :: .moreTerms :: gs) s (t :: ts) =
    if t.Joins then meet (.expression :: gs) s ts else meet gs s (t :: ts) := by
  by_cases hm : bindsAt .multiplicative t
  · -- The factors that are left of this term, and the terms behind it, are an expression.
    have hjoins : t.Joins := t.binds_iff.mp (Bool.or_eq_true_iff.mpr (Or.inr hm))
    rw [if_pos hjoins, meet_wanted (fun _ _ => rfl) hm, meet_expression_factor]
    rfl
  · rw [Bool.not_eq_true] at hm
    rw [meet_unwanted (fun _ _ => rfl) rfl (stops_cons.mpr hm)]
    by_cases ha : bindsAt .additive t
    · have hjoins : t.Joins := t.binds_iff.mp (Bool.or_eq_true_iff.mpr (Or.inl ha))
      rw [if_pos hjoins, meet_wanted (fun _ _ => rfl) ha, meet_expression]
      rfl
    · have hjoins : ¬t.Joins := fun h => by
        rcases Bool.or_eq_true_iff.mp (t.binds_iff.mpr h) with h | h
        · exact ha h
        · rw [hm] at h
          cases h
      rw [Bool.not_eq_true] at ha
      rw [if_neg hjoins, meet_unwanted (fun _ _ => rfl) rfl (stops_cons.mpr ha)]

theorem meet_loops_nil : meet (.moreFactors :: .moreTerms :: gs) s [] = meet gs s [] := by
  rw [meet_end rfl, meet_end rfl]

/-- Behind joined operands both loops are still open. -/
theorem meet_joined (h : Joined a) (gs : List Goal) (ts : List Token) :
    meet (.expression :: gs) s (a ++ ts) = meet (.moreFactors :: .moreTerms :: gs) s ts := by
  -- Behind a joined run both loops are open, whatever it was joined from.
  induction h generalizing gs ts with
  | leaf ht =>
    rw [List.cons_append, List.nil_append, meet_expression_factor, meet_factor, if_pos ht]
  | @parenthesized l r a hl _ hr ih =>
    have hleaf : ¬(l.category = .literal ∨ l.category = .identifier) := by simp [hl.1]
    have hopen : l.isBracket openParenthesis := (l.isBracket_iff _).mpr hl
    have hclose : (Expectation.ofBracket closeParenthesis).admits r := by
      rw [Expectation.admits_ofBracket]
      exact (r.isBracket_iff _).mpr hr
    have hends : ¬r.Joins := Token.not_joins_of_category (by simp [hr.1])
    rw [List.cons_append, List.append_assoc, meet_expression_factor, meet_factor, if_neg hleaf,
      if_pos hopen, ih, List.cons_append, meet_loops, if_neg hends, meet_token hclose]
    rfl
  | join _ ht _ iha ihb =>
    rw [List.append_assoc, iha, List.cons_append, meet_loops, if_pos ht, ihb]

/-- Operands are read as the factors and expressions of the grammar are, whatever is behind. -/
theorem meet_operands :
    (∀ ts gs s, meet (.factor :: gs) s ts = (operand ts).before gs s) ∧
    (∀ ts gs s, meet (.expression :: gs) s ts = (operands ts).before gs s) := by
  -- Inside parentheses the loop begins anew, and the closing one is wanted where it ends.
  have hinside {t : Token} {rest : List Token}
      (hleaf : ¬(t.category = .literal ∨ t.category = .identifier))
      (hopen : t.isBracket openParenthesis)
      (ih : ∀ gs s, meet (.expression :: gs) s rest = (operands rest).before gs s)
      (gs : List Goal) (s : NameSet) : meet (.factor :: gs) s (t :: rest) =
        (operands rest).before (.token (.ofBracket closeParenthesis) :: gs) s := by
    rw [meet_factor, if_neg hleaf, if_pos hopen, ih]
  -- The induction is on the loop: each of its branches is one law of the goals.
  refine operand.mutual_induct
    (fun ts => ∀ gs s, meet (.factor :: gs) s ts = (operand ts).before gs s)
    (fun ts => ∀ gs s, meet (.expression :: gs) s ts = (operands ts).before gs s)
    ?ended ?leaf ?insideFails ?unclosed ?closed ?notClosed ?noOperand
    ?firstFails ?last ?restFails ?more ?done
  case ended =>
    intro gs s
    rw [operand]
    rfl
  case leaf =>
    intro t rest hleaf gs s
    rw [meet_factor, operand, if_pos hleaf, if_pos hleaf]
    rfl
  case insideFails =>
    intro t rest hleaf hopen unread error hloop ih gs s
    rw [hinside hleaf hopen ih, operand, if_neg hleaf, if_pos hopen, hloop]
    rfl
  case unclosed =>
    intro t rest hleaf hopen less hloop ih gs s
    rw [hinside hleaf hopen ih, operand, if_neg hleaf, if_pos hopen, hloop]
    rfl
  case closed =>
    intro t rest hleaf hopen close u unread less hloop hclose ih gs s
    rw [hinside hleaf hopen ih, operand, if_neg hleaf, if_pos hopen, hloop]
    show meet (.token close :: gs) s (u :: unread) = OperandReading.before gs s (if _ then _ else _)
    rw [meet_token hclose, if_pos hclose]
    rfl
  case notClosed =>
    intro t rest hleaf hopen close u unread less hloop hclose ih gs s
    rw [hinside hleaf hopen ih, operand, if_neg hleaf, if_pos hopen, hloop]
    show meet (.token close :: gs) s (u :: unread) = OperandReading.before gs s (if _ then _ else _)
    rw [meet_fails (by rw [offer, if_neg hclose]), if_neg hclose]
    rfl
  case noOperand =>
    intro t rest hleaf hopen gs s
    rw [meet_factor, operand, if_neg hleaf, if_neg hleaf, if_neg hopen, if_neg hopen]
    rfl
  case firstFails =>
    intro ts unread error hfirst ih gs s
    rw [meet_expression_factor, ih, operands, hfirst]
    rfl
  case last =>
    intro ts less hfirst ih gs s
    rw [meet_expression_factor, ih, operands, hfirst]
    exact meet_loops_nil
  case restFails =>
    intro ts t unread less hfirst hjoins unread' error hrest ih ihRest gs s
    rw [meet_expression_factor, ih, operands, hfirst]
    show meet _ s (t :: unread) = OperandReading.before gs s (if _ then _ else _)
    rw [meet_loops, if_pos hjoins, if_pos hjoins, ihRest, hrest]
    rfl
  case more =>
    intro ts t unread less hfirst hjoins unread' less' hrest ih ihRest gs s
    rw [meet_expression_factor, ih, operands, hfirst]
    show meet _ s (t :: unread) = OperandReading.before gs s (if _ then _ else _)
    rw [meet_loops, if_pos hjoins, if_pos hjoins, ihRest, hrest]
    rfl
  case done =>
    intro ts t unread less hfirst hjoins ih gs s
    rw [meet_expression_factor, ih, operands, hfirst]
    show meet _ s (t :: unread) = OperandReading.before gs s (if _ then _ else _)
    rw [meet_loops, if_neg hjoins, if_neg hjoins]
    rfl

/-- What is read for an expression derives one. -/
theorem exists_forms (h : (meet [.expression] s ts).error? = none) :
    ∃ a, ts = a ++ (meet [.expression] s ts).unread ∧ Forms .expression a := by
  obtain ⟨_, hts, a, b, s₁, rfl, ⟨hforms, -⟩, rfl, -⟩ := meet_sound h
  rw [List.append_nil] at hts
  exact ⟨a, hts, hforms⟩

end Goal

/-- The two levels derive exactly the joined operands. -/
theorem forms_iff_joined : Forms .expression a ↔ Joined a := by
  constructor
  · exact Forms.joined
  · intro h
    have hmeet : Goal.meet [.expression] ∅ a = ⟨⟨[], ∅⟩, none⟩ := by
      have hread := Goal.meet_joined (s := ∅) h [] []
      rw [List.append_nil] at hread
      rw [hread, Goal.meet_loops_nil]
      rfl
    have hmet : (Goal.meet [.expression] ∅ a).error? = none := by rw [hmeet]
    obtain ⟨b, hb, hforms⟩ := Goal.exists_forms hmet
    rw [hmeet, List.append_nil] at hb
    rw [hb]
    exact hforms

end Laws

/-- From every token on, an expression is read as one loop over operands of all levels reads it.
What is read is the longest run of joined operands, and no sign that joins is next; a token that
is no such sign ends every run. -/
theorem expression_is_one_level (tokens : List Token) (start : Nat) (names : NameSet) :
    let unread := tokens.drop start
    let v := Goal.meet [.expression] names unread
    v = (operands unread).verdict names ∧
    (∀ a, Forms .expression a ↔ Joined a) ∧
    (v.error? = none → ∃ read, unread = read ++ v.unread ∧ Joined read ∧
      (∀ a, a <+: unread → Joined a → a.length ≤ read.length) ∧
      ∀ t ∈ v.unread.head?, ¬t.Joins) ∧
    (∀ read t rest, unread = read ++ t :: rest → Joined read → ¬t.Joins →
      v = ⟨⟨t :: rest, names⟩, none⟩) := by
  intro unread v
  -- The loop is the reference: the rest is shown of the goals, which agree with it.
  refine ⟨?loop, fun _ => forms_iff_joined, ?longest, ?ends⟩
  case loop => exact (Goal.meet_operands.2 unread [] names).trans (OperandReading.before_nil _ _)
  case longest =>
    intro h
    obtain ⟨read, hread, hforms⟩ := Goal.exists_forms h
    have hjoined := forms_iff_joined.mp hforms
    refine ⟨read, hread, hjoined, ?_, ?_⟩
    · rintro a ⟨ts, hts⟩ ha
      -- The loops behind `a` leave no more than there is behind it.
      have hv : v = Goal.meet [.moreFactors, .moreTerms] names ts := by
        rw [← Goal.meet_joined ha, hts]
      have hle := (Goal.unread_suffix [.moreFactors, .moreTerms] names ts).length_le
      rw [← hv] at hle
      have hlength := congrArg List.length (hts.trans hread)
      rw [List.length_append, List.length_append] at hlength
      have hunread : (Goal.meet [.expression] names unread).unread.length ≤ ts.length := hle
      omega
    · intro t ht hjoins
      obtain ⟨rest, hrest⟩ : ∃ rest, v.unread = t :: rest := List.head?_eq_some_iff.mp ht
      -- A sign that joins is read by the loops, and not left.
      have hv : v = Goal.meet [.expression] names rest := by
        show Goal.meet [.expression] names unread = _
        rw [hread, Goal.meet_joined hjoined]
        show Goal.meet _ names v.unread = _
        rw [hrest, Goal.meet_loops, if_pos hjoins]
      have hle := (Goal.unread_suffix [.expression] names rest).length_le
      rw [← hv, hrest, List.length_cons] at hle
      omega
  case ends =>
    intro read t rest hunread hread ht
    show Goal.meet [.expression] names unread = _
    rw [hunread, Goal.meet_joined hread, Goal.meet_loops, if_neg ht]
    rfl

end Gloss
