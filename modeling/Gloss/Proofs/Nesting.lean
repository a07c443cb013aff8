import Gloss.Proofs.Neighbours

namespace Gloss

/-- Goes over a token with the brackets that are open, the last one first. An opening bracket is
open from then on, a closing one has to find its partner first, and no text but those of brackets
may be one. -/
def scanBracket (stack : List Bracket) (t : Token) : Option (List Bracket) :=
  if t.category = .bracket then
    t.bracket?.bind fun b =>
      if b.opening then some (b :: stack)
      else if stack.head? = some b.partner then some stack.tail
      else none
  else some stack

def NoneRound (stack : List Bracket) : Prop := ∀ b ∈ stack, b.shape ≠ .round

instance (stack : List Bracket) : Decidable (NoneRound stack) :=
  inferInstanceAs (Decidable (∀ b ∈ stack, b.shape ≠ .round))

/-- Goes over a token like `scanBracket`, but accepts no brace while a parenthesis is open. -/
def scanBrace (stack : List Bracket) (t : Token) : Option (List Bracket) :=
  if t.bracket?.any (·.shape = .curly) ∧ ¬NoneRound stack then none else scanBracket stack t

def Nested (stack : List Bracket) (ts : List Token) : Prop :=
  ts.foldlM scanBrace stack = some stack

section Scan

variable {stack stack' : List Bracket} {ts a b : List Token} {t l r : Token} {k : Bracket}

theorem scanBrace_of_category (ht : t.category ≠ .bracket) : scanBrace stack t = some stack := by
  rw [scanBrace, Token.bracket?_of_category ht, if_neg (by simp), scanBracket, if_neg ht]

theorem scanBrace_open (ht : t.Spells .bracket k.spelling) (hk : k.opening = true)
    (hround : k.shape = .curly → NoneRound stack) : scanBrace stack t = some (k :: stack) := by
  rw [scanBrace, Token.bracket?_eq_some_iff.mpr ht, if_neg, scanBracket, if_pos ht.1,
    Token.bracket?_eq_some_iff.mpr ht, Option.bind_some, if_pos hk]
  rintro ⟨hcurly, hnot⟩
  exact hnot (hround (by simpa using hcurly))

theorem scanBrace_close (ht : t.Spells .bracket k.partner.spelling) (hk : k.opening = true)
    (hround : k.shape = .curly → NoneRound stack) : scanBrace (k :: stack) t = some stack := by
  have hclosing : k.partner.opening = false := by rw [Bracket.partner, hk]; rfl
  rw [scanBrace, Token.bracket?_eq_some_iff.mpr ht, if_neg, scanBracket, if_pos ht.1,
    Token.bracket?_eq_some_iff.mpr ht, Option.bind_some, hclosing, if_neg Bool.false_ne_true,
    Bracket.partner_partner, if_pos List.head?_cons, List.tail_cons]
  -- The brace to be closed is no parenthesis either.
  rintro ⟨hcurly, hnot⟩
  have hshape : k.shape = .curly := by simpa [Bracket.partner] using hcurly
  apply hnot
  exact List.forall_mem_cons.mpr ⟨by rw [hshape]; decide, hround hshape⟩

theorem Nested.nil : Nested stack [] := rfl

theorem Nested.append (ha : Nested stack a) (hb : Nested stack b) : Nested stack (a ++ b) := by
  rw [Nested, List.foldlM_append, show a.foldlM scanBrace stack = some stack from ha]
  exact hb

theorem Nested.cons (ht : t.category ≠ .bracket) (h : Nested stack a) : Nested stack (t :: a) := by
  rw [Nested, List.foldlM_cons, scanBrace_of_category ht]
  exact h

/-- A pair of brackets is put around tokens that are nested in it. -/
theorem Nested.wrap (hl : l.Spells .bracket k.spelling) (hr : r.Spells .bracket k.partner.spelling)
    (hk : k.opening = true) (hround : k.shape = .curly → NoneRound stack)
    (ha : Nested (k :: stack) a) : Nested stack (l :: (a ++ [r])) := by
  rw [Nested, List.foldlM_cons, scanBrace_open hl hk hround]
  show (a ++ [r]).foldlM scanBrace (k :: stack) = some stack
  rw [List.foldlM_append, show a.foldlM scanBrace (k :: stack) = some (k :: stack) from ha]
  show [r].foldlM scanBrace (k :: stack) = some stack
  rw [List.foldlM_cons, scanBrace_close hr hk hround]
  rfl

theorem of_scanBrace (h : scanBrace stack t = some stack') : scanBracket stack t = some stack' ∧
    ∀ b, t.bracket? = some b → b.shape = .curly → NoneRound stack := by
  rw [scanBrace] at h
  split at h
  · cases h
  · next hopen =>
    refine ⟨h, fun b hb hcurly => ?_⟩
    by_contra hround
    exact hopen ⟨by simp [hb, hcurly], hround⟩

/-- What is nested is so for `scanBracket` too, and no brace in it stands in parentheses. -/
theorem of_foldlM_scanBrace (h : ts.foldlM scanBrace stack = some stack') :
    ts.foldlM scanBracket stack = some stack' ∧ ∀ i t, ts[i]? = some t →
      ∃ before, (ts.take i).foldlM scanBracket stack = some before ∧
        ∀ b, t.bracket? = some b → b.shape = .curly → NoneRound before := by
  -- The stack before a place is that of the scan up to it.
  induction ts generalizing stack with
  | nil => exact ⟨h, fun i t ht => by cases ht⟩
  | cons u ts ih =>
    rw [List.foldlM_cons] at h
    obtain ⟨next, hnext, h⟩ := Option.bind_eq_some_iff.mp h
    obtain ⟨hscan, hround⟩ := of_scanBrace hnext
    obtain ⟨hrest, hplaces⟩ := ih h
    have hstep (ts : List Token) :
        (u :: ts).foldlM scanBracket stack = ts.foldlM scanBracket next := by
      rw [List.foldlM_cons, hscan]
      rfl
    refine ⟨(hstep ts).trans hrest, ?_⟩
    intro i t ht
    cases i with
    | zero =>
      obtain rfl : u = t := Option.some.inj ht
      exact ⟨stack, rfl, hround⟩
    | succ i =>
      obtain ⟨before, hbefore, hplace⟩ := hplaces i t ht
      exact ⟨before, (hstep _).trans hbefore, hplace⟩

end Scan

section Derivations

variable {s s₁ : NameSet} {a : List Token}

/-- An expression closes the parentheses that it opens, and holds no brace. -/
theorem Forms.nested {part : ExpressionPart} (h : Forms part a) (stack : List Bracket) :
    Nested stack a := by
  induction h generalizing stack with
  | literal ht | name ht => exact Nested.nil.cons (by simp [ht])
  | parenthesized hl _ hr ih => exact (ih _).wrap (k := ⟨.round, true⟩) hl hr rfl nofun
  | term _ _ iha ihb | expression _ _ iha ihb => exact (iha stack).append (ihb stack)
  | noFactors | noTerms => exact Nested.nil
  | moreFactors ht _ _ iha ihb | moreTerms ht _ _ iha ihb =>
    refine ((iha stack).append (ihb stack)).cons ?_
    rcases ht with ht | ht <;> simp [ht.1]

/-- What derives a part of a program is nested wherever no parenthesis is open. -/
theorem Derives.nested {phrase : Phrase} (h : Derives phrase s a s₁) {stack : List Bracket}
    (hstack : NoneRound stack) : Nested stack a := by
  -- The stack grows only inside brackets, and round ones are closed before a brace can come.
  induction h generalizing stack with
  | noStatements | noInitializer | noBody | noAlternative | noTerminator => exact Nested.nil
  | statements _ _ iha ihb => exact (iha hstack).append (ihb hstack)
  | declaration ht _ ih => exact (ih hstack).cons (by simp [ht.1])
  | @conditional _ _ _ t l r a b c ht hl ha hr _ _ ihb ihc =>
    have hword : t.category ≠ .bracket := by simp [ht.1]
    have hcondition : Nested stack (l :: (a ++ [r])) :=
      (ha.nested _).wrap (k := ⟨.round, true⟩) hl hr rfl nofun
    have hbody := (ihb hstack).append (ihc hstack)
    simpa using (hcondition.append hbody).cons hword
  | returns ht ha _ ihb =>
    exact ((ha.nested stack).append (ihb hstack)).cons (by simp [ht.1])
  | assignment ht _ hu ha _ ihb =>
    have hvalue := (ha.nested stack).append (ihb hstack)
    exact (hvalue.cons (by simp [hu.1])).cons (by simp [ht])
  | letVariable ht hu _ _ iha ihb =>
    have hrest := (iha hstack).append (ihb hstack)
    exact (hrest.cons (by simp [hu])).cons (by simp [ht.1])
  | @letFunction _ _ t u l r a ht hu hl hr _ iha =>
    have hpair : Nested stack (l :: [r]) :=
      Nested.nil.wrap (k := ⟨.round, true⟩) hl hr rfl nofun
    have hrest := hpair.append (iha hstack)
    exact (hrest.cons (by simp [hu])).cons (by simp [ht.1])
  | block hl _ hr ih =>
    have hbrace : NoneRound (⟨.curly, true⟩ :: stack) :=
      List.forall_mem_cons.mpr ⟨by decide, hstack⟩
    exact (ih hbrace).wrap (k := ⟨.curly, true⟩) hl hr rfl fun _ => hstack
  | initializer ht ha => exact (ha.nested stack).cons (by simp [ht.1])
  | body _ ih => exact ih hstack
  | alternative ht _ ih => exact (ih hstack).cons (by simp [ht.1])
  | terminator ht => exact Nested.nil.cons (by simp [ht.1])

end Derivations

/-- An accepted list uses words and signs as the vocabulary has them: no reserved word without a
use, each word where its usage puts it, operators with a level between two operands, and brackets
in pairs, with no square ones, and no braces in parentheses. -/
theorem parse_fits_vocabulary {tokens : List Token} (h : (parse tokens).error? = none) :
    (∀ i t, tokens[i]? = some t →
      (t.category = .keyword → ∃ k, t.keyword? = some k ∧ k.usage ≠ .reserved ∧
        (k.usage = .declarator → ∃ l, before? tokens i = some l ∧ l.keyword? = some .letWord) ∧
        (k = .letWord → ∃ d k', tokens[i + 1]? = some d ∧ d.keyword? = some k' ∧
          k'.usage = .declarator) ∧
        (k.usage = .clause → ∃ l, before? tokens i = some l ∧
          l.bracket? = some Goal.closeBrace)) ∧
      (t.category = .operator → ∃ o, t.operator? = some o ∧
        (o = .assign ∨ o = .semicolon ∨ o.level?.isSome ∧ ∃ l r, before? tokens i = some l ∧
          tokens[i + 1]? = some r ∧ l.endsOperand ∧ r.startsOperand)) ∧
      (t.category = .bracket → ∃ b, t.bracket? = some b ∧ b.shape ≠ .square ∧
        ∃ stack, (tokens.take i).foldlM scanBracket [] = some stack ∧
          (b.shape = .curly → ∀ o ∈ stack, o.shape ≠ .round))) ∧
    tokens.foldlM scanBracket [] = some [] := by
  have hnested : Nested [] tokens := (derives_of_parse h).nested (List.forall_mem_nil _)
  obtain ⟨hscan, hplaces⟩ := of_foldlM_scanBrace hnested
  refine ⟨fun i t ht => ⟨keyword_of_parse h ht, operator_of_parse h ht, fun hbracket => ?_⟩, hscan⟩
  obtain ⟨hknown, -⟩ := exists_beside h ht
  rw [Token.Known, hbracket] at hknown
  obtain ⟨b, hb, hsquare⟩ := hknown
  obtain ⟨stack, hstack, hround⟩ := hplaces i t ht
  exact ⟨b, hb, hsquare, stack, hstack, hround b hb⟩

/-- In this program the word `else` stands behind a brace, the sign between two literals, and all
brackets are closed. -/
theorem parse_fits_vocabulary_else :
    let tokens := [.spelled .keyword "if", .spelled .bracket "(", .spelled .literal "1",
      .spelled .operator "+", .spelled .literal "2", .spelled .bracket ")",
      .spelled .bracket "\x7b", .spelled .keyword "return", .spelled .literal "3",
      .spelled .operator ";", .spelled .bracket "\x7d", .spelled .keyword "else",
      .spelled .bracket "\x7b", .spelled .bracket "\x7d"]
    (parse tokens).error? = none ∧
      (∃ l, before? tokens 11 = some l ∧ l.bracket? = some Goal.closeBrace) ∧
      (∃ l r, before? tokens 3 = some l ∧ tokens[4]? = some r ∧ l.endsOperand ∧ r.startsOperand) ∧
      tokens.foldlM scanBracket [] = some [] := by
  intro tokens
  have haccepted : (parse tokens).error? = none := by decide
  obtain ⟨hplaces, hscan⟩ := parse_fits_vocabulary haccepted
  obtain ⟨k, hk, -, -, -, hclause⟩ := (hplaces 11 (.spelled .keyword "else") rfl).1 rfl
  obtain ⟨o, ho, hplace⟩ := (hplaces 3 (.spelled .operator "+") rfl).2.1 rfl
  have hword : (Token.spelled .keyword "else").keyword? = some .elseWord := by decide
  have hsign : (Token.spelled .operator "+").operator? = some .plus := by decide
  obtain rfl := Option.some.inj (hword.symm.trans hk)
  obtain rfl := Option.some.inj (hsign.symm.trans ho)
  rcases hplace with hassign | hsemicolon | ⟨-, hbetween⟩
  · cases hassign
  · cases hsemicolon
  · exact ⟨haccepted, hclause rfl, hbetween, hscan⟩

end Gloss
