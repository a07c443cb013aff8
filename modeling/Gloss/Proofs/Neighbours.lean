import Gloss.Proofs.Antecedents
import Gloss.Proofs.Resuming

namespace Gloss

namespace Token

variable {t : Token} {k : Keyword} {o : Operator} {b : Bracket}

def endsOperand (t : Token) : Bool :=
  t.category = .literal || t.category = .identifier || t.isBracket ⟨.round, false⟩

def startsStatement (t : Token) : Bool :=
  t.category = .identifier || t.keyword?.any (·.usage = .statement)

def Known (t : Token) : Prop :=
  match t.category with
  | .keyword => ∃ k, t.keyword? = some k ∧ k.usage ≠ .reserved
  | .operator => ∃ o, t.operator? = some o ∧ (o = .assign ∨ o = .semicolon ∨ o.level?.isSome)
  | .bracket => ∃ b, t.bracket? = some b ∧ b.shape ≠ .square
  | .literal | .identifier => True

def Links (t : Token) : Prop := ∃ o, t.operator? = some o ∧ (o.level?.isSome ∨ o = .semicolon)

def AsksNext (t : Token) : Prop := t.keyword? = some .letWord ∨ t.Links

def AsksBefore (t : Token) : Prop :=
  (∃ k, t.keyword? = some k ∧ (k.usage = .declarator ∨ k.usage = .clause)) ∨ t.Links

def Bounds (t : Token) : Prop :=
  t.endsOperand ∨ t.Spells .operator ";" ∨ t.Spells .bracket "\x7b" ∨ t.Spells .bracket "\x7d"

def EndsStatement (t : Token) : Prop :=
  t.endsOperand ∨ t.Spells .operator ";" ∨ t.Spells .bracket "\x7d"

theorem EndsStatement.bounds (h : t.EndsStatement) : t.Bounds := by
  rcases h with h | h | h
  · exact Or.inl h
  · exact Or.inr (Or.inl h)
  · exact Or.inr (Or.inr (Or.inr h))

section Known

theorem known_of_leaf (h : t.category = .literal ∨ t.category = .identifier) : t.Known := by
  rcases h with h | h
  · rw [Known, h]
    trivial
  · rw [Known, h]
    trivial

theorem known_of_keyword (k : Keyword) (h : t.Spells .keyword k.spelling)
    (hk : k.usage ≠ .reserved) : t.Known := by
  rw [Known, h.1]
  exact ⟨k, keyword?_eq_some_iff.mpr h, hk⟩

theorem known_of_operator (o : Operator) (h : t.Spells .operator o.spelling)
    (ho : o = .assign ∨ o = .semicolon ∨ o.level?.isSome) : t.Known := by
  rw [Known, h.1]
  exact ⟨o, operator?_eq_some_iff.mpr h, ho⟩

theorem known_of_bracket (b : Bracket) (h : t.Spells .bracket b.spelling)
    (hb : b.shape ≠ .square) : t.Known := by
  rw [Known, h.1]
  exact ⟨b, bracket?_eq_some_iff.mpr h, hb⟩

end Known

section Asks

theorem category_of_keyword? (h : t.keyword? = some k) : t.category = .keyword :=
  (keyword?_eq_some_iff.mp h).1

theorem category_of_operator? (h : t.operator? = some o) : t.category = .operator :=
  (operator?_eq_some_iff.mp h).1

theorem category_of_bracket? (h : t.bracket? = some b) : t.category = .bracket :=
  (bracket?_eq_some_iff.mp h).1

/-- At both ends of an operand stand literals, names and brackets. -/
theorem category_of_edge
    (h : t.category = .literal || t.category = .identifier || t.isBracket b) :
    t.category ≠ .keyword ∧ t.category ≠ .operator := by
  simp only [Bool.or_eq_true, decide_eq_true_eq] at h
  rcases h with (h | h) | h
  · simp [h]
  · simp [h]
  · simp [((t.isBracket_iff b).mp h).1]

theorem category_of_endsOperand (h : t.endsOperand) :
    t.category ≠ .keyword ∧ t.category ≠ .operator := category_of_edge h

theorem category_of_startsOperand (h : t.startsOperand) :
    t.category ≠ .keyword ∧ t.category ≠ .operator := category_of_edge h

theorem not_links (h : t.category ≠ .operator) : ¬t.Links := by
  rintro ⟨o, ho, -⟩
  exact h (category_of_operator? ho)

theorem not_links_assign (h : t.Spells .operator "=") : ¬t.Links := by
  rintro ⟨o, ho, hlinks⟩
  obtain rfl : .assign = o :=
    Option.some.inj ((operator?_eq_some_iff (o := .assign).mpr h).symm.trans ho)
  revert hlinks
  decide

theorem not_asksNext (hk : t.category ≠ .keyword) (hlinks : ¬t.Links) : ¬t.AsksNext := by
  rintro (hlet | h)
  · exact hk (category_of_keyword? hlet)
  · exact hlinks h

theorem not_asksBefore (hk : t.category ≠ .keyword) (hlinks : ¬t.Links) : ¬t.AsksBefore := by
  rintro (⟨k, hword, -⟩ | h)
  · exact hk (category_of_keyword? hword)
  · exact hlinks h

theorem not_asksNext_of_keyword (k : Keyword) (h : t.Spells .keyword k.spelling)
    (hk : k ≠ .letWord) : ¬t.AsksNext := by
  rintro (hlet | hlinks)
  · exact hk (Option.some.inj ((keyword?_eq_some_iff.mpr h).symm.trans hlet))
  · exact not_links (by simp [h.1]) hlinks

theorem not_asksNext_of_endsOperand (h : t.endsOperand) : ¬t.AsksNext := by
  obtain ⟨hk, ho⟩ := category_of_endsOperand h
  exact not_asksNext hk (not_links ho)

theorem not_asksBefore_of_startsStatement (h : t.startsStatement) : ¬t.AsksBefore := by
  simp only [startsStatement, Bool.or_eq_true, decide_eq_true_eq, Option.any_eq_true] at h
  rcases h with h | ⟨k, hk, husage⟩
  · exact not_asksBefore (by simp [h]) (not_links (by simp [h]))
  · rintro (⟨k', hk', husage'⟩ | hlinks)
    · obtain rfl := Option.some.inj (hk.symm.trans hk')
      rw [husage] at husage'
      simp at husage'
    · exact not_links (by simp [category_of_keyword? hk]) hlinks

end Asks

end Token

/-- How one token can stand right before another. -/
inductive Beside (t u : Token) : Prop where
  | plain (ht : ¬t.AsksNext) (hu : ¬u.AsksBefore)
  | declares {k : Keyword} (ht : t.keyword? = some .letWord) (hu : u.keyword? = some k)
      (hk : k.usage = .declarator)
  | continues {k : Keyword} (ht : t.bracket? = some Goal.closeBrace) (hu : u.keyword? = some k)
      (hk : k.usage = .clause)
  | operator (ht : t.endsOperand) (hu : u.Links)
  | operand {o : Operator} (ht : t.operator? = some o) (ho : o.level?.isSome)
      (hu : u.startsOperand)
  | statement (ht : t.operator? = some .semicolon)
      (hu : u.startsStatement ∨ u.bracket? = some Goal.closeBrace)

/-- Known tokens, the first of which can stand behind any token of a class. -/
def Leads (p : Token → Prop) (ts : List Token) : Prop :=
  ∀ x, p x → (x :: ts).IsChain fun t u => Beside t u ∧ u.Known

section Leads

variable {p q : Token → Prop} {t u : Token} {ts : List Token}

theorem Leads.cons (h : Leads q ts) (ht : q t) (hknown : t.Known)
    (hbeside : ∀ x, p x → Beside x t) : Leads p (t :: ts) :=
  fun x hx => List.isChain_cons_cons.mpr ⟨⟨hbeside x hx, hknown⟩, h t ht⟩

theorem Leads.mono (h : Leads q ts) (hp : ∀ x, p x → q x) : Leads p ts :=
  fun x hx => h x (hp x hx)

theorem beside_operand (ht : t.CallsForOperand) (hu : u.startsOperand) : Beside t u := by
  obtain ⟨hk, ho⟩ := Token.category_of_startsOperand hu
  have hbefore := Token.not_asksBefore hk (Token.not_links ho)
  have hsign (o : Operator) (h : t.Spells .operator o.spelling) (hlevel : o.level?.isSome) :
      Beside t u := .operand (Token.operator?_eq_some_iff.mpr h) hlevel hu
  rcases ht with h | h | h | h | h | h | h
  · exact .plain (Token.not_asksNext_of_keyword .returnWord h (by decide)) hbefore
  · exact .plain (Token.not_asksNext (by simp [h.1]) (Token.not_links_assign h)) hbefore
  · exact .plain (Token.not_asksNext (by simp [h.1]) (Token.not_links (by simp [h.1]))) hbefore
  · exact hsign .plus h rfl
  · exact hsign .minus h rfl
  · exact hsign .star h rfl
  · exact hsign .slash h rfl

theorem beside_bounds (ht : t.Bounds) (hu : u.startsStatement ∨ u.Spells .bracket "\x7d") :
    Beside t u := by
  have hbefore : ¬u.AsksBefore := by
    rcases hu with h | h
    · exact Token.not_asksBefore_of_startsStatement h
    · exact Token.not_asksBefore (by simp [h.1]) (Token.not_links (by simp [h.1]))
  have hbracket (h : t.category = .bracket) : Beside t u :=
    .plain (Token.not_asksNext (by simp [h]) (Token.not_links (by simp [h]))) hbefore
  rcases ht with h | h | h | h
  · exact .plain (Token.not_asksNext_of_endsOperand h) hbefore
  · exact .statement (Token.operator?_eq_some_iff.mpr h)
      (hu.imp_right Token.bracket?_eq_some_iff.mpr)
  · exact hbracket h.1
  · exact hbracket h.1

end Leads

def ExpressionPart.Before : ExpressionPart → Token → Prop
  | .expression | .term | .factor => Token.CallsForOperand
  | .moreTerms | .moreFactors => fun t => t.endsOperand

/-- A part of an expression stands behind what calls for it and ends with an operand. -/
theorem Forms.leads {part : ExpressionPart} {a : List Token} (h : Forms part a) {ts : List Token}
    (hts : Leads (fun t => t.endsOperand) ts) : Leads part.Before (a ++ ts) := by
  -- All four signs stand between the end of one operand and the start of the next.
  have hsign (o : Operator) {t : Token} {ts : List Token} (ht : t.Spells .operator o.spelling)
      (hcalls : t.CallsForOperand) (hlevel : o.level?.isSome)
      (h : Leads Token.CallsForOperand ts) : Leads (fun t => t.endsOperand) (t :: ts) := by
    apply h.cons hcalls (Token.known_of_operator o ht (Or.inr (Or.inr hlevel)))
    intro x hx
    exact .operator hx ⟨o, Token.operator?_eq_some_iff.mpr ht, Or.inl hlevel⟩
  -- Each part is put in front of what follows it, so `ts` changes from step to step.
  induction h generalizing ts with
  | @literal t ht =>
    have hends : t.endsOperand := by simp [Token.endsOperand, ht]
    have hstarts : t.startsOperand := by simp [Token.startsOperand, ht]
    exact hts.cons hends (Token.known_of_leaf (Or.inl ht)) fun x hx => beside_operand hx hstarts
  | @name t ht =>
    have hends : t.endsOperand := by simp [Token.endsOperand, ht]
    have hstarts : t.startsOperand := by simp [Token.startsOperand, ht]
    exact hts.cons hends (Token.known_of_leaf (Or.inr ht)) fun x hx => beside_operand hx hstarts
  | @parenthesized l r a hl _ hr ih =>
    have hopen : l.startsOperand := Bool.or_eq_true_iff.mpr (Or.inr ((l.isBracket_iff _).mpr hl))
    have hclose : r.endsOperand := Bool.or_eq_true_iff.mpr (Or.inr ((r.isBracket_iff _).mpr hr))
    have hbehind : Leads (fun t => t.endsOperand) (r :: ts) := by
      apply hts.cons hclose (Token.known_of_bracket ⟨.round, false⟩ hr (by decide))
      intro x hx
      exact .plain (Token.not_asksNext_of_endsOperand hx)
        (Token.not_asksBefore (by simp [hr.1]) (Token.not_links (by simp [hr.1])))
    rw [List.cons_append, List.append_assoc]
    have hcalls : l.CallsForOperand := Or.inr (Or.inr (Or.inl hl))
    exact (ih hbehind).cons hcalls (Token.known_of_bracket ⟨.round, true⟩ hl (by decide))
      fun x hx => beside_operand hx hopen
  | term _ _ iha ihb =>
    rw [List.append_assoc]
    exact iha (ihb hts)
  | noFactors => exact hts
  | moreFactors ht _ _ iha ihb =>
    rw [List.cons_append, List.append_assoc]
    rcases ht with ht | ht
    · exact hsign .star ht (by simp [Token.CallsForOperand, ht]) rfl (iha (ihb hts))
    · exact hsign .slash ht (by simp [Token.CallsForOperand, ht]) rfl (iha (ihb hts))
  | expression _ _ iha ihb =>
    rw [List.append_assoc]
    exact iha (ihb hts)
  | noTerms => exact hts
  | moreTerms ht _ _ iha ihb =>
    rw [List.cons_append, List.append_assoc]
    rcases ht with ht | ht
    · exact hsign .plus ht (by simp [Token.CallsForOperand, ht]) rfl (iha (ihb hts))
    · exact hsign .minus ht (by simp [Token.CallsForOperand, ht]) rfl (iha (ihb hts))

namespace Phrase

def Before : Phrase → Token → Prop
  | .program | .statement => Token.Bounds
  | .declarator => fun t => t.Spells .keyword "let"
  | .block => fun t => ¬t.AsksNext
  | .alternative => fun t => t.Spells .bracket "\x7d"
  | .initializer | .body | .terminator => fun t => t.endsOperand

/-- With which tokens a part of a program ends. If it is empty, it stands behind one of them. -/
def After : Phrase → Token → Prop
  | .program => Token.Bounds
  | .statement | .declarator | .body | .terminator => Token.EndsStatement
  | .block | .alternative => fun t => t.Spells .bracket "\x7d"
  | .initializer => fun t => t.endsOperand

end Phrase

section Derivations

variable {p : Token → Prop} {t : Token} {ts : List Token}

theorem leads_keyword (k : Keyword) (ht : t.Spells .keyword k.spelling)
    (hk : k.usage = .statement) (h : Leads (fun x => x.Spells .keyword k.spelling) ts) :
    Leads Token.Bounds (t :: ts) := by
  have hstarts : t.startsStatement := by
    simp [Token.startsStatement, Token.keyword?_eq_some_iff.mpr ht, hk]
  apply h.cons ht (Token.known_of_keyword k ht (by rw [hk]; decide))
  intro x hx
  exact beside_bounds hx (Or.inl hstarts)

/-- A bracket, a name or an equals sign asks for nothing on either side. -/
theorem leads_plain (h : Leads (· = t) ts) (ht : t.category ≠ .keyword) (hlinks : ¬t.Links)
    (hknown : t.Known) (hp : ∀ x, p x → ¬x.AsksNext) : Leads p (t :: ts) :=
  h.cons rfl hknown fun x hx => .plain (hp x hx) (Token.not_asksBefore ht hlinks)

theorem leads_bracket (b : Bracket) (ht : t.Spells .bracket b.spelling) (hb : b.shape ≠ .square)
    (h : Leads (fun x => x.Spells .bracket b.spelling) ts) (hp : ∀ x, p x → ¬x.AsksNext) :
    Leads p (t :: ts) := by
  have hbehind : Leads (· = t) ts := h.mono fun x hx => hx ▸ ht
  exact leads_plain hbehind (by simp [ht.1]) (Token.not_links (by simp [ht.1]))
    (Token.known_of_bracket b ht hb) hp

theorem leads_name (ht : t.category = .identifier) (h : Leads (fun x => x.endsOperand) ts)
    (hp : ∀ x, p x → ¬x.AsksNext) : Leads p (t :: ts) := by
  have hends : t.endsOperand := by simp [Token.endsOperand, ht]
  have hbehind : Leads (· = t) ts := h.mono fun x hx => hx ▸ hends
  exact leads_plain hbehind (by simp [ht]) (Token.not_links (by simp [ht]))
    (Token.known_of_leaf (Or.inr ht)) hp

theorem leads_assign (ht : t.Spells .operator "=") (h : Leads Token.CallsForOperand ts)
    (hp : ∀ x, p x → ¬x.AsksNext) : Leads p (t :: ts) := by
  have hbehind : Leads (· = t) ts := h.mono fun x hx => Or.inr (Or.inl (hx ▸ ht))
  exact leads_plain hbehind (by simp [ht.1]) (Token.not_links_assign ht)
    (Token.known_of_operator .assign ht (by decide)) hp

/-- A word that stands where only it can stand, with a name or a block behind it. -/
theorem leads_word (k : Keyword) (ht : t.Spells .keyword k.spelling) (hk : k ≠ .letWord)
    (husage : k.usage ≠ .reserved) (h : Leads (fun x => ¬x.AsksNext) ts)
    (hbeside : ∀ x, p x → Beside x t) : Leads p (t :: ts) :=
  h.cons (Token.not_asksNext_of_keyword k ht hk) (Token.known_of_keyword k ht husage) hbeside

theorem not_asksNext_of_bracket (b : Bracket) (x : Token) (hx : x.Spells .bracket b.spelling) :
    ¬x.AsksNext :=
  Token.not_asksNext (by simp [hx.1]) (Token.not_links (by simp [hx.1]))

end Derivations

/-- A part of a program can follow what such parts follow, if the tokens behind it can follow what
it ends with. -/
theorem Derives.leads {phrase : Phrase} {s s₁ : NameSet} {a : List Token}
    (h : Derives phrase s a s₁) {ts : List Token} (hts : Leads phrase.After ts) :
    Leads phrase.Before (a ++ ts) := by
  have hends (x : Token) (hx : x.endsOperand) : ¬x.AsksNext := Token.not_asksNext_of_endsOperand hx
  -- Each part leads up to the next one; an empty part hands on what is behind it.
  induction h generalizing ts with
  | noStatements => exact hts
  | statements _ _ iha ihb =>
    rw [List.append_assoc]
    exact iha ((ihb hts).mono fun x hx => hx.bounds)
  | declaration ht _ ih => exact leads_keyword .letWord ht rfl (ih hts)
  | @conditional _ _ _ t l r a b c ht hl ha hr _ _ ihb ihc =>
    -- From the last part to the first, each one stands in front of what was put together before.
    have hbody : Leads (fun x => x.Spells .bracket ")") (b ++ (c ++ ts)) := by
      have hafter := hts.mono fun x (hx : x.Spells .bracket "\x7d") => Or.inr (Or.inr hx)
      exact (ihb (ihc hafter)).mono (not_asksNext_of_bracket ⟨.round, false⟩)
    have hclose := leads_bracket ⟨.round, false⟩ hr (by decide) hbody hends
    have hcondition := (ha.leads hclose).mono fun x (hx : x.Spells .bracket "(") =>
      Or.inr (Or.inr (Or.inl hx))
    have hopen := leads_bracket ⟨.round, true⟩ hl (by decide) hcondition
      fun x (hx : x.Spells .keyword "if") => Token.not_asksNext_of_keyword .ifWord hx (by decide)
    simp only [List.cons_append, List.append_assoc]
    exact leads_keyword .ifWord ht rfl hopen
  | returns ht ha _ ihb =>
    rw [List.cons_append, List.append_assoc]
    exact leads_keyword .returnWord ht rfl ((ha.leads (ihb hts)).mono fun x hx => Or.inl hx)
  | @assignment _ _ t u a b ht _ hu ha _ ihb =>
    have hstarts : t.startsStatement := by simp [Token.startsStatement, ht]
    have hsign : Leads (fun x => x.endsOperand) (u :: (a ++ (b ++ ts))) :=
      leads_assign hu (ha.leads (ihb hts)) hends
    simp only [List.cons_append, List.append_assoc]
    exact hsign.cons (by simp [Token.endsOperand, ht]) (Token.known_of_leaf (Or.inr ht))
      fun x hx => beside_bounds hx (Or.inl hstarts)
  | @letVariable _ _ _ t u a b ht hu _ _ iha ihb =>
    have hword : t.keyword? = some .variableWord := Token.keyword?_eq_some_iff.mpr ht
    have hname := leads_name hu (iha (ihb hts)) fun x hx => hx
    simp only [List.cons_append, List.append_assoc]
    apply leads_word .variableWord ht (by decide) (by decide) hname
    intro x hx
    exact .declares (Token.keyword?_eq_some_iff.mpr hx) hword rfl
  | @letFunction _ _ t u l r a ht hu hl hr _ iha =>
    have hword : t.keyword? = some .functionWord := Token.keyword?_eq_some_iff.mpr ht
    have hbody : Leads (fun x => x.Spells .bracket ")") (a ++ ts) :=
      (iha hts).mono fun x hx => Bool.or_eq_true_iff.mpr (Or.inr ((x.isBracket_iff _).mpr hx))
    have hclose := leads_bracket ⟨.round, false⟩ hr (by decide) hbody
      (not_asksNext_of_bracket ⟨.round, true⟩)
    have hopen := leads_bracket ⟨.round, true⟩ hl (by decide) hclose hends
    simp only [List.cons_append]
    apply leads_word .functionWord ht (by decide) (by decide) (leads_name hu hopen fun x hx => hx)
    intro x hx
    exact .declares (Token.keyword?_eq_some_iff.mpr hx) hword rfl
  | @block _ _ l r a hl _ hr ih =>
    have hclose : Leads Token.Bounds (r :: ts) := by
      apply hts.cons hr (Token.known_of_bracket ⟨.curly, false⟩ hr (by decide))
      exact fun x hx => beside_bounds hx (Or.inr hr)
    have hinside := (ih hclose).mono fun x (hx : x.Spells .bracket "\x7b") =>
      Or.inr (Or.inr (Or.inl hx))
    rw [List.cons_append, List.append_assoc]
    exact leads_bracket ⟨.curly, true⟩ hl (by decide) hinside fun x hx => hx
  | noInitializer => exact hts
  | initializer ht ha => exact leads_assign ht (ha.leads hts) hends
  | noBody => exact hts.mono fun x hx => Or.inl hx
  | body _ ih => exact (ih (hts.mono fun x hx => Or.inr (Or.inr hx))).mono hends
  | noAlternative => exact hts
  | @alternative _ _ t a ht _ ih =>
    have hword : t.keyword? = some .elseWord := Token.keyword?_eq_some_iff.mpr ht
    apply leads_word .elseWord ht (by decide) (by decide) (ih hts)
    intro x hx
    exact .continues (Token.bracket?_eq_some_iff.mpr hx) hword rfl
  | noTerminator => exact hts.mono fun x hx => Or.inl hx
  | terminator ht =>
    apply hts.cons (Or.inr (Or.inl ht)) (Token.known_of_operator .semicolon ht (by decide))
    intro x hx
    exact .operator hx ⟨.semicolon, Token.operator?_eq_some_iff.mpr ht, Or.inr rfl⟩

section Inversion

variable {t u : Token}

/-- The cases in which a token asks for something in front of it. -/
theorem Beside.of_asksBefore (h : Beside t u) (hu : u.AsksBefore) :
    (t.keyword? = some .letWord ∧ ∃ k, u.keyword? = some k ∧ k.usage = .declarator) ∨
      (t.bracket? = some Goal.closeBrace ∧ ∃ k, u.keyword? = some k ∧ k.usage = .clause) ∨
      (t.endsOperand ∧ u.Links) := by
  -- Of the six ways to stand side by side, three are for a token that asks for nothing before it.
  cases h with
  | plain _ hplain => exact absurd hu hplain
  | declares ht hword hk => exact Or.inl ⟨ht, _, hword, hk⟩
  | continues ht hword hk => exact Or.inr (Or.inl ⟨ht, _, hword, hk⟩)
  | operator ht hlinks => exact Or.inr (Or.inr ⟨ht, hlinks⟩)
  | operand _ _ hstarts =>
    obtain ⟨hk, ho⟩ := Token.category_of_startsOperand hstarts
    exact absurd hu (Token.not_asksBefore hk (Token.not_links ho))
  | statement _ hnext =>
    rcases hnext with hstarts | hclose
    · exact absurd hu (Token.not_asksBefore_of_startsStatement hstarts)
    · have hc := Token.category_of_bracket? hclose
      exact absurd hu (Token.not_asksBefore (by simp [hc]) (Token.not_links (by simp [hc])))

/-- The cases in which a token asks for something behind it. -/
theorem Beside.of_asksNext (h : Beside t u) (ht : t.AsksNext) :
    (t.keyword? = some .letWord ∧ ∃ k, u.keyword? = some k ∧ k.usage = .declarator) ∨
      (∃ o, t.operator? = some o ∧ o.level?.isSome ∧ u.startsOperand) ∨
      (t.operator? = some .semicolon ∧
        (u.startsStatement ∨ u.bracket? = some Goal.closeBrace)) := by
  cases h with
  | plain hplain _ => exact absurd ht hplain
  | declares hlet hword hk => exact Or.inl ⟨hlet, _, hword, hk⟩
  | continues hclose _ _ =>
    have hc := Token.category_of_bracket? hclose
    exact absurd ht (Token.not_asksNext (by simp [hc]) (Token.not_links (by simp [hc])))
  | operator hends _ => exact absurd ht (Token.not_asksNext_of_endsOperand hends)
  | operand hsign ho hstarts => exact Or.inr (Or.inl ⟨_, hsign, ho, hstarts⟩)
  | statement hsign hnext => exact Or.inr (Or.inr ⟨hsign, hnext⟩)

end Inversion

section Places

variable {tokens : List Token} {t : Token} {i : Nat}

/-- In a chain between two tokens, each token has a neighbour on both sides. -/
theorem exists_neighbours {R : Token → Token → Prop} {x z : Token} {ts : List Token}
    (h : (x :: (ts ++ [z])).IsChain R) (ht : ts[i]? = some t) : ∃ l r, R l t ∧ R t r ∧
      (before? ts i = some l ∨ i = 0 ∧ l = x) ∧ (ts[i + 1]? = some r ∨ r = z) := by
  -- The head of the list becomes the left end of the rest.
  induction ts generalizing x i with
  | nil => cases ht
  | cons a ts ih =>
    rw [List.cons_append, List.isChain_cons_cons] at h
    cases i with
    | zero =>
      obtain rfl : a = t := Option.some.inj ht
      cases ts with
      | nil => exact ⟨x, z, h.1, (List.isChain_cons_cons.mp h.2).1, Or.inr ⟨rfl, rfl⟩, Or.inr rfl⟩
      | cons b ts =>
        exact ⟨x, b, h.1, (List.isChain_cons_cons.mp h.2).1, Or.inr ⟨rfl, rfl⟩, Or.inl rfl⟩
    | succ i =>
      obtain ⟨l, r, hl, hr, hbefore, hafter⟩ := ih h.2 ht
      refine ⟨l, r, hl, hr, Or.inl ?_, hafter⟩
      rcases hbefore with hbefore | ⟨rfl, rfl⟩
      · cases i with
        | zero => cases hbefore
        | succ i => exact hbefore
      · rfl

/-- An accepted token list can stand between braces. -/
theorem exists_beside (h : (parse tokens).error? = none) (ht : tokens[i]? = some t) :
    t.Known ∧ ∃ l r, Beside l t ∧ Beside t r ∧
      (before? tokens i = some l ∨ l.bracket? = some Goal.openBrace) ∧
      (tokens[i + 1]? = some r ∨ r.bracket? = some Goal.closeBrace) := by
  -- With a brace on both sides, every token of the list has two neighbours.
  have hclose : Leads Token.Bounds [.spelled .bracket "\x7d"] := by
    intro x hx
    refine List.isChain_pair.mpr ⟨beside_bounds hx (Or.inr ⟨rfl, rfl⟩), ?_⟩
    exact Token.known_of_bracket ⟨.curly, false⟩ ⟨rfl, rfl⟩ (by decide)
  have hchain := (derives_of_parse h).leads hclose (.spelled .bracket "\x7b")
    (Or.inr (Or.inr (Or.inl ⟨rfl, rfl⟩)))
  obtain ⟨l, r, hl, hr, hbefore, hafter⟩ := exists_neighbours hchain ht
  refine ⟨hl.2, l, r, hl.1, hr.1, hbefore.imp_right ?_, hafter.imp_right ?_⟩
  · rintro ⟨-, rfl⟩
    decide
  · rintro rfl
    decide

/-- A word of an accepted list has a place in the grammar, and stands there. -/
theorem keyword_of_parse (h : (parse tokens).error? = none) (ht : tokens[i]? = some t)
    (hkeyword : t.category = .keyword) : ∃ k, t.keyword? = some k ∧ k.usage ≠ .reserved ∧
      (k.usage = .declarator → ∃ l, before? tokens i = some l ∧ l.keyword? = some .letWord) ∧
      (k = .letWord → ∃ d k', tokens[i + 1]? = some d ∧ d.keyword? = some k' ∧
        k'.usage = .declarator) ∧
      (k.usage = .clause → ∃ l, before? tokens i = some l ∧
        l.bracket? = some Goal.closeBrace) := by
  obtain ⟨hknown, l, r, hl, hr, hbefore, hafter⟩ := exists_beside h ht
  rw [Token.Known, hkeyword] at hknown
  obtain ⟨k, hk, husage⟩ := hknown
  -- A neighbour that is asked for is none of the two braces that were put around the list.
  have hlinks : ¬t.Links := Token.not_links (by simp [hkeyword])
  refine ⟨k, hk, husage, ?declarator, ?letWord, ?clause⟩
  case declarator =>
    intro hdeclarator
    rcases hl.of_asksBefore (Or.inl ⟨k, hk, Or.inl hdeclarator⟩) with
      ⟨hlet, -⟩ | ⟨-, k', hk', hclause⟩ | ⟨-, hlinked⟩
    · refine ⟨l, hbefore.resolve_right fun hopen => ?_, hlet⟩
      have hcategory := Token.category_of_bracket? hopen
      rw [Token.category_of_keyword? hlet] at hcategory
      cases hcategory
    · obtain rfl := Option.some.inj (hk.symm.trans hk')
      rw [hdeclarator] at hclause
      cases hclause
    · exact absurd hlinked hlinks
  case letWord =>
    rintro rfl
    rcases hr.of_asksNext (Or.inl hk) with ⟨-, k', hk', hdeclarator⟩ | ⟨o, ho, -⟩ | ⟨ho, -⟩
    · refine ⟨r, k', hafter.resolve_right fun hclose => ?_, hk', hdeclarator⟩
      have hcategory := Token.category_of_bracket? hclose
      rw [Token.category_of_keyword? hk'] at hcategory
      cases hcategory
    · rw [Token.category_of_operator? ho] at hkeyword
      cases hkeyword
    · rw [Token.category_of_operator? ho] at hkeyword
      cases hkeyword
  case clause =>
    intro hclause
    rcases hl.of_asksBefore (Or.inl ⟨k, hk, Or.inr hclause⟩) with
      ⟨-, k', hk', hdeclarator⟩ | ⟨hclose, -⟩ | ⟨-, hlinked⟩
    · obtain rfl := Option.some.inj (hk.symm.trans hk')
      rw [hclause] at hdeclarator
      cases hdeclarator
    · refine ⟨l, hbefore.resolve_right fun hopen => ?_, hclose⟩
      rw [hclose] at hopen
      exact absurd (Option.some.inj hopen) (by decide)
    · exact absurd hlinked hlinks

/-- An operator of an accepted list ends a statement, gives a value or stands between operands. -/
theorem operator_of_parse (h : (parse tokens).error? = none) (ht : tokens[i]? = some t)
    (hoperator : t.category = .operator) : ∃ o, t.operator? = some o ∧
      (o = .assign ∨ o = .semicolon ∨ o.level?.isSome ∧ ∃ l r, before? tokens i = some l ∧
        tokens[i + 1]? = some r ∧ l.endsOperand ∧ r.startsOperand) := by
  obtain ⟨hknown, l, r, hl, hr, hbefore, hafter⟩ := exists_beside h ht
  rw [Token.Known, hoperator] at hknown
  obtain ⟨o, ho, hassign | hsemicolon | hlevel⟩ := hknown
  · exact ⟨o, ho, Or.inl hassign⟩
  · exact ⟨o, ho, Or.inr (Or.inl hsemicolon)⟩
  refine ⟨o, ho, Or.inr (Or.inr ⟨hlevel, l, r, ?_⟩)⟩
  have hlinks : t.Links := ⟨o, ho, Or.inl hlevel⟩
  have hleft : l.endsOperand := by
    rcases hl.of_asksBefore (Or.inr hlinks) with ⟨-, k, hk, -⟩ | ⟨-, k, hk, -⟩ | ⟨hends, -⟩
    · rw [Token.category_of_keyword? hk] at hoperator
      cases hoperator
    · rw [Token.category_of_keyword? hk] at hoperator
      cases hoperator
    · exact hends
  have hright : r.startsOperand := by
    rcases hr.of_asksNext (Or.inr hlinks) with ⟨hlet, -⟩ | ⟨-, -, -, hstarts⟩ | ⟨hsign, -⟩
    · rw [Token.category_of_keyword? hlet] at hoperator
      cases hoperator
    · exact hstarts
    · obtain rfl := Option.some.inj (ho.symm.trans hsign)
      cases hlevel
  -- The braces around the list neither end nor start an operand.
  refine ⟨hbefore.resolve_right fun hopen => ?_, hafter.resolve_right fun hclose => ?_, hleft,
    hright⟩
  · simp [Token.endsOperand, Token.isBracket_eq, hopen, Token.category_of_bracket? hopen,
      Goal.openBrace] at hleft
  · simp [Token.startsOperand, Token.isBracket_eq, hclose, Token.category_of_bracket? hclose,
      Goal.closeBrace, Goal.openBrace, Bracket.partner] at hright

end Places

end Gloss
