import Gloss.Proofs.Neighbours

namespace Gloss

/-- Leaves any semicolons out of a list of tokens, and nothing else. -/
inductive Erases : List Token → List Token → Prop where
  | nil : Erases [] []
  | keep {t : Token} {a b : List Token} (h : Erases a b) : Erases (t :: a) (t :: b)
  | erase {t : Token} {a b : List Token} (ht : t.Spells .operator ";") (h : Erases a b) :
      Erases (t :: a) b

section Erases

variable {t : Token} {a b c : List Token} {k : Category} {text : String}

theorem not_semicolon_of_category (ht : t.category ≠ .operator) : ¬t.Spells .operator ";" :=
  fun h => ht h.1

theorem not_semicolon_of_spells (ht : t.Spells k text) (hother : (k, text) ≠ (.operator, ";")) :
    ¬t.Spells .operator ";" := by
  rintro ⟨hoperator, hsemicolon⟩
  apply hother
  rw [← ht.1, ← ht.2, hoperator, hsemicolon]

theorem Erases.eq_nil (h : Erases [] b) : b = [] := by
  cases h
  rfl

/-- Any other token stays. -/
theorem Erases.of_cons (h : Erases (t :: a) c) (ht : ¬t.Spells .operator ";") :
    ∃ b, c = t :: b ∧ Erases a b := by
  cases h with
  | keep h => exact ⟨_, rfl, h⟩
  | erase hsemicolon _ => exact absurd hsemicolon ht

theorem Erases.of_spells (h : Erases (t :: a) c) (ht : t.Spells k text)
    (hother : (k, text) ≠ (.operator, ";")) : ∃ b, c = t :: b ∧ Erases a b :=
  h.of_cons (not_semicolon_of_spells ht hother)

theorem Erases.of_append (h : Erases (a ++ b) c) :
    ∃ a' b', c = a' ++ b' ∧ Erases a a' ∧ Erases b b' := by
  induction a generalizing c with
  | nil => exact ⟨[], c, rfl, .nil, h⟩
  | cons t a ih =>
    cases h with
    | keep h =>
      obtain ⟨a', b', rfl, ha, hb⟩ := ih h
      exact ⟨t :: a', b', rfl, .keep ha, hb⟩
    | erase ht h =>
      obtain ⟨a', b', rfl, ha, hb⟩ := ih h
      exact ⟨a', b', rfl, .erase ht ha, hb⟩

theorem Erases.eq_of_none (h : Erases a b) (ha : ∀ t ∈ a, ¬t.Spells .operator ";") : b = a := by
  induction h with
  | nil => rfl
  | keep _ ih => rw [ih (List.forall_mem_cons.mp ha).2]
  | erase ht _ _ => exact absurd ht (List.forall_mem_cons.mp ha).1

end Erases

/-- No part of an expression has a semicolon. -/
theorem Forms.not_semicolon {part : ExpressionPart} {a : List Token} (h : Forms part a) :
    ∀ t ∈ a, ¬t.Spells .operator ";" := by
  induction h with
  | literal ht | name ht =>
    exact List.forall_mem_singleton.mpr (not_semicolon_of_category (by simp [ht]))
  | parenthesized hl _ hr ih =>
    have hopen := not_semicolon_of_spells hl (by decide)
    have hclose := not_semicolon_of_spells hr (by decide)
    exact List.forall_mem_cons.mpr ⟨hopen,
      List.forall_mem_append.mpr ⟨ih, List.forall_mem_singleton.mpr hclose⟩⟩
  | term _ _ iha ihb | expression _ _ iha ihb => exact List.forall_mem_append.mpr ⟨iha, ihb⟩
  | noFactors | noTerms => exact nofun
  | moreFactors ht _ _ iha ihb | moreTerms ht _ _ iha ihb =>
    refine List.forall_mem_cons.mpr ⟨?_, List.forall_mem_append.mpr ⟨iha, ihb⟩⟩
    rcases ht with ht | ht <;> exact not_semicolon_of_spells ht (by decide)

/-- Only behind an expression can there be something to erase. -/
theorem Erases.of_forms {part : ExpressionPart} {a b c : List Token} (h : Erases (a ++ b) c)
    (hform : Forms part a) : ∃ b', c = a ++ b' ∧ Erases b b' := by
  obtain ⟨a', b', rfl, ha, hb⟩ := h.of_append
  obtain rfl := ha.eq_of_none hform.not_semicolon
  exact ⟨b', rfl, hb⟩

/-- Without some of its semicolons a part of a program is still such a part, and declares the same
names. -/
theorem Derives.erase {phrase : Phrase} {s s₁ : NameSet} {a d : List Token}
    (h : Derives phrase s a s₁) (hd : Erases a d) : Derives phrase s d s₁ := by
  -- Every part but the terminator is taken apart token by token, and keeps each of them.
  induction h generalizing d with
  | noStatements =>
    obtain rfl := hd.eq_nil
    exact .noStatements
  | statements _ _ iha ihb =>
    obtain ⟨a, b, rfl, ha, hb⟩ := hd.of_append
    exact .statements (iha ha) (ihb hb)
  | declaration ht _ ih =>
    obtain ⟨a, rfl, ha⟩ := hd.of_spells ht (by decide)
    exact .declaration ht (ih ha)
  | conditional ht hl hform hr _ _ ihb ihc =>
    obtain ⟨d₁, rfl, hd₁⟩ := hd.of_spells ht (by decide)
    obtain ⟨d₂, rfl, hd₂⟩ := hd₁.of_spells hl (by decide)
    obtain ⟨d₃, rfl, hd₃⟩ := hd₂.of_forms hform
    obtain ⟨d₄, rfl, hd₄⟩ := hd₃.of_spells hr (by decide)
    obtain ⟨b, c, rfl, hb, hc⟩ := hd₄.of_append
    exact .conditional ht hl hform hr (ihb hb) (ihc hc)
  | returns ht hform _ ihb =>
    obtain ⟨d₁, rfl, hd₁⟩ := hd.of_spells ht (by decide)
    obtain ⟨b, rfl, hb⟩ := hd₁.of_forms hform
    exact .returns ht hform (ihb hb)
  | assignment ht hdecl hu hform _ ihb =>
    obtain ⟨d₁, rfl, hd₁⟩ := hd.of_cons (not_semicolon_of_category (by simp [ht]))
    obtain ⟨d₂, rfl, hd₂⟩ := hd₁.of_spells hu (by decide)
    obtain ⟨b, rfl, hb⟩ := hd₂.of_forms hform
    exact .assignment ht hdecl hu hform (ihb hb)
  | letVariable ht hu _ _ iha ihb =>
    obtain ⟨d₁, rfl, hd₁⟩ := hd.of_spells ht (by decide)
    obtain ⟨d₂, rfl, hd₂⟩ := hd₁.of_cons (not_semicolon_of_category (by simp [hu]))
    obtain ⟨a, b, rfl, ha, hb⟩ := hd₂.of_append
    exact .letVariable ht hu (iha ha) (ihb hb)
  | letFunction ht hu hl hr _ ih =>
    obtain ⟨d₁, rfl, hd₁⟩ := hd.of_spells ht (by decide)
    obtain ⟨d₂, rfl, hd₂⟩ := hd₁.of_cons (not_semicolon_of_category (by simp [hu]))
    obtain ⟨d₃, rfl, hd₃⟩ := hd₂.of_spells hl (by decide)
    obtain ⟨a, rfl, ha⟩ := hd₃.of_spells hr (by decide)
    exact .letFunction ht hu hl hr (ih ha)
  | block hl _ hr ih =>
    obtain ⟨d₁, rfl, hd₁⟩ := hd.of_spells hl (by decide)
    obtain ⟨a, d₂, rfl, ha, hd₂⟩ := hd₁.of_append
    obtain ⟨d₃, rfl, hd₃⟩ := hd₂.of_spells hr (by decide)
    obtain rfl := hd₃.eq_nil
    exact .block hl (ih ha) hr
  | noInitializer =>
    obtain rfl := hd.eq_nil
    exact .noInitializer
  | initializer ht hform =>
    obtain ⟨value, rfl, ha⟩ := hd.of_spells ht (by decide)
    obtain rfl := ha.eq_of_none hform.not_semicolon
    exact .initializer ht hform
  | noBody =>
    obtain rfl := hd.eq_nil
    exact .noBody
  | body _ ih => exact .body (ih hd)
  | noAlternative =>
    obtain rfl := hd.eq_nil
    exact .noAlternative
  | alternative ht _ ih =>
    obtain ⟨a, rfl, ha⟩ := hd.of_spells ht (by decide)
    exact .alternative ht (ih ha)
  | noTerminator =>
    obtain rfl := hd.eq_nil
    exact .noTerminator
  | terminator ht =>
    cases hd with
    | keep h =>
      obtain rfl := h.eq_nil
      exact .terminator ht
    | erase _ h =>
      obtain rfl := h.eq_nil
      exact .noTerminator

section Places

variable {tokens : List Token} {t u : Token} {i : Nat}

/-- Two tokens of an accepted list that follow each other can do so. -/
theorem beside_of_parse (h : (parse tokens).error? = none) (ht : tokens[i]? = some t)
    (hu : tokens[i + 1]? = some u) : Beside t u := by
  have hend : Leads Token.Bounds [] := fun x _ => List.isChain_singleton x
  have hchain := (derives_of_parse h).leads hend (.spelled .bracket "\x7b")
    (Or.inr (Or.inr (Or.inl ⟨rfl, rfl⟩)))
  rw [List.append_nil] at hchain
  obtain ⟨hi, rfl⟩ := List.getElem?_eq_some_iff.mp ht
  obtain ⟨hi', rfl⟩ := List.getElem?_eq_some_iff.mp hu
  exact (List.isChain_iff_getElem.mp hchain.tail i hi').1

theorem startsStatement_iff : t.startsStatement ↔ t.Spells .keyword "let" ∨ t.Spells .keyword "if" ∨
    t.Spells .keyword "return" ∨ t.category = .identifier := by
  have hword (k : Keyword) : t.keyword? = some k ↔ t.Spells .keyword k.spelling :=
    Token.keyword?_eq_some_iff
  have hlet := hword .letWord
  have hif := hword .ifWord
  have hreturn := hword .returnWord
  simp only [Keyword.spelling] at hlet hif hreturn
  rw [← hlet, ← hif, ← hreturn, Token.startsStatement, Bool.or_eq_true, decide_eq_true_eq]
  cases t.keyword? with
  | none => simp
  | some k => cases k <;> simp [Keyword.usage]

theorem endsOperand_iff : t.endsOperand ↔
    t.category = .literal ∨ t.category = .identifier ∨ t.Spells .bracket ")" := by
  have hclose : t.isBracket ⟨.round, false⟩ ↔ t.Spells .bracket ")" := t.isBracket_iff _
  rw [Token.endsOperand, Bool.or_eq_true, Bool.or_eq_true, decide_eq_true_eq, decide_eq_true_eq,
    hclose, or_assoc]

/-- The tokens on both sides of a semicolon. -/
theorem semicolon_of_parse (h : (parse tokens).error? = none) (ht : tokens[i]? = some t)
    (hsemicolon : t.Spells .operator ";") :
    (∃ l, before? tokens i = some l ∧ l.endsOperand) ∧
      ∀ r, tokens[i + 1]? = some r → r.startsStatement ∨ r.Spells .bracket "\x7d" := by
  have hsign : t.operator? = some .semicolon := Token.operator?_eq_some_iff.mpr hsemicolon
  have hlinks : t.Links := ⟨.semicolon, hsign, Or.inr rfl⟩
  have hkeyword {k : Keyword} : t.keyword? ≠ some k := by
    rw [Token.keyword?_of_category (by simp [hsemicolon.1])]
    exact nofun
  constructor
  · obtain ⟨-, l, -, hl, -, hbefore, -⟩ := exists_beside h ht
    rcases hl.of_asksBefore (Or.inr hlinks) with ⟨-, k, hk, -⟩ | ⟨-, k, hk, -⟩ | ⟨hends, -⟩
    · exact absurd hk hkeyword
    · exact absurd hk hkeyword
    · refine ⟨l, hbefore.resolve_right fun hopen => ?_, hends⟩
      -- No operand ends with the brace in front of the list.
      simp [Token.endsOperand, Token.isBracket_eq, hopen, Token.category_of_bracket? hopen,
        Goal.openBrace] at hends
  · intro r hr
    rcases (beside_of_parse h ht hr).of_asksNext (Or.inr hlinks) with
      ⟨hlet, -⟩ | ⟨o, ho, hlevel, -⟩ | ⟨-, hnext⟩
    · exact absurd hlet hkeyword
    · obtain rfl := Option.some.inj (hsign.symm.trans ho)
      cases hlevel
    · exact hnext.imp_right Token.bracket?_eq_some_iff.mp

end Places

/-- Whatever semicolons are erased from an accepted list, it is still accepted and declares the same
names. Each semicolon of such a list stands behind a literal, a name or a closing parenthesis, and
is the last token or stands in front of a closing brace or of what starts a statement. -/
theorem semicolons_erasable (tokens : List Token) (h : (parse tokens).error? = none) :
    (∀ rest, Erases tokens rest → parse rest = ⟨⟨[], (parse tokens).names⟩, none⟩) ∧
    ∀ i t, tokens[i]? = some t → t.Spells .operator ";" →
      (i + 1 = tokens.length ∨ ∃ r, tokens[i + 1]? = some r ∧
        (r.Spells .bracket "\x7d" ∨ r.Spells .keyword "let" ∨ r.Spells .keyword "if" ∨
          r.Spells .keyword "return" ∨ r.category = .identifier)) ∧
      ∃ l, before? tokens i = some l ∧
        (l.category = .literal ∨ l.category = .identifier ∨ l.Spells .bracket ")") := by
  refine ⟨fun rest hrest => parse_of_derives ((derives_of_parse h).erase hrest), ?_⟩
  -- What stands beside a terminator is known from the neighbours in a derivation.
  intro i t ht hsemicolon
  obtain ⟨⟨l, hl, hends⟩, hnext⟩ := semicolon_of_parse h ht hsemicolon
  refine ⟨?_, l, hl, endsOperand_iff.mp hends⟩
  cases hr : tokens[i + 1]? with
  | none =>
    have hlast := List.getElem?_eq_none_iff.mp hr
    have hinside := (List.getElem?_eq_some_iff.mp ht).1
    exact Or.inl (by omega)
  | some r =>
    refine Or.inr ⟨r, rfl, ?_⟩
    rcases hnext r hr with hstarts | hclose
    · exact Or.inr (startsStatement_iff.mp hstarts)
    · exact Or.inl hclose

/-- Three semicolons, of which the first and the last are erased; the other one ends a block. -/
theorem semicolons_erasable_in_block :
    let semicolon := Token.spelled .operator ";"
    let first := [.spelled .keyword "let", .spelled .keyword "variable", .spelled .identifier "a"]
    let block := [.spelled .keyword "if", .spelled .bracket "(", .spelled .literal "1",
      .spelled .bracket ")", .spelled .bracket "\x7b", .spelled .identifier "a",
      .spelled .operator "=", .spelled .literal "2", semicolon, .spelled .bracket "\x7d"]
    let final := [.spelled .keyword "return", .spelled .identifier "a"]
    let tokens := first ++ semicolon :: (block ++ (final ++ [semicolon]))
    (parse tokens).error? = none ∧ tokens[12]? = some semicolon ∧
      parse (first ++ (block ++ final)) = ⟨⟨[], (parse tokens).names⟩, none⟩ ∧
      ∃ l, before? tokens 12 = some l ∧
        (l.category = .literal ∨ l.category = .identifier ∨ l.Spells .bracket ")") := by
  intro semicolon first block final tokens
  have haccepted : (parse tokens).error? = none := by decide +kernel
  obtain ⟨herases, hplaces⟩ := semicolons_erasable tokens haccepted
  have hsemicolon : semicolon.Spells .operator ";" := ⟨rfl, rfl⟩
  have hrest : Erases tokens (first ++ (block ++ final)) := by
    refine .keep (.keep (.keep (.erase hsemicolon ?_)))
    repeat' apply Erases.keep
    exact .erase hsemicolon .nil
  exact ⟨haccepted, rfl, herases _ hrest, (hplaces 12 semicolon rfl hsemicolon).2⟩

end Gloss
