import Gloss.Proofs.Completeness
import Gloss.Proofs.Reading

namespace Gloss

/-- The token lists that meet a goal, with the names declared before and after. -/
def Goal.Yields (s : NameSet) (ts : List Token) (s₁ : NameSet) : Goal → Prop
  | .statements => Derives .program s ts s₁
  | .statement => Derives .statement s ts s₁
  | .restOfBlock => ∃ a r, ts = a ++ [r] ∧ Derives .program s a s₁ ∧ r.Spells .bracket "\x7d"
  | .token wanted => ∃ t, ts = [t] ∧ wanted.admits t ∧ s₁ = s
  | .newVariable => ∃ t, ts = [t] ∧ t.category = .identifier ∧ s₁ = s.insert t.text
  | .declared target => ts = [] ∧ target.text ∈ s ∧ s₁ = s
  | .declarator => Derives .declarator s ts s₁
  | .initializer => Derives .initializer s ts s₁
  | .optionalBlock => Derives .body s ts s₁
  | .alternative => Derives .alternative s ts s₁
  | .terminator => Derives .terminator s ts s₁
  | .expression => Forms .expression ts ∧ s₁ = s
  | .term => Forms .term ts ∧ s₁ = s
  | .factor => Forms .factor ts ∧ s₁ = s
  | .moreTerms => Forms .moreTerms ts ∧ s₁ = s
  | .moreFactors => Forms .moreFactors ts ∧ s₁ = s

def AllYield (s : NameSet) (ts : List Token) (s₂ : NameSet) : List Goal → Prop
  | [] => ts = [] ∧ s₂ = s
  | g :: gs => ∃ a b s₁, ts = a ++ b ∧ g.Yields s a s₁ ∧ AllYield s₁ b s₂ gs

namespace Goal

variable {g : Goal} {gs n : List Goal} {s s₁ s₂ : NameSet} {t : Token} {a ts : List Token}
  {last : Bool}

theorem allYield_append {hs : List Goal} : AllYield s ts s₂ (gs ++ hs) ↔
    ∃ a b s₁, ts = a ++ b ∧ AllYield s a s₁ gs ∧ AllYield s₁ b s₂ hs := by
  induction gs generalizing s ts with
  | nil =>
    constructor
    · intro h
      exact ⟨[], ts, s, rfl, ⟨rfl, rfl⟩, h⟩
    · rintro ⟨_, b, _, rfl, ⟨rfl, rfl⟩, h⟩
      exact h
  | cons g gs ih =>
    constructor
    · rintro ⟨a, b, s₁, rfl, hg, h⟩
      obtain ⟨b, c, s₃, rfl, hgs, hhs⟩ := ih.mp h
      exact ⟨a ++ b, c, s₃, (List.append_assoc ..).symm, ⟨a, b, s₁, rfl, hg, hgs⟩, hhs⟩
    · rintro ⟨_, c, s₃, rfl, ⟨a, b, s₁, rfl, hg, hgs⟩, hhs⟩
      exact ⟨a, b ++ c, s₁, List.append_assoc .., hg, ih.mpr ⟨b, c, s₃, rfl, hgs, hhs⟩⟩

/-- The demand for an entry is met by the tokens that spell it. -/
theorem yields_demand {α : Type} [DecidableEq α] {r : Register α} {x : α} :
    (Goal.token (r.demand x)).Yields s ts s₁ ↔
      ∃ t : Token, ts = [t] ∧ t.Spells r.category (r.spelling x) ∧ s₁ = s := by
  have hadmits (t : Token) : (r.demand x).admits t ↔ t.Spells r.category (r.spelling x) := by
    rw [r.admits_demand]
    exact r.spells_iff
  simp only [Yields, hadmits]

theorem yields_bracket {k : Bracket} :
    (Goal.token (.ofBracket k)).Yields s ts s₁ ↔
      ∃ t : Token, ts = [t] ∧ t.Spells .bracket k.spelling ∧ s₁ = s :=
  yields_demand

theorem yields_operator {o : Operator} :
    (Goal.token (.ofOperator o)).Yields s ts s₁ ↔
      ∃ t : Token, ts = [t] ∧ t.Spells .operator o.spelling ∧ s₁ = s :=
  yields_demand

theorem yields_name : (Goal.token .name).Yields s ts s₁ ↔
    ∃ t : Token, ts = [t] ∧ t.category = .identifier ∧ s₁ = s := by
  simp only [Yields, Expectation.admits_name]

theorem yields_block : AllYield s ts s₁ block ↔ Derives .block s ts s₁ := by
  constructor
  · rintro ⟨_, _, _, rfl, hl, _, _, _, rfl, ⟨a, r, rfl, ha, hr⟩, rfl, rfl⟩
    obtain ⟨l, rfl, hl', rfl⟩ := yields_bracket.mp hl
    simpa using Derives.block hl' ha hr
  · intro h
    cases h with
    | @block _ _ l r a hl ha hr =>
      refine ⟨[l], a ++ [r], s, rfl, yields_bracket.mpr ⟨l, rfl, hl, rfl⟩, a ++ [r], [], s₁, ?_, ?_⟩
      · simp
      · exact ⟨⟨a, r, rfl, ha, hr⟩, rfl, rfl⟩

/-- What is read after the first token of an operand completes the operand. -/
theorem forms_of_afterOperandStart (h : afterOperandStart t = .ok n) (hn : AllYield s a s₁ n) :
    Forms .factor (t :: a) ∧ s₁ = s := by
  rcases of_afterOperandStart h with ⟨ht | ht, rfl⟩ | ⟨ht, rfl⟩
  · obtain ⟨rfl, rfl⟩ := hn
    exact ⟨.literal ht, rfl⟩
  · obtain ⟨rfl, rfl⟩ := hn
    exact ⟨.name ht, rfl⟩
  · obtain ⟨a, _, _, rfl, ⟨ha, rfl⟩, _, _, _, rfl, hr, rfl, rfl⟩ := hn
    obtain ⟨r, rfl, hr', rfl⟩ := yields_bracket.mp hr
    exact ⟨by simpa using Forms.parenthesized ht ha hr', rfl⟩

/-- What is read after the first token of a statement completes the statement. -/
theorem derives_of_afterFirst (h : afterFirst t last = .ok n) (hn : AllYield s a s₁ n) :
    Derives .statement s (t :: a) s₁ := by
  -- One way to start a statement for each rule of the grammar.
  rcases of_afterFirst h with ⟨ht, rfl⟩ | ⟨ht, rfl⟩ | ⟨ht, rfl⟩ | ⟨ht, _, rfl⟩
  · obtain ⟨a, _, _, rfl, ha, rfl, rfl⟩ := hn
    simpa using Derives.declaration ht ha
  · obtain ⟨_, c, _, rfl, hn, hc⟩ := allYield_append.mp hn
    obtain ⟨_, b, _, rfl, hn, hb⟩ := allYield_append.mp hn
    obtain ⟨_, _, _, rfl, hl, a, _, _, rfl, ⟨ha, rfl⟩, _, _, _, rfl, hr, rfl, rfl⟩ := hn
    obtain ⟨l, rfl, hl', rfl⟩ := yields_bracket.mp hl
    obtain ⟨r, rfl, hr', rfl⟩ := yields_bracket.mp hr
    obtain ⟨c, _, _, rfl, hc', rfl, rfl⟩ := hc
    simpa using Derives.conditional ht hl' ha hr' (yields_block.mp hb) hc'
  · obtain ⟨a, _, _, rfl, ⟨ha, rfl⟩, b, _, _, rfl, hb, rfl, rfl⟩ := hn
    simpa using Derives.returns ht ha hb
  · obtain ⟨_, _, _, rfl, ⟨rfl, hdecl, rfl⟩, _, _, _, rfl, hu, a, _, _, rfl, ⟨ha, rfl⟩, b, _, _,
      rfl, hb, rfl, rfl⟩ := hn
    obtain ⟨u, rfl, hu', rfl⟩ := yields_operator.mp hu
    simpa using Derives.assignment ht hdecl hu' ha hb

/-- A token that a goal reads stands in front of what meets the goals left by it. -/
theorem yields_of_reads (h : g.offer s t last = .reads s₁ n) (hn : AllYield s₁ a s₂ n) :
    g.Yields s (t :: a) s₂ := by
  -- For each goal: what its remainder yields, with the token in front, is what the goal yields.
  cases g with
  | statements =>
    obtain ⟨m, hm, rfl, rfl⟩ := ofExcept_eq_reads_iff.mp h
    obtain ⟨a, _, s₃, rfl, hm', b, _, _, rfl, hb, rfl, rfl⟩ := allYield_append.mp hn
    simpa [Yields] using Derives.statements (derives_of_afterFirst hm hm') hb
  | statement =>
    obtain ⟨m, hm, rfl, rfl⟩ := ofExcept_eq_reads_iff.mp h
    exact derives_of_afterFirst hm (by simpa using hn)
  | restOfBlock =>
    rw [offer] at h
    split at h
    · next hclose =>
      obtain ⟨rfl, rfl⟩ := Reply.reads.inj h
      obtain ⟨rfl, rfl⟩ := hn
      exact ⟨[], t, rfl, .noStatements, (t.isBracket_iff _).mp hclose⟩
    · obtain ⟨m, hm, rfl, rfl⟩ := ofExcept_eq_reads_iff.mp h
      obtain ⟨a, _, s₃, rfl, hm', _, _, _, rfl, ⟨b, r, rfl, hb, hr⟩, rfl, rfl⟩ :=
        allYield_append.mp hn
      exact ⟨t :: (a ++ b), r, by simp, .statements (derives_of_afterFirst hm hm') hb, hr⟩
  | token wanted =>
    rw [offer] at h
    split at h
    · next hadmits =>
      obtain ⟨rfl, rfl⟩ := Reply.reads.inj h
      obtain ⟨rfl, rfl⟩ := hn
      exact ⟨t, rfl, hadmits, rfl⟩
    · cases h
  | newVariable =>
    rw [offer] at h
    split at h
    · next hadmits =>
      obtain ⟨rfl, rfl⟩ := Reply.reads.inj h
      obtain ⟨rfl, rfl⟩ := hn
      exact ⟨t, rfl, Expectation.admits_name.mp hadmits, rfl⟩
    · cases h
  | declared target =>
    rw [offer] at h
    split at h <;> cases h
  | declarator =>
    rw [offer] at h
    split at h
    · next hk =>
      obtain ⟨rfl, rfl⟩ := Reply.reads.inj h
      obtain ⟨_, _, _, rfl, ⟨u, rfl, hu, rfl⟩, a, _, _, rfl, ha, b, _, _, rfl, hb, rfl, rfl⟩ := hn
      simpa [Yields] using Derives.letVariable (Token.keyword?_eq_some_iff.mp hk) hu ha hb
    · next hk =>
      obtain ⟨rfl, rfl⟩ := Reply.reads.inj h
      obtain ⟨_, _, _, rfl, hu, _, _, _, rfl, hl, _, _, _, rfl, hr, a, _, _, rfl, ha, rfl, rfl⟩ :=
        hn
      obtain ⟨u, rfl, hu', rfl⟩ := yields_name.mp hu
      obtain ⟨l, rfl, hl', rfl⟩ := yields_bracket.mp hl
      obtain ⟨r, rfl, hr', rfl⟩ := yields_bracket.mp hr
      simpa [Yields] using
        Derives.letFunction (Token.keyword?_eq_some_iff.mp hk) hu' hl' hr' ha
    · cases h
  | initializer =>
    obtain ⟨ht, rfl, rfl⟩ := readIf_eq_reads_iff.mp h
    obtain ⟨a, _, _, rfl, ⟨ha, rfl⟩, rfl, rfl⟩ := hn
    simpa [Yields] using Derives.initializer ((t.isOperator_iff _).mp ht) ha
  | optionalBlock =>
    obtain ⟨ht, rfl, rfl⟩ := readIf_eq_reads_iff.mp h
    obtain ⟨_, _, _, rfl, ⟨a, r, rfl, ha, hr⟩, rfl, rfl⟩ := hn
    simpa [Yields] using Derives.body (.block ((t.isBracket_iff _).mp ht) ha hr)
  | alternative =>
    obtain ⟨ht, rfl, rfl⟩ := readIf_eq_reads_iff.mp h
    exact Derives.alternative ((t.isKeyword_iff _).mp ht) (yields_block.mp hn)
  | terminator =>
    obtain ⟨ht, rfl, rfl⟩ := readIf_eq_reads_iff.mp h
    obtain ⟨rfl, rfl⟩ := hn
    exact Derives.terminator ((t.isOperator_iff _).mp ht)
  | expression =>
    obtain ⟨m, hm, rfl, rfl⟩ := ofExcept_eq_reads_iff.mp h
    -- An expression is a factor, more factors and more terms.
    obtain ⟨a, _, s₃, rfl, hm', b, _, _, rfl, ⟨hb, rfl⟩, c, _, _, rfl, ⟨hc, rfl⟩, rfl, rfl⟩ :=
      allYield_append.mp hn
    obtain ⟨hf, rfl⟩ := forms_of_afterOperandStart hm hm'
    exact ⟨by simpa using Forms.expression (.term hf hb) hc, rfl⟩
  | term =>
    obtain ⟨m, hm, rfl, rfl⟩ := ofExcept_eq_reads_iff.mp h
    obtain ⟨a, _, s₃, rfl, hm', b, _, _, rfl, ⟨hb, rfl⟩, rfl, rfl⟩ := allYield_append.mp hn
    obtain ⟨hf, rfl⟩ := forms_of_afterOperandStart hm hm'
    exact ⟨by simpa using Forms.term hf hb, rfl⟩
  | factor =>
    obtain ⟨m, hm, rfl, rfl⟩ := ofExcept_eq_reads_iff.mp h
    exact forms_of_afterOperandStart hm (by simpa using hn)
  | moreTerms =>
    obtain ⟨ht, rfl, rfl⟩ := readIf_eq_reads_iff.mp h
    obtain ⟨a, _, _, rfl, ⟨ha, rfl⟩, b, _, _, rfl, ⟨hb, rfl⟩, rfl, rfl⟩ := hn
    exact ⟨by simpa using Forms.moreTerms (Token.bindsAt_additive_iff.mp ht) ha hb, rfl⟩
  | moreFactors =>
    obtain ⟨ht, rfl, rfl⟩ := readIf_eq_reads_iff.mp h
    obtain ⟨a, _, _, rfl, ⟨ha, rfl⟩, b, _, _, rfl, ⟨hb, rfl⟩, rfl, rfl⟩ := hn
    exact ⟨by simpa using Forms.moreFactors (Token.bindsAt_multiplicative_iff.mp ht) ha hb, rfl⟩

theorem missing_of_leaves (h : g.offer s t last = .leaves) : g.missing? s = none := by
  cases g with
  | declared target =>
    rw [offer] at h
    split at h
    · next hdecl => exact if_pos hdecl
    · cases h
  | statements | statement | expression | term | factor => exact absurd h ofExcept_ne_leaves
  | restOfBlock =>
    rw [offer] at h
    split at h
    · cases h
    · exact absurd h ofExcept_ne_leaves
  | token | newVariable | declarator =>
    rw [offer] at h
    split at h <;> cases h
  | _ => rfl

theorem yields_of_missing (h : g.missing? s = none) : g.Yields s [] s := by
  cases g with
  | declared target =>
    by_cases hdecl : target.text ∈ s
    · exact ⟨rfl, hdecl, rfl⟩
    · cases ((if_neg hdecl).symm.trans h)
  | statements => exact .noStatements
  | initializer => exact .noInitializer
  | optionalBlock => exact .noBody
  | alternative => exact .noAlternative
  | terminator => exact .noTerminator
  | moreTerms => exact ⟨.noTerms, rfl⟩
  | moreFactors => exact ⟨.noFactors, rfl⟩
  | _ => cases h

theorem allYield_nil (h : ∀ g ∈ gs, g.missing? s = none) : AllYield s [] s gs := by
  induction gs with
  | nil => exact ⟨rfl, rfl⟩
  | cons g gs ih =>
    obtain ⟨hg, hgs⟩ := List.forall_mem_cons.mp h
    exact ⟨[], [], s, rfl, yields_of_missing hg, ih hgs⟩

theorem allYield_of_read (h : offerAll s t last gs = .read s₁ gs₁) (ha : AllYield s₁ a s₂ gs₁) :
    AllYield s (t :: a) s₂ gs := by
  obtain ⟨hs, g, gs₂, n, rfl, hleaves, hg, rfl⟩ := of_offerAll_read h
  obtain ⟨b, c, s₃, rfl, hn, hgs₂⟩ := allYield_append.mp ha
  -- The goals passed over are met by nothing.
  refine allYield_append.mpr ⟨[], t :: (b ++ c), s, rfl, ?_, t :: b, c, s₃, rfl, ?_, hgs₂⟩
  · exact allYield_nil fun g hg => missing_of_leaves (hleaves g hg)
  · exact yields_of_reads hg hn

/-- Tokens that were read stand in front of whatever meets the goals that are left. -/
theorem Reads.allYield (h : Reads gs s ts gs₁ s₁) (ha : AllYield s₁ a s₂ gs₁) :
    AllYield s (ts ++ a) s₂ gs := by
  induction h with
  | nil => exact ha
  | cons hoffer _ ih => exact allYield_of_read hoffer (ih ha)

/-- Goals that end a parse without an error ask for nothing more. -/
theorem Halts.missing (h : Halts gs s none ts) : ∀ g ∈ gs, g.missing? s = none := by
  intro g hg
  cases ts with
  | nil => exact List.findSome?_eq_none_iff.mp h.symm g hg
  | cons t ts =>
    rcases h with ⟨hmet, -⟩ | ⟨e, -, he⟩
    · exact missing_of_leaves (of_offerAll_met hmet g hg)
    · cases he

/-- One token read by the machine is one in front of a list that meets the goals left, so a parse
without an error has read lists that meet all goals. -/
theorem meet_sound (h : (meet gs s ts).error? = none) :
    ∃ p, ts = p ++ (meet gs s ts).unread ∧ AllYield s p (meet gs s ts).names gs := by
  obtain ⟨p, gs₁, hts, hreads, hhalts⟩ := exists_reads gs s ts
  rw [h] at hhalts
  have hyield := hreads.allYield (allYield_nil hhalts.missing)
  rw [List.append_nil] at hyield
  exact ⟨p, hts, hyield⟩

/-- The goal that reads statements to the end of input is never done with. -/
theorem Reads.statements_mem (h : Reads gs s ts gs₁ s₁) (hgs : .statements ∈ gs) :
    .statements ∈ gs₁ := by
  induction h with
  | nil => exact hgs
  | cons hoffer _ ih =>
    apply ih
    obtain ⟨hs, g, gs₂, n, rfl, hleaves, hg, rfl⟩ := of_offerAll_read hoffer
    -- That goal leaves no token to those behind it, and reading one it comes back.
    rcases List.mem_append.mp hgs with hmem | hmem
    · exact absurd (hleaves _ hmem) ofExcept_ne_leaves
    · rcases List.mem_cons.mp hmem with rfl | hmem
      · obtain ⟨m, -, -, rfl⟩ := ofExcept_eq_reads_iff.mp hg
        simp
      · exact List.mem_append_right _ hmem

/-- A program is read to its last token or to an error. -/
theorem unread_eq_nil (h : (meet gs s ts).error? = none) (hgs : .statements ∈ gs) :
    (meet gs s ts).unread = [] := by
  obtain ⟨p, gs₁, -, hreads, hhalts⟩ := exists_reads gs s ts
  cases hunread : (meet gs s ts).unread with
  | nil => rfl
  | cons t rest =>
    rw [h, hunread] at hhalts
    rcases hhalts with ⟨hmet, -⟩ | ⟨e, -, he⟩
    · exact absurd (of_offerAll_met hmet _ (hreads.statements_mem hgs)) ofExcept_ne_leaves
    · cases he

end Goal

variable {tokens : List Token} {names : NameSet}

/-- What is derivable is accepted, and declares the names of the derivation. -/
theorem parse_of_derives (h : Derives .program ∅ tokens names) :
    parse tokens = ⟨⟨[], names⟩, none⟩ := by
  have hmeets := Goal.meets_of_derives h [] (b := []) nofun .statements (Or.inl rfl)
  rw [List.append_nil] at hmeets
  exact hmeets

/-- What is accepted is derivable. -/
theorem derives_of_parse (h : (parse tokens).error? = none) :
    Derives .program ∅ tokens (parse tokens).names := by
  have hmeet : (Goal.meet [.statements] ∅ tokens).error? = none := h
  obtain ⟨p, htokens, a, b, s₁, hp, ha, hb, hnames⟩ := Goal.meet_sound hmeet
  have hunread := Goal.unread_eq_nil hmeet (List.mem_singleton.mpr rfl)
  have heq : tokens = a := by rw [htokens, hunread, hp, hb, List.append_nil, List.append_nil]
  rw [heq, parse, Progress.parse, Progress.start, ← heq, hnames, heq]
  exact ha

/-- A token list is accepted exactly if the grammar derives it as a program, from no names at all;
it is then read to its end, and the names at the end are those of every derivation. -/
theorem parse_accepts_iff_derives (tokens : List Token) :
    ((parse tokens).error? = none ↔ ∃ names, Derives .program ∅ tokens names) ∧
    ∀ names, parse tokens = ⟨⟨[], names⟩, none⟩ ↔ Derives .program ∅ tokens names := by
  refine ⟨⟨fun h => ⟨_, derives_of_parse h⟩, ?_⟩, fun names => ⟨?_, parse_of_derives⟩⟩
  · rintro ⟨names, h⟩
    rw [parse_of_derives h]
  · intro h
    have hnone : (parse tokens).error? = none := by rw [h]
    have hderives := derives_of_parse hnone
    rw [h] at hderives
    exact hderives

end Gloss
