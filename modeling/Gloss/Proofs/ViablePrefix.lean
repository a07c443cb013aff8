import Gloss.Proofs.Exactness

/-! A goal that demands a declared name is only ever first in line, right behind the name that it is
about. All other goals can be met, so what was read before an error can be completed to a program.
-/
namespace Gloss

namespace Goal

variable {g : Goal} {gs gs₁ n : List Goal} {s s₁ : NameSet} {t : Token} {p ts : List Token}
  {last : Bool} {e : SyntaxError}

def isPlain : Goal → Bool
  | .statement | .declared _ => false
  | _ => true

/-- All that can be left by a token which starts no statement. -/
def remainders : List (List Goal) :=
  let operand : List (List Goal) := [[], [.expression, .token (.ofBracket closeParenthesis)]]
  operand ++ operand.map (· ++ [.moreFactors]) ++ operand.map (· ++ [.moreFactors, .moreTerms]) ++
    [[.term, .moreTerms], [.factor, .moreFactors], [.expression], [.restOfBlock], block,
      [.newVariable, .initializer, .terminator],
      [.token .name, .token (.ofBracket openParenthesis), .token (.ofBracket closeParenthesis),
        .optionalBlock]]

theorem remainder_of_afterOperandStart (h : afterOperandStart t = .ok n) :
    n ∈ remainders ∧ n ++ [.moreFactors] ∈ remainders ∧
      n ++ [.moreFactors, .moreTerms] ∈ remainders := by
  rcases of_afterOperandStart h with ⟨-, rfl⟩ | ⟨-, rfl⟩ <;> decide

theorem plain_of_mem_remainders (h : n ∈ remainders) : n.all isPlain := by
  revert n
  decide

/-- The ways in which a goal can read a token: it declares its text, starts a statement by it, to be
followed by more in a loop, or leaves one of the other remainders. -/
inductive ReadsOn (s : NameSet) (t : Token) (last : Bool) : Goal → NameSet → List Goal → Prop where
  | declares (h : t.category = .identifier) : ReadsOn s t last .newVariable (s.insert t.text) []
  | starts (n : List Goal) (h : afterFirst t last = .ok n) : ReadsOn s t last .statement s n
  | startsOne (loop : Goal) (n : List Goal) (hloop : loop = .statements ∨ loop = .restOfBlock)
      (h : afterFirst t last = .ok n) : ReadsOn s t last loop s (n ++ [loop])
  | leaves (g : Goal) (n : List Goal) (hg : g ≠ .newVariable) (h : n ∈ remainders) :
      ReadsOn s t last g s n

theorem readsOn_of_offer (h : g.offer s t last = .reads s₁ n) : ReadsOn s t last g s₁ n := by
  -- Of all goals only `declared` never reads a token.
  cases g with
  | statements =>
    obtain ⟨m, hm, rfl, rfl⟩ := ofExcept_eq_reads_iff.mp h
    exact .startsOne _ m (Or.inl rfl) hm
  | statement =>
    obtain ⟨m, hm, rfl, rfl⟩ := ofExcept_eq_reads_iff.mp h
    rw [List.append_nil]
    exact .starts m hm
  | restOfBlock =>
    rw [offer] at h
    split at h
    · obtain ⟨rfl, rfl⟩ := Reply.reads.inj h
      exact .leaves _ _ (by simp) (by decide)
    · obtain ⟨m, hm, rfl, rfl⟩ := ofExcept_eq_reads_iff.mp h
      exact .startsOne _ m (Or.inr rfl) hm
  | expression =>
    obtain ⟨m, hm, rfl, rfl⟩ := ofExcept_eq_reads_iff.mp h
    exact .leaves _ _ (by simp) (remainder_of_afterOperandStart hm).2.2
  | term =>
    obtain ⟨m, hm, rfl, rfl⟩ := ofExcept_eq_reads_iff.mp h
    exact .leaves _ _ (by simp) (remainder_of_afterOperandStart hm).2.1
  | factor =>
    obtain ⟨m, hm, rfl, rfl⟩ := ofExcept_eq_reads_iff.mp h
    rw [List.append_nil]
    exact .leaves _ _ (by simp) (remainder_of_afterOperandStart hm).1
  | initializer | optionalBlock | alternative | terminator | moreTerms | moreFactors =>
    obtain ⟨-, rfl, rfl⟩ := readIf_eq_reads_iff.mp h
    exact .leaves _ _ (by simp) (by decide)
  | token wanted =>
    rw [offer] at h
    split at h
    · obtain ⟨rfl, rfl⟩ := Reply.reads.inj h
      exact .leaves _ _ (by simp) (by decide)
    · cases h
  | newVariable =>
    rw [offer] at h
    split at h
    · next hname =>
      obtain ⟨rfl, rfl⟩ := Reply.reads.inj h
      exact .declares (Expectation.admits_name.mp hname)
    · cases h
  | declared target =>
    rw [offer] at h
    split at h <;> cases h
  | declarator =>
    -- Either word leaves what it declares; any other token is refused.
    rw [offer] at h
    split at h
    · obtain ⟨rfl, rfl⟩ := Reply.reads.inj h
      exact .leaves _ _ (by simp) (by decide)
    · obtain ⟨rfl, rfl⟩ := Reply.reads.inj h
      exact .leaves _ _ (by simp) (by decide)
    · cases h

def Clear (gs : List Goal) : Prop := ∀ u, .declared u ∉ gs

theorem Clear.tail (h : Clear gs) : Clear gs.tail := fun u hu => h u (List.mem_of_mem_tail hu)

theorem Clear.append (h : Clear n) (hgs : Clear gs) : Clear (n ++ gs) := by
  intro u hu
  rcases List.mem_append.mp hu with hu | hu
  · exact h u hu
  · exact hgs u hu

theorem Clear.behind {hs : List Goal} (h : Clear (hs ++ g :: gs).tail) : Clear gs := by
  intro u hu
  apply h u
  cases hs with
  | nil => exact hu
  | cons g' hs => exact List.mem_append_right hs (List.mem_cons_of_mem g hu)

/-- Only the name that starts an assignment leaves such a demand, and never as the last token. -/
theorem clear_of_afterFirst (h : afterFirst t last = .ok n) (hgs : Clear gs) :
    Clear (n ++ gs) ∨ last = false ∧ ∃ m, n ++ gs = .declared t :: m ∧ Clear m := by
  rcases of_afterFirst h with ⟨-, rfl⟩ | ⟨-, rfl⟩ | ⟨-, rfl⟩ | ⟨-, hlast, rfl⟩
  · exact Or.inl (Clear.append (by simp [Clear]) hgs)
  · exact Or.inl (Clear.append (by simp [Clear, block]) hgs)
  · exact Or.inl (Clear.append (by simp [Clear]) hgs)
  · exact Or.inr ⟨hlast, _, rfl, Clear.append (by simp [Clear]) hgs⟩

theorem clear_of_plain (h : n.all isPlain) : Clear n := by
  intro u hu
  exact absurd (List.all_eq_true.mp h (.declared u) hu) Bool.false_ne_true

/-- A demanded name comes first, right behind the token that it is about. -/
theorem clear_of_reads (h : g.offer s t last = .reads s₁ n) :
    Clear n ∨ last = false ∧ ∃ m, n = .declared t :: m ∧ Clear m := by
  cases readsOn_of_offer h with
  | declares => exact Or.inl (by simp [Clear])
  | starts _ hm =>
    have hnil : Clear [] := by simp [Clear]
    have hfirst := clear_of_afterFirst hm hnil
    rwa [List.append_nil] at hfirst
  | startsOne _ _ hloop hm =>
    have hclear : Clear [g] := by rcases hloop with rfl | rfl <;> simp [Clear]
    exact clear_of_afterFirst hm hclear
  | leaves _ _ _ hn => exact Or.inl (clear_of_plain (plain_of_mem_remainders hn))

/-- The demand for a declared name is the first goal, and about the token just read. -/
theorem clear_of_read (hgs : Clear gs.tail) (h : offerAll s t last gs = .read s₁ gs₁) :
    Clear gs₁ ∨ last = false ∧ ∃ m, gs₁ = .declared t :: m ∧ Clear m := by
  obtain ⟨hs, g, gs₂, n, rfl, -, hg, rfl⟩ := of_offerAll_read h
  have hrest : Clear gs₂ := hgs.behind
  rcases clear_of_reads hg with hn | ⟨hlast, m, rfl, hm⟩
  · exact Or.inl (hn.append hrest)
  · exact Or.inr ⟨hlast, m ++ gs₂, rfl, hm.append hrest⟩

theorem Reads.clear_tail (h : Reads gs s p gs₁ s₁) (hgs : Clear gs.tail) : Clear gs₁.tail := by
  induction h with
  | nil => exact hgs
  | cons hoffer _ ih =>
    apply ih
    rcases clear_of_read hgs hoffer with hclear | ⟨-, m, rfl, hm⟩
    · exact hclear.tail
    · exact hm

theorem of_afterFirst_error (h : afterFirst t last = .error e) :
    e = .unknownKeyword t ∨ e = .unexpectedToken t := by
  unfold afterFirst at h
  split at h
  · split at h
    case h_4 => exact Or.inl (Except.error.inj h).symm
    all_goals cases h
  · split at h
    · exact Or.inr (Except.error.inj h).symm
    · cases h
  all_goals exact Or.inr (Except.error.inj h).symm

theorem of_afterOperandStart_error (h : afterOperandStart t = .error e) :
    e = .invalidExpression t := by
  unfold afterOperandStart at h
  split at h
  · exact (Except.error.inj h).symm
  · split at h <;> cases h

inductive FailsOn (s : NameSet) (t : Token) (last : Bool) : Goal → SyntaxError → Prop where
  | first (g : Goal) (e : SyntaxError) (hg : g = .statements ∨ g = .statement ∨ g = .restOfBlock)
      (h : afterFirst t last = .error e) : FailsOn s t last g e
  | operand (g : Goal) (e : SyntaxError) (hg : g = .expression ∨ g = .term ∨ g = .factor)
      (h : afterOperandStart t = .error e) : FailsOn s t last g e
  | token (wanted : Expectation) (h : ¬wanted.admits t) :
      FailsOn s t last (.token wanted) (.expectedToken wanted t)
  | newVariable (h : ¬Expectation.name.admits t) :
      FailsOn s t last .newVariable (.expectedToken .name t)
  | declared (target : Token) (h : target.text ∉ s) :
      FailsOn s t last (.declared target) (.undeclaredVariable target)
  | declarator (hvariable : t.keyword? ≠ some .variableWord)
      (hfunction : t.keyword? ≠ some .functionWord) :
      FailsOn s t last .declarator (.expectedDeclarator t)

theorem failsOn_of_offer (h : g.offer s t last = .fails e) : FailsOn s t last g e := by
  cases g with
  | statements => exact .first _ _ (Or.inl rfl) (ofExcept_eq_fails_iff.mp h)
  | statement => exact .first _ _ (Or.inr (Or.inl rfl)) (ofExcept_eq_fails_iff.mp h)
  | restOfBlock =>
    rw [offer] at h
    split at h
    · cases h
    · exact .first _ _ (Or.inr (Or.inr rfl)) (ofExcept_eq_fails_iff.mp h)
  | expression => exact .operand _ _ (Or.inl rfl) (ofExcept_eq_fails_iff.mp h)
  | term => exact .operand _ _ (Or.inr (Or.inl rfl)) (ofExcept_eq_fails_iff.mp h)
  | factor => exact .operand _ _ (Or.inr (Or.inr rfl)) (ofExcept_eq_fails_iff.mp h)
  | token wanted =>
    rw [offer] at h
    split at h
    · cases h
    · next hwanted =>
      obtain rfl := Reply.fails.inj h
      exact .token wanted hwanted
  | newVariable =>
    rw [offer] at h
    split at h
    · cases h
    · next hname =>
      obtain rfl := Reply.fails.inj h
      exact .newVariable hname
  | declared target =>
    rw [offer] at h
    split at h
    · cases h
    · next hdecl =>
      obtain rfl := Reply.fails.inj h
      exact .declared target hdecl
  | declarator =>
    rw [offer] at h
    split at h
    case h_3 hvariable hfunction =>
      obtain rfl := Reply.fails.inj h
      exact .declarator hvariable hfunction
    all_goals cases h
  -- What may be missing never fails, but leaves the token.
  | initializer | optionalBlock | alternative | terminator | moreTerms | moreFactors =>
    rw [offer, Reply.readIf] at h
    split at h <;> cases h

/-- A goal fails on the token that it is offered, or on a name that is not declared. -/
theorem of_offer_fails (h : g.offer s t last = .fails e) :
    (e.token? = some t ∧ e.kind ≠ .undeclaredVariable) ∨
      ∃ u, g = .declared u ∧ e = .undeclaredVariable u ∧ u.text ∉ s := by
  cases failsOn_of_offer h with
  | first _ _ _ herror =>
    rcases of_afterFirst_error herror with rfl | rfl <;>
      exact Or.inl ⟨rfl, by simp [SyntaxError.kind]⟩
  | operand _ _ _ herror =>
    obtain rfl := of_afterOperandStart_error herror
    exact Or.inl ⟨rfl, by simp [SyntaxError.kind]⟩
  | token | newVariable | declarator => exact Or.inl ⟨rfl, by simp [SyntaxError.kind]⟩
  | declared target hdecl => exact Or.inr ⟨target, rfl, rfl, hdecl⟩

theorem offerAll_undeclared {u : Token} (hu : u.text ∉ s) :
    offerAll s t last (.declared u :: gs) = .failed (.undeclaredVariable u) := by
  rw [offerAll, offer, if_neg hu]

/-- If goals fail on a name that is not declared, it is the one that the first of them is about. -/
theorem of_offerAll_undeclared {u : Token} (hgs : Clear gs.tail)
    (h : offerAll s t last gs = .failed (.undeclaredVariable u)) :
    u.text ∉ s ∧ ∃ m, gs = .declared u :: m := by
  obtain ⟨hs, g, gs₂, rfl, -, hg⟩ := of_offerAll_failed h
  rcases of_offer_fails hg with ⟨-, hkind⟩ | ⟨v, rfl, hv, hdecl⟩
  · exact absurd rfl hkind
  · -- Behind the first goal there is no such demand.
    obtain rfl := SyntaxError.undeclaredVariable.inj hv
    cases hs with
    | nil => exact ⟨hdecl, gs₂, rfl⟩
    | cons h hs => exact absurd (List.mem_append_right hs List.mem_cons_self) (hgs u)

theorem of_missing (h : g.missing? s = some e) : (∃ wanted, e = .endOfInput wanted) ∨
    ∃ u, g = .declared u ∧ e = .undeclaredVariable u ∧ u.text ∉ s := by
  cases g with
  | declared u =>
    rw [missing?] at h
    split at h
    · cases h
    · next hdecl => exact Or.inr ⟨u, rfl, (Option.some.inj h).symm, hdecl⟩
  | token | restOfBlock | newVariable | statement | declarator | expression | term | factor =>
    exact Or.inl ⟨_, (Option.some.inj h).symm⟩
  | _ => cases h

/-- At the end of input, a demand for a declared name has never been left behind. -/
theorem exists_endOfInput (hgs : Clear gs.tail) (hts : ts = [] → Clear gs)
    (hunread : (meet gs s ts).unread = []) (he : (meet gs s ts).error? = some e) :
    ∃ wanted, e = .endOfInput wanted := by
  -- The induction is on what is unread: the last token leaves no demand, so `hts` holds again.
  induction ts generalizing gs s with
  | nil =>
    obtain ⟨g, hg, hmissing⟩ := List.exists_of_findSome?_eq_some he
    rcases of_missing hmissing with hend | ⟨u, rfl, -, -⟩
    · exact hend
    · exact absurd hg (hts rfl u)
  | cons t ts ih =>
    cases hoffer : offerAll s t ts.isEmpty gs with
    | read s₁ gs₁ =>
      have hmeet : meet gs s (t :: ts) = meet gs₁ s₁ ts := by rw [meet, hoffer]
      rw [hmeet] at hunread he
      rcases clear_of_read hgs hoffer with hclear | ⟨hlast, m, rfl, hm⟩
      · exact ih hclear.tail (fun _ => hclear) hunread he
      · have htail : Clear (Goal.declared t :: m).tail := hm
        refine ih htail (fun hnil => ?_) hunread he
        rw [hnil] at hlast
        cases hlast
    | met =>
      have hmeet : meet gs s (t :: ts) = ⟨⟨t :: ts, s⟩, none⟩ := by rw [meet, hoffer]
      rw [hmeet] at hunread
      cases hunread
    | failed e =>
      have hmeet : meet gs s (t :: ts) = ⟨⟨t :: ts, s⟩, some e⟩ := by rw [meet, hoffer]
      rw [hmeet] at hunread
      cases hunread

end Goal

def Token.spelled (c : Category) (text : String) : Token := ⟨⟨0, 0⟩, text, c⟩

theorem forms_literal : Forms .expression [.spelled .literal "0"] :=
  .expression (.term (.literal rfl) .noFactors) .noTerms

namespace Goal

variable {g : Goal} {gs gs₁ n : List Goal} {s s₁ : NameSet} {t : Token} {p ts : List Token}
  {last : Bool} {e : SyntaxError}

/-- Every goal but the demand for a declared name can be met. -/
theorem exists_yields (s : NameSet) (hg : ∀ u, g ≠ .declared u) : ∃ ts s₁, g.Yields s ts s₁ := by
  have hmissing (h : g.missing? s = none) : ∃ ts s₁, g.Yields s ts s₁ :=
    ⟨[], s, yields_of_missing h⟩
  -- For each goal some tokens that meet it; what may be missing needs none.
  cases g with
  | declared u => exact absurd rfl (hg u)
  | statement =>
    have hreturn : (Token.spelled .keyword "return").Spells .keyword "return" := ⟨rfl, rfl⟩
    exact ⟨_, s, .returns hreturn forms_literal .noTerminator⟩
  | restOfBlock => exact ⟨_, s, [], .spelled .bracket "\x7d", rfl, .noStatements, rfl, rfl⟩
  | token wanted =>
    refine ⟨_, s, .spelled wanted.category (wanted.text.getD ""), rfl, ?_, rfl⟩
    cases h : wanted.text <;> simp [Expectation.admits, Token.spelled, h]
  | newVariable => exact ⟨_, _, .spelled .identifier "x", rfl, rfl, rfl⟩
  | declarator =>
    have hword : (Token.spelled .keyword "variable").Spells .keyword "variable" := ⟨rfl, rfl⟩
    have hname : (Token.spelled .identifier "x").category = .identifier := rfl
    exact ⟨_, _, .letVariable hword hname .noInitializer .noTerminator⟩
  | expression => exact ⟨_, s, forms_literal, rfl⟩
  | term => exact ⟨_, s, .term (.literal (t := .spelled .literal "0") rfl) .noFactors, rfl⟩
  | factor => exact ⟨_, s, .literal (t := .spelled .literal "0") rfl, rfl⟩
  | _ => exact hmissing rfl

/-- Goals that demand no declared name can all be met. -/
theorem exists_allYield (s : NameSet) (hgs : Clear gs) : ∃ ts s₁, AllYield s ts s₁ gs := by
  induction gs generalizing s with
  | nil => exact ⟨[], s, rfl, rfl⟩
  | cons g gs ih =>
    have hg : ∀ u, g ≠ .declared u := fun u hu => hgs u (hu ▸ List.mem_cons_self)
    obtain ⟨a, s₁, ha⟩ := exists_yields s hg
    obtain ⟨b, s₂, hb⟩ := ih s₁ hgs.tail
    exact ⟨a ++ b, s₂, a, b, s₁, rfl, ha, hb⟩

/-- What has been read can be completed to a program, unless a name that is not declared has just
been read as the target of an assignment. -/
theorem exists_completion (h : Reads [.statements] ∅ p gs s)
    (hhead : ∀ u m, gs = .declared u :: m → u.text ∈ s) :
    ∃ more, (parse (p ++ more)).error? = none := by
  have htail : Clear gs.tail := h.clear_tail (by simp [Clear])
  have hyield : ∃ ts s₁, AllYield s ts s₁ gs := by
    cases gs with
    | nil => exact ⟨[], s, rfl, rfl⟩
    | cons g gs =>
      -- The first goal may demand that a name be declared, which the names read so far decide.
      obtain ⟨b, s₂, hb⟩ := exists_allYield s htail
      by_cases hg : ∃ u, g = .declared u
      · obtain ⟨u, rfl⟩ := hg
        exact ⟨b, s₂, [], b, s, rfl, ⟨rfl, hhead u gs rfl, rfl⟩, hb⟩
      · have hg' : ∀ u, g ≠ .declared u := fun u hu => hg ⟨u, hu⟩
        refine exists_allYield s fun u hu => ?_
        rcases List.mem_cons.mp hu with rfl | hu
        · exact hg' u rfl
        · exact htail u hu
  obtain ⟨more, s₁, hmore⟩ := hyield
  obtain ⟨a, _, _, hp, ha, rfl, rfl⟩ := h.allYield hmore
  refine ⟨more, ?_⟩
  rw [hp, List.append_nil, parse_of_derives ha]

end Goal

def Progress.position (tokens : List Token) (p : Progress) : Nat :=
  tokens.length - p.unread.length

/-- The index of the token that an error is about: the next one to be read, or the one before it
if that is the undeclared target of an assignment. -/
def Verdict.errorIndex (tokens : List Token) (v : Verdict) : Nat :=
  match v.error? with
  | some (.undeclaredVariable _) => v.position tokens - 1
  | _ => v.position tokens

theorem position_eq {tokens p : List Token} {v : Progress} (h : tokens = p ++ v.unread) :
    v.position tokens = p.length := by
  have hlength := congrArg List.length h
  rw [List.length_append] at hlength
  rw [Progress.position]
  omega

theorem errorIndex_eq {tokens : List Token} {v : Verdict} {e : SyntaxError}
    (h : v.error? = some e) : v.errorIndex tokens =
      if e.kind = .undeclaredVariable then v.position tokens - 1 else v.position tokens := by
  rw [Verdict.errorIndex, h]
  cases e <;> rfl

namespace Goal

variable {gs gs₁ : List Goal} {s s₁ : NameSet} {t : Token} {p more : List Token} {last : Bool}
  {e : SyntaxError}

/-- A token that goals fail on is refused whatever follows it, save a name that ends the input. -/
theorem offerAll_failed_mono (h : offerAll s t last gs = .failed e)
    (hlast : last = true → ¬(e = .unexpectedToken t ∧ t.category = .identifier)) (last' : Bool) :
    offerAll s t last' gs = .failed e := by
  rcases offerAll_last gs s t with hsame | ⟨hc, htrue, m, hfalse⟩
  · cases last <;> cases last' <;> first | exact h | exact hsame.trans h | exact hsame.symm.trans h
  · cases last with
    | true =>
      obtain rfl := Replies.failed.inj (htrue.symm.trans h)
      exact absurd ⟨rfl, hc⟩ (hlast rfl)
    | false => cases (hfalse.symm.trans h)

theorem clear_start : Clear [Goal.statements] := by simp [Clear]

/-- The two ways to stop at a token: the goals fail on it, or they read it as the target of an
assignment and then fail on its name. -/
def Refuses (gs : List Goal) (s : NameSet) (t : Token) (last : Bool) (e : SyntaxError) : Prop :=
  (e.kind ≠ .undeclaredVariable ∧ offerAll s t last gs = .failed e) ∨
    (e = .undeclaredVariable t ∧ ∃ s₁ m,
      offerAll s t false gs = .read s₁ (.declared t :: m) ∧ t.text ∉ s₁)

/-- A token at an error is refused behind what was read before it. -/
theorem exists_refuses {tokens : List Token} (h : (parse tokens).error? = some e)
    (htoken : e.token? ≠ none) : ∃ p t r gs s, Reads [.statements] ∅ p gs s ∧
      tokens = p ++ t :: r ∧ (parse tokens).errorIndex tokens = p.length ∧ e.token? = some t ∧
      Refuses gs s t r.isEmpty e := by
  have hmeet : (meet [.statements] ∅ tokens).error? = some e := h
  obtain ⟨p, gs, htokens, hreads, hhalts⟩ := exists_reads [.statements] ∅ tokens
  have hposition : (parse tokens).position tokens = p.length := position_eq htokens
  -- Where nothing is unread the error is about no token.
  cases hunread : (meet [.statements] ∅ tokens).unread with
  | nil =>
    obtain ⟨wanted, rfl⟩ := exists_endOfInput clear_start.tail (fun _ => clear_start) hunread hmeet
    exact absurd rfl htoken
  | cons t r =>
    rw [hunread, hmeet] at hhalts
    rw [hunread] at htokens
    rcases hhalts with ⟨-, hnone⟩ | ⟨e', hfail, he'⟩
    · cases hnone
    obtain rfl := Option.some.inj he'
    obtain ⟨hs, g, gs₂, -, -, hg⟩ := of_offerAll_failed hfail
    rcases of_offer_fails hg with ⟨htok, hkind⟩ | ⟨u, -, rfl, -⟩
    · refine ⟨p, t, r, gs, _, hreads, htokens, ?_, htok, Or.inl ⟨hkind, hfail⟩⟩
      rw [errorIndex_eq h, if_neg hkind, hposition]
    · -- The target is the token read last: at the start no goal demands a declared name.
      obtain ⟨hu, m, rfl⟩ := of_offerAll_undeclared (hreads.clear_tail clear_start.tail) hfail
      rcases List.eq_nil_or_concat p with rfl | ⟨p, u', rfl⟩
      · cases hreads
      · rw [List.concat_eq_append] at hreads htokens hposition
        obtain ⟨gs', s', hp, hread⟩ := hreads.of_append_singleton
        rcases clear_of_read (hp.clear_tail clear_start.tail) hread with hclear | ⟨-, m', hm', -⟩
        · exact absurd List.mem_cons_self (hclear u)
        · obtain rfl : u = u' := Goal.declared.inj (List.cons.inj hm').1
          have hrefuses : Refuses gs' s' u (t :: r).isEmpty (.undeclaredVariable u) :=
            Or.inr ⟨rfl, _, m, hread, hu⟩
          refine ⟨p, u, t :: r, gs', s', hp, by simp [htokens], ?_, rfl, hrefuses⟩
          rw [errorIndex_eq h, hposition, List.length_append]
          rfl

/-- Goals that refuse a token could have gone on before it. -/
theorem exists_completion_of_refuses (h : Reads [.statements] ∅ p gs s)
    (ht : Refuses gs s t last e) : ∃ more, (parse (p ++ more)).error? = none := by
  apply exists_completion h
  rintro u m rfl
  by_cases hu : u.text ∈ s
  · exact hu
  · rcases ht with ⟨hkind, hfail⟩ | ⟨-, s₁, m', hread, -⟩
    · have he := Replies.failed.inj ((offerAll_undeclared hu).symm.trans hfail)
      exact absurd (congrArg SyntaxError.kind he).symm hkind
    · cases ((offerAll_undeclared hu).symm.trans hread)

/-- Goals that refuse a token do so whatever follows it. -/
theorem error_of_refuses (h : Reads [.statements] ∅ p gs s) (ht : Refuses gs s t last e)
    (hlast : last = true → ¬(e = .unexpectedToken t ∧ t.category = .identifier)) :
    (parse (p ++ t :: more)).error? =
      if e.kind = .undeclaredVariable ∧ more = [] then some (.unexpectedToken t) else some e := by
  have hmeet : parse (p ++ t :: more) = meet gs s (t :: more) :=
    meet_append h (List.cons_ne_nil t more)
  -- A token that is failed on stays so, a target is refused only if more follows.
  rcases ht with ⟨hkind, hfail⟩ | ⟨rfl, s₁, m, hread, hundeclared⟩
  · rw [hmeet, meet, offerAll_failed_mono hfail hlast, if_neg fun hboth => hkind hboth.1]
  · cases more with
    | nil =>
      -- As the last token it is not read: no goal may demand that its name be declared.
      rw [hmeet, meet, List.isEmpty_nil, if_pos ⟨rfl, rfl⟩]
      rcases offerAll_last gs s t with hsame | ⟨-, hfail, -⟩
      · rcases clear_of_read (h.clear_tail clear_start.tail) (hsame.trans hread) with
          hclear | ⟨hlast, -⟩
        · exact absurd List.mem_cons_self (hclear t)
        · cases hlast
      · rw [hfail]
    | cons u more =>
      rw [hmeet, meet, List.isEmpty_cons, hread,
        if_neg fun hboth => List.cons_ne_nil u more hboth.2]
      simp only [meet, offerAll_undeclared hundeclared]

/-- Goals that are not met at the end of input could have gone on there. -/
theorem exists_completion_of_endOfInput {tokens : List Token} {wanted : Wanted}
    (h : (parse tokens).error? = some (.endOfInput wanted)) :
    ∃ more, (parse (tokens ++ more)).error? = none := by
  have hmeet : (meet [.statements] ∅ tokens).error? = some (.endOfInput wanted) := h
  obtain ⟨p, gs, htokens, hreads, hhalts⟩ := exists_reads [.statements] ∅ tokens
  rw [hmeet] at hhalts
  cases hunread : (meet [.statements] ∅ tokens).unread with
  | nil =>
    rw [hunread] at hhalts htokens
    rw [htokens, List.append_nil]
    apply exists_completion hreads
    rintro u m rfl
    by_cases hu : u.text ∈ (meet [.statements] ∅ tokens).names
    · exact hu
    · rw [Halts, List.findSome?_cons, missing?, if_neg hu] at hhalts
      cases hhalts
  | cons t r =>
    rw [hunread] at hhalts
    rcases hhalts with ⟨-, hnone⟩ | ⟨e', hfail, he'⟩
    · cases hnone
    · obtain rfl := Option.some.inj he'
      obtain ⟨hs, g, gs₂, -, -, hg⟩ := of_offerAll_failed hfail
      rcases of_offer_fails hg with ⟨htok, -⟩ | ⟨u, -, hu, -⟩
      · cases htok
      · cases hu

end Goal

/-- An error is at the first token that is wrong: what stands before it is the beginning of a
program, and with it there is the same error whatever follows. At the end of input the whole list
is the beginning of a program. -/
theorem parse_error_is_first (tokens : List Token) (e : SyntaxError)
    (h : (parse tokens).error? = some e) :
    (e.token? = none → ∃ more, (parse (tokens ++ more)).error? = none) ∧
    ∀ t, e.token? = some t →
      tokens[(parse tokens).errorIndex tokens]? = some t ∧
      (∃ more, (parse (tokens.take ((parse tokens).errorIndex tokens) ++ more)).error? = none) ∧
      (¬(e = .unexpectedToken t ∧ t.category = .identifier ∧
          (parse tokens).errorIndex tokens + 1 = tokens.length) →
        ∀ more, (parse (tokens.take ((parse tokens).errorIndex tokens + 1) ++ more)).error? =
          if e.kind = .undeclaredVariable ∧ more = [] then some (.unexpectedToken t)
          else some e) := by
  refine ⟨fun htoken => ?_, fun t ht => ?_⟩
  · cases e with
    | endOfInput wanted => exact Goal.exists_completion_of_endOfInput h
    | _ => cases htoken
  · -- What was read before the token is `p`, and the goals left there refuse it.
    obtain ⟨p, t', r, gs, s, hreads, htokens, hindex, htok, hrefuses⟩ :=
      Goal.exists_refuses h (by rw [ht]; exact nofun)
    obtain rfl := Option.some.inj (htok.symm.trans ht)
    have hget : tokens[p.length]? = some t' := by simp [htokens]
    have hbefore : tokens.take p.length = p := by simp [htokens]
    have hupto : tokens.take (p.length + 1) = p ++ [t'] := by
      rw [List.take_add_one, hget, hbefore]
      rfl
    rw [hindex, hbefore, hupto]
    refine ⟨hget, Goal.exists_completion_of_refuses hreads hrefuses, fun hlast more => ?_⟩
    rw [List.append_assoc, List.singleton_append]
    refine Goal.error_of_refuses hreads hrefuses fun hempty hname => hlast ⟨hname.1, hname.2, ?_⟩
    rw [htokens, List.isEmpty_iff.mp hempty, List.length_append]
    rfl

/-- In a block, an assignment to a name that was never declared. -/
theorem parse_error_is_first_in_block :
    let block := [.spelled .keyword "if", .spelled .bracket "(", .spelled .identifier "a",
      .spelled .bracket ")", .spelled .bracket "\x7b"]
    let target : Token := .spelled .identifier "y"
    let tokens := block ++ [target, .spelled .operator "=", .spelled .literal "1"]
    (parse tokens).error? = some (.undeclaredVariable target) ∧
      (∃ more, (parse (block ++ more)).error? = none) ∧
      ∀ more, (parse (block ++ [target] ++ more)).error? =
        if more = [] then some (.unexpectedToken target)
        else some (.undeclaredVariable target) := by
  intro block target tokens
  have h : (parse tokens).error? = some (.undeclaredVariable target) := by decide
  have hindex : (parse tokens).errorIndex tokens = block.length := by decide
  obtain ⟨-, hprefix, herror⟩ := (parse_error_is_first tokens _ h).2 target rfl
  rw [hindex] at hprefix herror
  refine ⟨h, hprefix, fun more => (herror nofun more).trans ?_⟩
  simp [SyntaxError.kind]

end Gloss
