import Gloss.Proofs.Names
import Gloss.Proofs.Resuming

namespace Gloss

theorem insert_union (s d : NameSet) (x : String) : (s ∪ d).insert x = s.insert x ∪ d := by
  apply Std.ExtTreeSet.ext_mem
  intro y
  simp only [Std.ExtTreeSet.mem_insert, Std.ExtTreeSet.mem_union_iff, or_assoc]

theorem mem_union_iff_of_imp {s d : NameSet} {x : String} (h : x ∈ d → x ∈ s) :
    x ∈ s ∪ d ↔ x ∈ s := by
  rw [Std.ExtTreeSet.mem_union_iff]
  exact or_iff_left_of_imp h

namespace Goal

def Reply.widen (d : NameSet) : Reply → Reply
  | reads s next => reads (s ∪ d) next
  | leaves => leaves
  | fails e => fails e

def Replies.widen (d : NameSet) : Replies → Replies
  | read s goals => read (s ∪ d) goals
  | met => met
  | failed e => failed e

variable {g : Goal} {gs gs₁ n : List Goal} {s s₁ d : NameSet} {t : Token} {p ts : List Token}
  {last : Bool}

theorem widen_ofExcept {more : List Goal} {x : Except SyntaxError (List Goal)} :
    Reply.ofExcept (s ∪ d) more x = (Reply.ofExcept s more x).widen d := by
  cases x <;> rfl

theorem widen_readIf {wanted : Bool} :
    Reply.readIf wanted (s ∪ d) n = (Reply.readIf wanted s n).widen d := by
  cases wanted <;> rfl

/-- More declared names change nothing for a goal, unless it demands one of them. -/
theorem offer_union (h : ∀ u, g = .declared u → u.text ∈ d → u.text ∈ s) :
    g.offer (s ∪ d) t last = (g.offer s t last).widen d := by
  -- More names matter to one goal only, the demand that a name be declared.
  cases g with
  | statements | statement | expression | term | factor => exact widen_ofExcept
  | initializer | optionalBlock | alternative | terminator | moreTerms | moreFactors =>
    exact widen_readIf
  | restOfBlock =>
    rw [offer, offer]
    split
    · rfl
    · exact widen_ofExcept
  | token =>
    rw [offer, offer]
    split <;> rfl
  | newVariable =>
    rw [offer, offer, insert_union]
    split <;> rfl
  | declarator =>
    rw [offer, offer]
    split <;> rfl
  | declared u =>
    simp only [offer, mem_union_iff_of_imp (h u rfl)]
    split <;> rfl

theorem missing?_union (h : ∀ u, g = .declared u → u.text ∈ d → u.text ∈ s) :
    g.missing? (s ∪ d) = g.missing? s := by
  cases g with
  | declared u => simp only [missing?, mem_union_iff_of_imp (h u rfl)]
  | _ => rfl

/-- More names change nothing for a token, unless one of them was asked for and not there. -/
theorem offerAll_union
    (h : ∀ u, offerAll s t last gs = .failed (.undeclaredVariable u) → u.text ∉ d) :
    offerAll (s ∪ d) t last gs = (offerAll s t last gs).widen d := by
  induction gs with
  | nil => rfl
  | cons g gs ih =>
    have hg : g.offer (s ∪ d) t last = (g.offer s t last).widen d := by
      apply offer_union
      -- If the goal demanded one of the new names, the goals would have failed on it.
      rintro u rfl hu
      by_cases hdecl : u.text ∈ s
      · exact hdecl
      · exact absurd hu (h u (offerAll_undeclared hdecl))
    cases hoffer : g.offer s t last with
    | reads s₁ n =>
      simp only [offerAll, hg, hoffer, Reply.widen, Replies.widen]
    | fails e => simp only [offerAll, hg, hoffer, Reply.widen, Replies.widen]
    | leaves =>
      simp only [offerAll, hoffer] at h
      simp only [offerAll, hg, hoffer, Reply.widen]
      exact ih h

theorem offerAll_union_of_read (h : offerAll s t last gs = .read s₁ gs₁) :
    offerAll (s ∪ d) t last gs = .read (s₁ ∪ d) gs₁ := by
  rw [offerAll_union (by rw [h]; exact nofun), h]
  rfl

theorem findSome?_missing?_union
    (h : ∀ u, gs.findSome? (missing? s) = some (.undeclaredVariable u) → u.text ∉ d) :
    gs.findSome? (missing? (s ∪ d)) = gs.findSome? (missing? s) := by
  induction gs with
  | nil => rfl
  | cons g gs ih =>
    have hg : g.missing? (s ∪ d) = g.missing? s := by
      apply missing?_union
      rintro u rfl hu
      by_cases hdecl : u.text ∈ s
      · exact hdecl
      · refine absurd hu (h u ?_)
        rw [List.findSome?_cons, missing?, if_neg hdecl]
    rw [List.findSome?_cons] at h
    rw [List.findSome?_cons, List.findSome?_cons, hg]
    cases hmissing : g.missing? s with
    | none =>
      rw [hmissing] at h
      exact ih h
    | some e => rfl

/-- More declared names change nothing for a parse, unless it stops because one of them is not
declared. -/
theorem meet_union (h : ∀ u, (meet gs s ts).error? = some (.undeclaredVariable u) → u.text ∉ d) :
    meet gs (s ∪ d) ts =
      ⟨⟨(meet gs s ts).unread, (meet gs s ts).names ∪ d⟩, (meet gs s ts).error?⟩ := by
  -- The two runs go in step: each token leaves the same goals, and the names of `d` besides.
  induction ts generalizing gs s with
  | nil => rw [meet, meet, findSome?_missing?_union h]
  | cons t ts ih =>
    have hoffer : offerAll (s ∪ d) t ts.isEmpty gs = (offerAll s t ts.isEmpty gs).widen d := by
      apply offerAll_union
      intro u hu
      apply h u
      rw [meet, hu]
    rw [meet, hoffer]
    cases hreply : offerAll s t ts.isEmpty gs with
    | read s₁ gs₁ =>
      have hmeet : meet gs s (t :: ts) = meet gs₁ s₁ ts := by rw [meet, hreply]
      rw [hmeet] at h ⊢
      exact ih h
    | met => simp only [Replies.widen, meet, hreply]
    | failed e => simp only [Replies.widen, meet, hreply]

/-- What is read is read in the same way where more names are declared. -/
theorem Reads.union (h : Reads gs s p gs₁ s₁) : Reads gs (s ∪ d) p gs₁ (s₁ ∪ d) := by
  induction h with
  | nil => exact .nil
  | cons hoffer _ ih => exact .cons (offerAll_union_of_read hoffer) ih

end Goal

def continuations : List (Category × String) :=
  [(.operator, "="), (.operator, ";"), (.operator, "+"), (.operator, "-"), (.operator, "*"),
    (.operator, "/"), (.bracket, "\x7b"), (.keyword, "else")]

theorem Token.continuesStatement_iff (t : Token) :
    t.continuesStatement ↔ ∃ c ∈ continuations, t.Spells c.1 c.2 := by
  have hassign := t.isOperator_iff .assign
  have hsemicolon := t.isOperator_iff .semicolon
  have hbrace := t.isBracket_iff Goal.openBrace
  have helse := t.isKeyword_iff .elseWord
  simp only [continuesStatement, binds, Bool.or_eq_true, hassign, hsemicolon, hbrace, helse,
    bindsAt_additive_iff, bindsAt_multiplicative_iff, continuations, Spells]
  simp [or_assoc, Operator.spelling, Keyword.spelling, Goal.openBrace, Bracket.spelling]

section Append

variable {a b : List Token} {t : Token} {e : SyntaxError} (ha : (parse a).error? = none)
  (hb : ∀ t ∈ b.head?, ∀ c ∈ continuations, ¬t.Spells c.1 c.2)
include ha hb

/-- A program is read to its end in front of any tokens that cannot continue it. -/
theorem parse_append : parse (a ++ b) = Goal.meet [.statements] (∅ ∪ (parse a).names) b := by
  have hstops : Stops Token.continuesStatement b := by
    intro t ht
    rw [Bool.eq_false_iff, ne_eq, t.continuesStatement_iff]
    rintro ⟨c, hc, hspells⟩
    exact hb t ht c hc hspells
  have hempty : ∅ ∪ (parse a).names = (parse a).names := by
    apply Std.ExtTreeSet.ext_mem
    simp
  rw [hempty]
  exact Goal.meets_of_derives (derives_of_parse ha) [] hstops .statements (Or.inl rfl)

/-- If the program in front declares a target that was undeclared, its assignment is read on. -/
theorem exists_meet_behind (ht : (parse b).error? = some (.undeclaredVariable t))
    (hdecl : t.text ∈ (parse a).names) : ∃ p r n s, b = p ++ t :: r ∧
      (parse b).errorIndex b = p.length ∧ Goal.Clear n ∧ parse (a ++ b) = Goal.meet n s r := by
  obtain ⟨p, r, gs, s, s₁, n, hsplit, hindex, hr, hreads, hread⟩ := Goal.exists_target ht
  have hclear : Goal.Clear n := by
    have htail : Goal.Clear gs.tail := hreads.clear_tail Goal.clear_start.tail
    rcases Goal.clear_of_read htail hread with hn | ⟨-, m, hm, hn⟩
    · exact absurd List.mem_cons_self (hn t)
    · rwa [(List.cons.inj hm).2]
  have hmore : r.isEmpty = false := by simp [hr]
  have hnext : Goal.offerAll (s ∪ (parse a).names) t r.isEmpty gs =
      .read (s₁ ∪ (parse a).names) (.declared t :: n) := by
    rw [hmore]
    exact Goal.offerAll_union_of_read hread
  have hmem : t.text ∈ s₁ ∪ (parse a).names := Std.ExtTreeSet.mem_union_iff.mpr (Or.inr hdecl)
  refine ⟨p, r, n, s₁ ∪ (parse a).names, hsplit, hindex, hclear, ?_⟩
  -- What stands before the target is read as it was; then the demand for its name is met.
  calc parse (a ++ b) = Goal.meet [.statements] (∅ ∪ (parse a).names) (p ++ t :: r) := by
        rw [parse_append ha hb, hsplit]
    _ = Goal.meet gs (s ∪ (parse a).names) (t :: r) :=
        Goal.meet_append hreads.union (List.cons_ne_nil t r)
    _ = Goal.meet (.declared t :: n) (s₁ ∪ (parse a).names) r := by rw [Goal.meet, hnext]
    _ = Goal.meet n (s₁ ∪ (parse a).names) r := Goal.meet_declared hmem

/-- Any error is then behind the target. -/
theorem error_behind_target (ht : (parse b).error? = some (.undeclaredVariable t))
    (hdecl : t.text ∈ (parse a).names) (he : (parse (a ++ b)).error? = some e) :
    e.kind = .endOfInput ∨ ∃ i u, (parse b).errorIndex b < i ∧ b[i]? = some u ∧
      e.token? = some u ∧ (parse (a ++ b)).errorIndex (a ++ b) = a.length + i := by
  obtain ⟨p, r, n, s, hsplit, hindex, hclear, hmeet⟩ := exists_meet_behind ha hb ht hdecl
  have hbehind : (a ++ p ++ [t]).length ≤ (parse (a ++ b)).errorIndex (a ++ b) := by
    have htokens : a ++ p ++ [t] ++ r = a ++ b := by simp [hsplit]
    rw [hmeet] at he ⊢
    rw [← htokens]
    exact Goal.le_errorIndex he hclear
  simp only [List.length_append, List.length_singleton] at hbehind
  -- The error is behind the target, hence in `b`.
  cases hu : e.token? with
  | none => exact Or.inl (e.token?_eq_none_iff.mp hu)
  | some u =>
    have hget := getElem?_errorIndex he hu
    rw [List.getElem?_append_right (by omega)] at hget
    refine Or.inr ⟨_, u, ?_, hget, rfl, ?_⟩
    · rw [hindex]
      omega
    · omega

end Append

/-- A program, and behind it tokens that do not continue it. If these are a program too, so are
both, and they declare what each of them declares. Else the error is that of the tokens behind,
unless it is that a name is undeclared which the program declares: any error is then at the end of
input or at a token behind that name. -/
theorem parse_append_program (a b : List Token) (ha : (parse a).error? = none)
    (hb : ∀ t ∈ b.head?, ∀ c ∈ continuations, ¬t.Spells c.1 c.2) :
    ((parse b).error? = none → (parse (a ++ b)).error? = none ∧
      (parse (a ++ b)).names = (parse a).names ∪ (parse b).names) ∧
    (∀ e, (parse b).error? = some e →
      (∀ t, e = .undeclaredVariable t → t.text ∉ (parse a).names) →
        (parse (a ++ b)).error? = some e) ∧
    ∀ t, (parse b).error? = some (.undeclaredVariable t) → t.text ∈ (parse a).names →
      ∀ e, (parse (a ++ b)).error? = some e → e.kind = .endOfInput ∨
        ∃ i u, (parse b).errorIndex b < i ∧ b[i]? = some u ∧ e.token? = some u ∧
          (parse (a ++ b)).errorIndex (a ++ b) = a.length + i := by
  -- Unless the names of `a` declare the target that `b` lacks, `b` is met behind `a` as it is
  -- alone.
  have hunion (h : ∀ t, (parse b).error? = some (.undeclaredVariable t) →
      t.text ∉ (parse a).names) : parse (a ++ b) =
        ⟨⟨(parse b).unread, (parse b).names ∪ (parse a).names⟩, (parse b).error?⟩ := by
    rw [parse_append ha hb]
    exact Goal.meet_union h
  refine ⟨fun hnone => ?_, fun e he hdecl => ?_, fun t ht hdecl e he => ?_⟩
  · have hboth := hunion (by rw [hnone]; exact nofun)
    rw [hboth]
    refine ⟨hnone, ?_⟩
    apply Std.ExtTreeSet.ext_mem
    intro x
    simp only [Std.ExtTreeSet.mem_union_iff, or_comm]
  · have hboth := hunion fun t ht => hdecl t (Option.some.inj (he.symm.trans ht))
    rw [hboth]
    exact he
  · exact error_behind_target ha hb ht hdecl he

/-- The program declares the name that was undeclared, and the error is now behind it. -/
theorem parse_append_program_declared :
    let declaration := [.spelled .keyword "let", .spelled .keyword "variable",
      .spelled .identifier "x"]
    let target : Token := .spelled .identifier "x"
    let tokens := [target, .spelled .operator "=", .spelled .literal "1", .spelled .bracket ")"]
    (parse declaration).error? = none ∧
      (parse tokens).error? = some (.undeclaredVariable target) ∧
      (parse (declaration ++ tokens)).error? = some (.unexpectedToken (.spelled .bracket ")")) ∧
      ∃ i, 0 < i ∧ tokens[i]? = some (.spelled .bracket ")") := by
  intro declaration target tokens
  have hdeclaration : (parse declaration).error? = none := by decide
  have htarget : (parse tokens).error? = some (.undeclaredVariable target) := by decide
  have hboth : (parse (declaration ++ tokens)).error? =
      some (.unexpectedToken (.spelled .bracket ")")) := by decide
  have hstart : ∀ t ∈ tokens.head?, ∀ c ∈ continuations, ¬t.Spells c.1 c.2 := by
    intro t ht c hc hspells
    obtain rfl : target = t := Option.some.inj ht
    have hcategory : ∀ c ∈ continuations, c.1 ≠ .identifier := by decide
    exact hcategory c hc hspells.1.symm
  obtain ⟨-, -, hbehind⟩ := parse_append_program declaration tokens hdeclaration hstart
  have hdecl : target.text ∈ (parse declaration).names := by decide
  refine ⟨hdeclaration, htarget, hboth, ?_⟩
  rcases hbehind target htarget hdecl _ hboth with hend | ⟨i, u, hi, hu, htoken, -⟩
  · cases hend
  · rw [← htoken] at hu
    exact ⟨i, Nat.zero_lt_of_lt hi, hu⟩

end Gloss
