import Mathlib.Data.List.Chain
import Gloss.Proofs.Exactness

namespace Gloss

def Token.CallsForOperand (t : Token) : Prop :=
  t.Spells .keyword "return" ∨ t.Spells .operator "=" ∨ t.Spells .bracket "(" ∨
    t.Spells .operator "+" ∨ t.Spells .operator "-" ∨ t.Spells .operator "*" ∨
    t.Spells .operator "/"

namespace Goal

def demands : List Expectation :=
  [.name, .ofBracket openParenthesis, .ofBracket closeParenthesis, .ofBracket openBrace,
    .ofOperator .assign]

/-- Whether a goal may come next behind any tokens. -/
def isFree : Goal → Bool
  | .token wanted => wanted ∈ demands
  | .statement | .newVariable | .declared _ | .declarator | .expression | .term | .factor => false
  | _ => true

/-- How the tokens end that have been read when a goal comes next. Single statements are never asked
for. -/
def Suits (past : List Token) : Goal → Prop
  | .declarator => ∃ l, [l] <:+ past ∧ l.Spells .keyword "let"
  | .newVariable =>
    ∃ l v, [l, v] <:+ past ∧ l.Spells .keyword "let" ∧ v.Spells .keyword "variable"
  | .declared target => [target] <:+ past ∧ target.category = .identifier
  | .expression | .term | .factor => ∃ t, [t] <:+ past ∧ t.CallsForOperand
  | g => g.isFree

/-- Whether a goal may stand right behind another one: an expression does so behind a token that
calls for it. -/
def Precedes (g h : Goal) : Prop :=
  h.isFree ∨ h = .expression ∧
    (g = .token (.ofBracket openParenthesis) ∨ g = .token (.ofOperator .assign))

/-- That goals may be left when some tokens have been read. -/
structure Fits (past : List Token) (gs : List Goal) : Prop where
  next : ∀ g ∈ gs.head?, g.Suits past
  chain : gs.IsChain Precedes

variable {g : Goal} {gs gs₁ hs n : List Goal} {s s₁ : NameSet} {t : Token}
  {past p ts : List Token} {last : Bool} {e : SyntaxError}

theorem suits_of_isFree (h : g.isFree) : g.Suits past := by
  cases g <;> first | exact h | cases h

theorem fits_nil : Fits past [] := ⟨nofun, .nil⟩

theorem fits_cons (hg : g.Suits past) (hgs : (g :: gs).IsChain Precedes) : Fits past (g :: gs) :=
  ⟨fun _ h => Option.some.inj h ▸ hg, hgs⟩

theorem fits_statements : Fits past [.statements] := fits_cons rfl (.singleton _)

/-- A goal comes next when all goals before it are met by nothing. -/
theorem Fits.suits (h : Fits past (hs ++ g :: gs)) (hhs : ∀ h ∈ hs, h.missing? s = none) :
    g.Suits past := by
  rcases List.eq_nil_or_concat hs with rfl | ⟨hs, h', rfl⟩
  · exact h.next g rfl
  · rw [List.concat_eq_append] at h hhs
    have hlast : h'.missing? s = none := hhs h' (by simp)
    have hchain := h.chain
    rw [List.append_assoc] at hchain
    have hlink : Precedes h' g := hchain.right_of_append.rel
    -- A token that is demanded may not be missing, so it is no demand that calls for the goal.
    rcases hlink with hfree | ⟨-, rfl | rfl⟩
    · exact suits_of_isFree hfree
    · cases hlast
    · cases hlast

theorem Fits.suits_of_leaves (h : Fits past (hs ++ g :: gs))
    (hleaves : ∀ h ∈ hs, h.offer s t last = .leaves) : g.Suits past := by
  apply h.suits (s := s)
  intro h hmem
  exact missing_of_leaves (hleaves h hmem)

theorem Fits.append (h : Fits past n) (hgs : gs.IsChain Precedes)
    (hfree : gs.head?.all isFree) : Fits past (n ++ gs) := by
  have hhead : ∀ g ∈ gs.head?, g.isFree := (Option.all_eq_true _ _).mp hfree
  refine ⟨fun g hg => ?_, h.chain.append hgs fun _ _ g hg => Or.inl (hhead g hg)⟩
  cases n with
  | nil => exact suits_of_isFree (hhead g hg)
  | cons g' n => exact h.next g hg

theorem fits_of_afterFirst (h : afterFirst t last = .ok n) : Fits (past ++ [t]) n := by
  have hlast : [t] <:+ past ++ [t] := List.suffix_append past [t]
  rcases of_afterFirst h with ⟨ht, rfl⟩ | ⟨ht, rfl⟩ | ⟨ht, rfl⟩ | ⟨ht, -, rfl⟩
  · exact fits_cons ⟨t, hlast, ht⟩ (.singleton _)
  · exact fits_cons rfl (by simp [Precedes, block, isFree, demands])
  · exact fits_cons ⟨t, hlast, Or.inl ht⟩ (by simp [Precedes, isFree])
  · exact fits_cons ⟨hlast, ht⟩ (by simp [Precedes, isFree, demands])

theorem fits_of_afterOperandStart (h : afterOperandStart t = .ok n) : Fits (past ++ [t]) n := by
  rcases of_afterOperandStart h with ⟨-, rfl⟩ | ⟨ht, rfl⟩
  · exact fits_nil
  · have hcall : t.CallsForOperand := Or.inr (Or.inr (Or.inl ht))
    exact fits_cons ⟨t, List.suffix_append past [t], hcall⟩ (by simp [Precedes, isFree, demands])

/-- The goals that are left by a token fit behind it. -/
theorem fits_of_reads (h : g.offer s t last = .reads s₁ n) (hg : g.Suits past) :
    Fits (past ++ [t]) n := by
  have hlast : [t] <:+ past ++ [t] := List.suffix_append past [t]
  have hloop (m : List Goal) (hm : Fits (past ++ [t]) m) (hfree : g.isFree) :
      Fits (past ++ [t]) (m ++ [g]) :=
    hm.append (.singleton g) hfree
  -- The first goal that is left has to suit what was read, with `t` at its end, and each other one
  -- has to suit the goal before it.
  cases g with
  | statement => cases hg
  | statements =>
    obtain ⟨m, hm, -, rfl⟩ := ofExcept_eq_reads_iff.mp h
    exact hloop m (fits_of_afterFirst hm) rfl
  | restOfBlock =>
    rw [offer] at h
    split at h
    · obtain ⟨-, rfl⟩ := Reply.reads.inj h
      exact fits_nil
    · obtain ⟨m, hm, -, rfl⟩ := ofExcept_eq_reads_iff.mp h
      exact hloop m (fits_of_afterFirst hm) rfl
  | token | newVariable =>
    rw [offer] at h
    split at h
    · obtain ⟨-, rfl⟩ := Reply.reads.inj h
      exact fits_nil
    · cases h
  | declared target =>
    rw [offer] at h
    split at h <;> cases h
  | declarator =>
    rw [offer] at h
    split at h
    · next hk =>
      obtain ⟨-, rfl⟩ := Reply.reads.inj h
      obtain ⟨l, hl, hlet⟩ := hg
      -- `let` was the last token, so now both words are.
      have hends : [l, t] <:+ past ++ [t] := by
        obtain ⟨before, rfl⟩ := hl
        exact ⟨before, by simp⟩
      have hvariable := Token.keyword?_eq_some_iff.mp hk
      exact fits_cons ⟨l, t, hends, hlet, hvariable⟩ (by simp [Precedes, isFree])
    · obtain ⟨-, rfl⟩ := Reply.reads.inj h
      exact fits_cons rfl (by simp [Precedes, isFree, demands])
    · cases h
  | initializer =>
    obtain ⟨ht, -, rfl⟩ := readIf_eq_reads_iff.mp h
    have hcall : t.CallsForOperand := Or.inr (Or.inl ((t.isOperator_iff _).mp ht))
    exact fits_cons ⟨t, hlast, hcall⟩ (.singleton _)
  | optionalBlock =>
    obtain ⟨-, -, rfl⟩ := readIf_eq_reads_iff.mp h
    exact fits_cons rfl (.singleton _)
  | alternative =>
    obtain ⟨-, -, rfl⟩ := readIf_eq_reads_iff.mp h
    exact fits_cons rfl (by simp [Precedes, isFree])
  | terminator =>
    obtain ⟨-, -, rfl⟩ := readIf_eq_reads_iff.mp h
    exact fits_nil
  | expression | term =>
    obtain ⟨m, hm, -, rfl⟩ := ofExcept_eq_reads_iff.mp h
    exact (fits_of_afterOperandStart hm).append (by simp [Precedes, isFree]) rfl
  | factor =>
    obtain ⟨m, hm, -, rfl⟩ := ofExcept_eq_reads_iff.mp h
    exact (fits_of_afterOperandStart hm).append .nil rfl
  | moreTerms =>
    obtain ⟨ht, -, rfl⟩ := readIf_eq_reads_iff.mp h
    have hcall : t.CallsForOperand := by
      rcases Token.bindsAt_additive_iff.mp ht with ht | ht <;> simp [Token.CallsForOperand, ht]
    exact fits_cons ⟨t, hlast, hcall⟩ (by simp [Precedes, isFree])
  | moreFactors =>
    obtain ⟨ht, -, rfl⟩ := readIf_eq_reads_iff.mp h
    have hcall : t.CallsForOperand := by
      rcases Token.bindsAt_multiplicative_iff.mp ht with ht | ht <;>
        simp [Token.CallsForOperand, ht]
    exact fits_cons ⟨t, hlast, hcall⟩ (by simp [Precedes, isFree])

/-- A goal that stands behind one which has read a token suits that token. -/
theorem Precedes.suits_behind (past : List Token) {h : Goal} (hlink : Precedes g h)
    (hread : g.offer s t last = .reads s₁ n) :
    h.isFree ∨ n = [] ∧ h.Suits (past ++ [t]) := by
  -- A demand that precedes an expression leaves nothing, and its token calls for an operand.
  have hcall (wanted : Expectation) (hg : g = .token wanted)
      (hadmits : wanted.admits t → t.CallsForOperand) :
      n = [] ∧ Suits (past ++ [t]) .expression := by
    subst hg
    rw [offer] at hread
    split at hread
    · next ht =>
      obtain ⟨-, rfl⟩ := Reply.reads.inj hread
      exact ⟨rfl, t, List.suffix_append past [t], hadmits ht⟩
    · cases hread
  rcases hlink with hfree | ⟨rfl, hg | hg⟩
  · exact Or.inl hfree
  · refine Or.inr (hcall _ hg fun ht => ?_)
    rw [Expectation.admits_ofBracket] at ht
    exact Or.inr (Or.inr (Or.inl ((t.isBracket_iff _).mp ht)))
  · refine Or.inr (hcall _ hg fun ht => ?_)
    rw [Expectation.admits_ofOperator] at ht
    exact Or.inr (Or.inl ((t.isOperator_iff _).mp ht))

/-- One step: what is left by a token fits behind it. -/
theorem Fits.step (h : Fits past gs) (hread : offerAll s t last gs = .read s₁ gs₁) :
    Fits (past ++ [t]) gs₁ := by
  obtain ⟨hs, g, rest, n, rfl, hleaves, hg, rfl⟩ := of_offerAll_read hread
  have hn : Fits (past ++ [t]) n := fits_of_reads hg (h.suits_of_leaves hleaves)
  have hchain : (g :: rest).IsChain Precedes := h.chain.right_of_append
  have hrest : rest.IsChain Precedes := hchain.tail
  cases rest with
  | nil => exact hn.append hrest rfl
  | cons h' rest =>
    -- An expression may be next when its sign has been read, which leaves no other goal.
    rcases hchain.rel.suits_behind past hg with hfree | ⟨rfl, hsuits⟩
    · exact hn.append hrest hfree
    · exact fits_cons hsuits hrest

/-- A run: what is left by several tokens fits behind them. -/
theorem Reads.fits (h : Reads gs s p gs₁ s₁) (hgs : Fits past gs) : Fits (past ++ p) gs₁ := by
  induction h generalizing past with
  | nil => rwa [List.append_nil]
  | cons hoffer _ ih =>
    rw [List.append_cons]
    exact ih (hgs.step hoffer)

/-- An error is that of one goal, which suits the tokens that have been read: the goal fails on the
next token, or is missing at the end of input. -/
theorem exists_failing (hgs : Fits past gs) (h : (meet gs s ts).error? = some e) :
    ∃ p, ∃ g : Goal, ts = p ++ (meet gs s ts).unread ∧ g.Suits (past ++ p) ∧
      ((meet gs s ts).unread = [] ∧ g.missing? (meet gs s ts).names = some e ∨
        ∃ t r, (meet gs s ts).unread = t :: r ∧
          g.offer (meet gs s ts).names t r.isEmpty = .fails e) := by
  obtain ⟨p, gs₁, hts, hreads, hhalts⟩ := exists_reads gs s ts
  have hfits := hreads.fits hgs
  rw [h] at hhalts
  -- In both cases the goals before the one at fault are met by nothing.
  cases hunread : (meet gs s ts).unread with
  | nil =>
    rw [hunread] at hhalts hts
    obtain ⟨hs, g, rest, rfl, hmissing, hnone⟩ := List.findSome?_eq_some_iff.mp hhalts.symm
    exact ⟨p, g, hts, hfits.suits hnone, Or.inl ⟨rfl, hmissing⟩⟩
  | cons t r =>
    rw [hunread] at hhalts hts
    rcases hhalts with ⟨-, hnone⟩ | ⟨e', hfail, he'⟩
    · cases hnone
    obtain rfl := Option.some.inj he'
    obtain ⟨hs, g, rest, rfl, hleaves, hg⟩ := of_offerAll_failed hfail
    exact ⟨p, g, hts, hfits.suits_of_leaves hleaves, Or.inr ⟨t, r, rfl, hg⟩⟩

end Goal
end Gloss
