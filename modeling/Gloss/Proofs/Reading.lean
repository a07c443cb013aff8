import Gloss.Proofs.Machine

namespace Gloss.Goal

variable {g : Goal} {gs gs₁ gs₂ n : List Goal} {s s₁ s₂ : NameSet} {t : Token}
  {p q ts : List Token} {last : Bool} {e : SyntaxError}

/-- One goal answers for all: the first that does not leave the token. -/
theorem offerAll_cases (s : NameSet) (t : Token) (last : Bool) (gs : List Goal) :
    (offerAll s t last gs = .met ∧ ∀ g ∈ gs, g.offer s t last = .leaves) ∨
    ∃ gs₁ g gs₂, gs = gs₁ ++ g :: gs₂ ∧ (∀ g ∈ gs₁, g.offer s t last = .leaves) ∧
      ((∃ s₁ n, g.offer s t last = .reads s₁ n ∧ offerAll s t last gs = .read s₁ (n ++ gs₂)) ∨
        ∃ e, g.offer s t last = .fails e ∧ offerAll s t last gs = .failed e) := by
  -- The goals are asked in turn until one of them does not leave the token.
  induction gs with
  | nil => exact Or.inl ⟨rfl, nofun⟩
  | cons g gs ih =>
    cases hg : g.offer s t last with
    | reads s₁ n =>
      refine Or.inr ⟨[], g, gs, rfl, nofun, Or.inl ⟨s₁, n, hg, ?_⟩⟩
      rw [offerAll, hg]
    | fails e =>
      refine Or.inr ⟨[], g, gs, rfl, nofun, Or.inr ⟨e, hg, ?_⟩⟩
      rw [offerAll, hg]
    | leaves =>
      have hrest : offerAll s t last (g :: gs) = offerAll s t last gs := by rw [offerAll, hg]
      rcases ih with ⟨hmet, hall⟩ | ⟨gs₁, g', gs₂, rfl, hall, hans⟩
      · exact Or.inl ⟨hrest.trans hmet, List.forall_mem_cons.mpr ⟨hg, hall⟩⟩
      · refine Or.inr ⟨g :: gs₁, g', gs₂, rfl, List.forall_mem_cons.mpr ⟨hg, hall⟩, ?_⟩
        rw [hrest]
        exact hans

theorem of_offerAll_met (h : offerAll s t last gs = .met) :
    ∀ g ∈ gs, g.offer s t last = .leaves := by
  rcases offerAll_cases s t last gs with ⟨-, hall⟩ | ⟨_, _, _, _, _, ⟨_, _, _, hr⟩ | ⟨_, _, hr⟩⟩
  · exact hall
  · cases (hr.symm.trans h)
  · cases (hr.symm.trans h)

theorem of_offerAll_read (h : offerAll s t last gs = .read s₁ gs₁) :
    ∃ hs g gs₂ n, gs = hs ++ g :: gs₂ ∧ (∀ g ∈ hs, g.offer s t last = .leaves) ∧
      g.offer s t last = .reads s₁ n ∧ gs₁ = n ++ gs₂ := by
  rcases offerAll_cases s t last gs with
    ⟨hr, -⟩ | ⟨hs, g, gs₂, hgs, hall, ⟨_, n, hg, hr⟩ | ⟨_, _, hr⟩⟩
  · cases (hr.symm.trans h)
  · obtain ⟨rfl, rfl⟩ := Replies.read.inj (hr.symm.trans h)
    exact ⟨hs, g, gs₂, n, hgs, hall, hg, rfl⟩
  · cases (hr.symm.trans h)

theorem of_offerAll_failed (h : offerAll s t last gs = .failed e) :
    ∃ hs g gs₂, gs = hs ++ g :: gs₂ ∧ (∀ g ∈ hs, g.offer s t last = .leaves) ∧
      g.offer s t last = .fails e := by
  rcases offerAll_cases s t last gs with
    ⟨hr, -⟩ | ⟨hs, g, gs₂, hgs, hall, ⟨_, _, _, hr⟩ | ⟨_, hg, hr⟩⟩
  · cases (hr.symm.trans h)
  · cases (hr.symm.trans h)
  · obtain rfl := Replies.failed.inj (hr.symm.trans h)
    exact ⟨hs, g, gs₂, hgs, hall, hg⟩

/-- Being the last of all tokens matters only to a name that would start an assignment. -/
theorem offer_last (g : Goal) (s : NameSet) (t : Token) :
    g.offer s t true = g.offer s t false ∨ (t.category = .identifier ∧
      g.offer s t true = .fails (.unexpectedToken t) ∧
      ∃ m, g.offer s t false = .reads s (.declared t :: m)) := by
  -- Whether the token is the last one is only asked when a name starts a statement.
  by_cases hc : t.category = .identifier
  · have hlast : afterFirst t true = .error (.unexpectedToken t) := by simp [afterFirst, hc]
    have hmore := afterFirst_name hc
    have hclose : t.isBracket closeBrace = false := Token.isBracket_of_category (by simp [hc])
    cases g with
    | statements => exact Or.inr ⟨hc, by rw [offer, hlast]; rfl, _, by rw [offer, hmore]; rfl⟩
    | statement => exact Or.inr ⟨hc, by rw [offer, hlast]; rfl, _, by rw [offer, hmore]; rfl⟩
    | restOfBlock =>
      refine Or.inr ⟨hc, ?_,
        [.token (.ofOperator .assign), .expression, .terminator, .restOfBlock], ?_⟩
      · rw [offer, hclose, hlast]; rfl
      · rw [offer, hclose, hmore]; rfl
    | _ => exact Or.inl rfl
  · have hsame : afterFirst t true = afterFirst t false := by
      unfold afterFirst
      split <;> first | rfl | contradiction
    cases g with
    | statements => exact Or.inl (by rw [offer, offer, hsame])
    | statement => exact Or.inl (by rw [offer, offer, hsame])
    | restOfBlock => exact Or.inl (by rw [offer, offer, hsame])
    | _ => exact Or.inl rfl

/-- Only the first token of an assignment asks whether it is the last of all, and then only to be
refused. -/
theorem offerAll_last (gs : List Goal) (s : NameSet) (t : Token) :
    offerAll s t true gs = offerAll s t false gs ∨ (t.category = .identifier ∧
      offerAll s t true gs = .failed (.unexpectedToken t) ∧
      ∃ m, offerAll s t false gs = .read s (.declared t :: m)) := by
  induction gs with
  | nil => exact Or.inl rfl
  | cons g gs ih =>
    rcases g.offer_last s t with hg | ⟨hc, hlast, m, hmore⟩
    · -- The goal does not ask: it answers for all, or the next one does.
      cases hoffer : g.offer s t false with
      | reads s₁ n => exact Or.inl (by rw [offerAll, offerAll, hg, hoffer])
      | fails e => exact Or.inl (by rw [offerAll, offerAll, hg, hoffer])
      | leaves => simpa only [offerAll, hg, hoffer] using ih
    · exact Or.inr ⟨hc, by rw [offerAll, hlast], m ++ gs, by rw [offerAll, hmore]; rfl⟩

theorem offerAll_read_mono (h : offerAll s t last gs = .read s₁ gs₁) :
    offerAll s t false gs = .read s₁ gs₁ := by
  cases last with
  | false => exact h
  | true =>
    rcases offerAll_last gs s t with hsame | ⟨_, hlast, _⟩
    · exact hsame.symm.trans h
    · cases (hlast.symm.trans h)

/-- The goals and names that are left when some tokens, with others behind them, have been read. -/
inductive Reads : List Goal → NameSet → List Token → List Goal → NameSet → Prop
  | nil {gs : List Goal} {s : NameSet} : Reads gs s [] gs s
  | cons {gs gs₁ gs₂ : List Goal} {s s₁ s₂ : NameSet} {t : Token} {ts : List Token} :
      offerAll s t false gs = .read s₁ gs₁ → Reads gs₁ s₁ ts gs₂ s₂ → Reads gs s (t :: ts) gs₂ s₂

def Halts (gs : List Goal) (s : NameSet) (error? : Option SyntaxError) : List Token → Prop
  | [] => error? = gs.findSome? (missing? s)
  | t :: ts => (offerAll s t ts.isEmpty gs = .met ∧ error? = none) ∨
      ∃ e, offerAll s t ts.isEmpty gs = .failed e ∧ error? = some e

/-- A parse reads some of the tokens and stops at the others. -/
theorem exists_reads (gs : List Goal) (s : NameSet) (ts : List Token) : ∃ p gs₁,
    ts = p ++ (meet gs s ts).unread ∧ Reads gs s p gs₁ (meet gs s ts).names ∧
      Halts gs₁ (meet gs s ts).names (meet gs s ts).error? (meet gs s ts).unread := by
  -- The tokens read are those before the first one that the goals do not read.
  induction ts generalizing gs s with
  | nil => exact ⟨[], gs, rfl, .nil, rfl⟩
  | cons t ts ih =>
    cases hoffer : offerAll s t ts.isEmpty gs with
    | read s₁ gs₁ =>
      have hmeet : meet gs s (t :: ts) = meet gs₁ s₁ ts := by rw [meet, hoffer]
      obtain ⟨p, gs₂, hts, hreads, hhalts⟩ := ih gs₁ s₁
      rw [hmeet]
      exact ⟨t :: p, gs₂, congrArg (t :: ·) hts, .cons (offerAll_read_mono hoffer) hreads, hhalts⟩
    | met =>
      have hmeet : meet gs s (t :: ts) = ⟨⟨t :: ts, s⟩, none⟩ := by rw [meet, hoffer]
      rw [hmeet]
      exact ⟨[], gs, rfl, .nil, Or.inl ⟨hoffer, rfl⟩⟩
    | failed e =>
      have hmeet : meet gs s (t :: ts) = ⟨⟨t :: ts, s⟩, some e⟩ := by rw [meet, hoffer]
      rw [hmeet]
      exact ⟨[], gs, rfl, .nil, Or.inr ⟨e, hoffer, rfl⟩⟩

/-- What is unread is an end of the list. -/
theorem unread_suffix (gs : List Goal) (s : NameSet) (ts : List Token) :
    (meet gs s ts).unread <:+ ts := by
  obtain ⟨read, gs₁, htokens, -, -⟩ := exists_reads gs s ts
  exact ⟨read, htokens.symm⟩

/-- Tokens that are read before others leave the same goals whatever the others are. -/
theorem meet_append (h : Reads gs s p gs₁ s₁) (hq : q ≠ []) :
    meet gs s (p ++ q) = meet gs₁ s₁ q := by
  induction h with
  | nil => rfl
  | @cons gs gs₁ gs₂ s s₁ s₂ t ts hoffer _ ih =>
    have hmore : (ts ++ q).isEmpty = false := by simp [hq]
    rw [List.cons_append, meet, hmore, hoffer]
    exact ih

/-- What has been read last was read for the goals before it. -/
theorem Reads.of_append_singleton (h : Reads gs s (p ++ [t]) gs₂ s₂) : ∃ gs₁ s₁,
    Reads gs s p gs₁ s₁ ∧ offerAll s₁ t false gs₁ = .read s₂ gs₂ := by
  induction p generalizing gs s with
  | nil =>
    cases h with
    | cons hoffer h => cases h with | nil => exact ⟨gs, s, .nil, hoffer⟩
  | cons u p ih =>
    cases h with
    | cons hoffer h =>
      obtain ⟨gs₁, s₁, hp, hlast⟩ := ih h
      exact ⟨gs₁, s₁, .cons hoffer hp, hlast⟩

end Gloss.Goal
