import Gloss.Proofs.Names
import Gloss.Proofs.Resuming

namespace Gloss

def Declares (ts : List Token) (x : String) : Prop :=
  ∃ l w u, [l, w, u] <:+: ts ∧ l.Spells .keyword "let" ∧ w.Spells .keyword "variable" ∧
    u.category = .identifier ∧ u.text = x

section Declares

variable {past r : List Token} {t : Token} {x : String}

theorem not_declares_nil : ¬Declares [] x := by
  rintro ⟨l, w, u, hwords, -⟩
  exact absurd (List.infix_nil.mp hwords) (List.cons_ne_nil l _)

/-- One more token declares a name if it is one and stands behind the two words. -/
theorem declares_concat : Declares (past ++ [t]) x ↔
    Declares past x ∨ Goal.newVariable.Suits past ∧ t.category = .identifier ∧ t.text = x := by
  constructor
  · rintro ⟨l, w, u, hwords, hlet, hvariable, hu⟩
    -- The three tokens end with the new one, or were there before it.
    rcases List.infix_concat_iff.mp hwords with hlast | hbefore
    · rcases List.suffix_concat_iff.mp hlast with hnil | ⟨before, hsplit, hpast⟩
      · cases hnil
      · have hboth : [l, w] ++ [u] = before ++ [t] := hsplit
        obtain ⟨rfl, hlast⟩ := List.append_inj' hboth rfl
        obtain rfl : u = t := (List.cons.inj hlast).1
        exact Or.inr ⟨⟨l, w, hpast, hlet, hvariable⟩, hu⟩
    · exact Or.inl ⟨l, w, u, hbefore, hlet, hvariable, hu⟩
  · rintro (⟨l, w, u, hwords, hu⟩ | ⟨⟨l, w, hwords, hlet, hvariable⟩, ht⟩)
    · exact ⟨l, w, u, List.infix_concat_iff.mpr (Or.inr hwords), hu⟩
    · have hlast : [l, w, t] <:+ past ++ [t] :=
        List.suffix_concat_iff.mpr (Or.inr ⟨[l, w], rfl, hwords⟩)
      exact ⟨l, w, t, hlast.isInfix, hlet, hvariable, ht⟩

theorem declares_iff_getElem? : Declares past x ↔ ∃ i l w u, i + 2 < past.length ∧
    (past ++ r)[i]? = some l ∧ (past ++ r)[i + 1]? = some w ∧ (past ++ r)[i + 2]? = some u ∧
      l.Spells .keyword "let" ∧ w.Spells .keyword "variable" ∧
        u.category = .identifier ∧ u.text = x := by
  -- Three tokens in a row stand at the indices `i`, `i + 1` and `i + 2`.
  constructor
  · rintro ⟨l, w, u, ⟨before, behind, rfl⟩, hu⟩
    refine ⟨before.length, l, w, u, ?_, ?_, ?_, ?_, hu⟩
    · simp only [List.length_append, List.length_cons]
      omega
    all_goals simp
  · rintro ⟨i, l, w, u, hi, hl, hw, hu, hspells⟩
    rw [List.getElem?_append_left (by omega)] at hl hw hu
    refine ⟨l, w, u, List.infix_iff_getElem?.mpr ⟨i, ?_, ?_⟩, hspells⟩
    · simp only [List.length_cons, List.length_nil]
      omega
    · intro j hj
      match j with
      | 0 => simpa using hl
      | 1 => simpa [Nat.add_comm] using hw
      | 2 => simpa [Nat.add_comm] using hu

end Declares

namespace Goal

variable {g : Goal} {gs gs₁ hs rest n : List Goal} {s s₁ : NameSet} {t : Token}
  {past p ts : List Token} {last : Bool} {e? : Option SyntaxError}

/-- The word `variable` is read behind `let` only, and a name is to be declared next. -/
theorem of_reads_variable (hg : g.Suits past) (h : g.offer s t last = .reads s₁ n)
    (ht : t.Spells .keyword "variable") : ∃ m, n = .newVariable :: m := by
  have hword : t.keyword? = some .variableWord := Token.keyword?_eq_some_iff.mpr ht
  have hoperator : t.operator? = none := Token.operator?_of_category (by simp [ht.1])
  have hbracket : t.bracket? = none := Token.bracket?_of_category (by simp [ht.1])
  -- No other goal wants a keyword that starts no statement.
  have hfirst : afterFirst t last = .error (.unknownKeyword t) := by simp [afterFirst, ht.1, hword]
  have hoperand : afterOperandStart t = .error (.invalidExpression t) := by
    simp [afterOperandStart, Token.startsOperand, Token.isBracket_eq, ht.1, hbracket]
  cases g with
  | statement => cases hg
  | declared target =>
    rw [offer] at h
    split at h <;> cases h
  | declarator =>
    rw [offer, hword] at h
    obtain ⟨-, rfl⟩ := Reply.reads.inj h
    exact ⟨_, rfl⟩
  | newVariable =>
    have hname : Expectation.name.admits t = false := by
      simp [Expectation.admits, Expectation.name, ht.1]
    rw [offer, hname] at h
    cases h
  | token wanted =>
    have hdemand : wanted ∈ demands := decide_eq_true_iff.mp hg
    have hrefused : wanted.admits t = false := by
      simp only [demands, List.mem_cons, List.not_mem_nil, or_false] at hdemand
      rcases hdemand with rfl | rfl | rfl | rfl | rfl <;>
        simp [Expectation.admits, Expectation.name, Expectation.ofBracket, Expectation.ofOperator,
          ht.1]
    rw [offer, hrefused] at h
    cases h
  | _ =>
    simp [offer, Reply.ofExcept, Reply.readIf, hfirst, hoperand, Token.isOperator_eq,
      Token.isBracket_eq, Token.isKeyword_eq, bindsAt, hword, hoperator, hbracket] at h

theorem offerAll_newVariable (ht : t.category = .identifier) :
    offerAll s t last (.newVariable :: gs) = .read (s.insert t.text) gs := by
  rw [offerAll, offer, if_pos (Expectation.admits_name.mpr ht)]
  rfl

/-- That the goals, the names and what is unread belong to the tokens that have been read. -/
structure Tracks (past : List Token) (gs : List Goal) (s : NameSet) (ts : List Token) : Prop where
  fits : Fits past gs
  names : ∀ x, x ∈ s ↔ Declares past x
  /-- Behind `variable` a name is declared next, or there is none. -/
  awaits : ∀ w, [w] <:+ past → w.Spells .keyword "variable" →
    (∃ m, gs = .newVariable :: m) ∨ ∀ t ∈ ts.head?, t.category ≠ .identifier

theorem tracks_start : Tracks [] [.statements] ∅ ts where
  fits := fits_statements
  names _ := iff_of_false Std.ExtTreeSet.not_mem_empty not_declares_nil
  awaits w hw _ := absurd (List.suffix_nil.mp hw) (List.cons_ne_nil w [])

/-- A name is declared by the goal that reads it exactly if it stands behind the two words. -/
theorem Tracks.suits_iff (h : Tracks past (hs ++ g :: rest) s (t :: ts))
    (hleaves : ∀ g ∈ hs, g.offer s t last = .leaves) (hname : t.category = .identifier) :
    Goal.newVariable.Suits past ↔ g = .newVariable := by
  constructor
  · rintro ⟨l, w, hends, -, hvariable⟩
    have hlast : [w] <:+ past := (List.suffix_cons l [w]).trans hends
    rcases h.awaits w hlast hvariable with ⟨m, hm⟩ | hno
    · cases hs with
      | nil => exact (List.cons.inj hm).1
      | cons g' hs =>
        -- The goal for a new variable would be first, but it leaves no token.
        obtain rfl := (List.cons.inj hm).1
        cases missing_of_leaves (hleaves _ List.mem_cons_self)
    · exact absurd hname (hno t rfl)
  · rintro rfl
    exact h.fits.suits_of_leaves hleaves

/-- One step: a token is read, and declared exactly if it is a name behind the two words. -/
theorem Tracks.step (h : Tracks past gs s (t :: ts)) (hread : offerAll s t last gs = .read s₁ gs₁) :
    Tracks (past ++ [t]) gs₁ s₁ ts := by
  obtain ⟨hs, g, rest, n, rfl, hleaves, hg, rfl⟩ := of_offerAll_read hread
  refine ⟨h.fits.step hread, fun x => ?_, fun w hw hvariable => ?_⟩
  · rw [declares_concat, ← h.names]
    -- Only a new variable changes the names, and it is read behind `let variable` alone.
    rcases names_cases hg with ⟨rfl, hname, rfl⟩ | ⟨hne, rfl⟩
    · have hsuits : newVariable.Suits past := (h.suits_iff hleaves hname).mpr rfl
      calc x ∈ s.insert t.text ↔ t.text = x ∨ x ∈ s := by
            rw [Std.ExtTreeSet.mem_insert, Std.LawfulEqCmp.compare_eq_iff_eq]
        _ ↔ x ∈ s ∨ newVariable.Suits past ∧ t.category = .identifier ∧ t.text = x := by
            simp only [hsuits, hname, true_and, or_comm]
    · refine ⟨Or.inl, ?_⟩
      rintro (hx | ⟨hsuits, hname, -⟩)
      · exact hx
      · exact absurd ((h.suits_iff hleaves hname).mp hsuits) hne
  · -- The token just read is `variable`.
    obtain rfl : w = t := by simpa using hw
    have hsuits : g.Suits past := h.fits.suits_of_leaves hleaves
    obtain ⟨m, rfl⟩ := of_reads_variable hsuits hg hvariable
    exact Or.inl ⟨m ++ rest, rfl⟩

/-- One token after the other, the names stay those that the tokens read declare. -/
theorem Reads.tracks (h : Reads gs s p gs₁ s₁) (hgs : Tracks past gs s (p ++ ts)) :
    Tracks (past ++ p) gs₁ s₁ ts := by
  induction h generalizing past with
  | nil => rwa [List.append_nil]
  | cons hoffer _ ih =>
    rw [List.append_cons]
    exact ih (hgs.step hoffer)

/-- Where goals stop, a name can not be awaited any more, so statements may be read from there. -/
theorem Tracks.restart (h : Tracks past gs s ts) (hhalts : Halts gs s e? ts) :
    Tracks past [.statements] s ts := by
  refine ⟨fits_statements, h.names, fun w hw hvariable => Or.inr ?_⟩
  rcases h.awaits w hw hvariable with ⟨m, rfl⟩ | hno
  · -- The goal for a new variable would have read a name, so the goals would not stop there.
    intro t ht hname
    cases ts with
    | nil => cases ht
    | cons t' ts =>
      obtain rfl : t' = t := Option.some.inj ht
      have hread : offerAll s t' ts.isEmpty (.newVariable :: m) = .read (s.insert t'.text) m :=
        offerAll_newVariable hname
      rcases hhalts with ⟨hmet, -⟩ | ⟨e, hfailed, -⟩
      · cases hread.symm.trans hmet
      · cases hread.symm.trans hfailed
  · exact hno

end Goal

namespace Progress

variable {tokens : List Token} {p : Progress}

def Tracks (tokens : List Token) (p : Progress) : Prop :=
  ∃ past, tokens = past ++ p.unread ∧ Goal.Tracks past [.statements] p.names p.unread

/-- A call keeps it, whether it succeeds or fails. -/
theorem Tracks.parse (h : p.Tracks tokens) : p.parse.Tracks tokens := by
  obtain ⟨past, htokens, htracks⟩ := h
  obtain ⟨read, gs, hread, hreads, hhalts⟩ := Goal.exists_reads [.statements] p.names p.unread
  have hunread : p.unread = read ++ p.parse.unread := hread
  rw [hunread] at htokens htracks
  refine ⟨past ++ read, ?_, (hreads.tracks htracks).restart hhalts⟩
  rw [List.append_assoc]
  exact htokens

/-- A call that fails leaves a parse that the next one can go on from, so this holds after every
call. -/
theorem tracks_of_mem_parses {calls : Nat} {v : Verdict} (hv : v ∈ (start tokens).parses calls) :
    v.Tracks tokens := by
  have hstart : (start tokens).Tracks tokens := ⟨[], rfl, Goal.tracks_start⟩
  obtain ⟨p, hp, rfl⟩ := exists_of_mem_parses (fun _ hp => hp.parse) hstart hv
  exact hp.parse

end Progress

/-- After any number of calls the declared names are exactly those that stand behind `let variable`
in the tokens that have been read. -/
theorem declared_iff (tokens : List Token) (calls : Nat) (v : Verdict)
    (hv : v ∈ (Progress.start tokens).parses calls) (x : String) :
    x ∈ v.names ↔ ∃ i l w u, i + 2 < v.position tokens ∧
      tokens[i]? = some l ∧ tokens[i + 1]? = some w ∧ tokens[i + 2]? = some u ∧
      l.Spells .keyword "let" ∧ w.Spells .keyword "variable" ∧
      u.category = .identifier ∧ u.text = x := by
  obtain ⟨past, htokens, htracks⟩ := Progress.tracks_of_mem_parses hv
  rw [position_eq htokens, htracks.names]
  conv_rhs => rw [htokens]
  exact declares_iff_getElem?

/-- A call that starts behind an undeclared target and fails in an initializer: the variable stays
declared. -/
theorem declared_iff_failed_initializer :
    let sign : Token := .spelled .bracket ")"
    let tokens := [.spelled .identifier "y", .spelled .keyword "let", .spelled .keyword "variable",
      .spelled .identifier "x", .spelled .operator "=", sign]
    let v := (parse tokens).toProgress.parse
    (parse tokens).position tokens = 1 ∧ v.error? = some (.invalidExpression sign) ∧
      "x" ∈ v.names := by
  intro sign tokens v
  have hcall : v ∈ (Progress.start tokens).parses 2 := List.mem_cons_of_mem _ List.mem_cons_self
  have hposition : 1 + 2 < v.position tokens := by decide
  refine ⟨by decide, by decide, (declared_iff tokens 2 v hcall "x").mpr ?_⟩
  exact ⟨1, _, _, _, hposition, rfl, rfl, rfl, ⟨rfl, rfl⟩, ⟨rfl, rfl⟩, rfl, rfl⟩

end Gloss
