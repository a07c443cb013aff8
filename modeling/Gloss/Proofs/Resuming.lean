import Gloss.Proofs.Antecedents
import Gloss.Proofs.ViablePrefix

namespace Gloss

namespace Progress

variable {P : Progress → Prop} {p : Progress} {tokens : List Token} {v : Verdict} {calls : Nat}

/-- What is kept by a call holds wherever one of several calls starts. -/
theorem exists_of_mem_parses (hstep : ∀ p, P p → P p.parse.toProgress) (hp : P p)
    (hv : v ∈ p.parses calls) : ∃ q, P q ∧ v = q.parse := by
  induction calls generalizing p with
  | zero => cases hv
  | succ calls ih =>
    rw [parses] at hv
    rcases List.mem_cons.mp hv with rfl | hv
    · exact ⟨p, hp, rfl⟩
    · exact ih (hstep p hp) hv

theorem unread_suffix (p : Progress) : p.parse.unread <:+ p.unread :=
  Goal.unread_suffix [.statements] p.names p.unread

/-- Every call starts somewhere in the list. -/
theorem exists_read_of_mem_parses (hv : v ∈ (start tokens).parses calls) :
    ∃ p : Progress, ∃ past, tokens = past ++ p.unread ∧ v = p.parse := by
  have hstep (p : Progress) (hp : p.unread <:+ tokens) : p.parse.unread <:+ tokens :=
    p.unread_suffix.trans hp
  obtain ⟨p, ⟨past, hpast⟩, rfl⟩ := exists_of_mem_parses hstep List.suffix_rfl hv
  exact ⟨p, past, hpast.symm, rfl⟩

end Progress

def before? (tokens : List Token) : Nat → Option Token
  | 0 => none
  | i + 1 => tokens[i]?

theorem before?_length {past ts : List Token} {t : Token} (h : [t] <:+ past) :
    before? (past ++ ts) past.length = some t := by
  obtain ⟨past, rfl⟩ := h
  simp [before?]

namespace SyntaxError

/-- What an error says about the tokens and the declared names, when the tokens have been read up to
an index. -/
def HoldsAt (tokens : List Token) (i : Nat) (names : NameSet) : SyntaxError → Prop
  | expectedToken wanted found => tokens[i]? = some found ∧ wanted.admits found = false
  | endOfInput _ => i = tokens.length
  | unknownKeyword found => tokens[i]? = some found ∧ found.category = .keyword ∧
      ∀ word ∈ ["let", "if", "return"], found.text ≠ word
  | unexpectedToken found => tokens[i]? = some found ∧
      (found.category ∈ [.operator, .literal, .bracket] ∨
        found.category = .identifier ∧ i + 1 = tokens.length)
  | expectedDeclarator found => tokens[i]? = some found ∧
      (∃ l, before? tokens i = some l ∧ l.Spells .keyword "let") ∧
      ¬found.Spells .keyword "variable" ∧ ¬found.Spells .keyword "function"
  | undeclaredVariable target => before? tokens i = some target ∧ i < tokens.length ∧
      target.category = .identifier ∧ target.text ∉ names
  | invalidExpression found => tokens[i]? = some found ∧
      (∃ t, before? tokens i = some t ∧ t.CallsForOperand) ∧
      found.category ≠ .literal ∧ found.category ≠ .identifier ∧ ¬found.Spells .bracket "("

variable {tokens : List Token} {i : Nat} {names : NameSet} {e : SyntaxError} {t : Token}

theorem HoldsAt.token?_eq_none_iff (h : e.HoldsAt tokens i names) :
    e.token? = none ↔ i = tokens.length := by
  cases e with
  | endOfInput _ => exact iff_of_true rfl h
  | undeclaredVariable target => exact iff_of_false nofun h.2.1.ne
  | _ => exact iff_of_false nofun (List.getElem?_eq_some_iff.mp h.1).1.ne

/-- An error is about the next token, or the one before it if that is an undeclared target. -/
theorem HoldsAt.of_token? (h : e.HoldsAt tokens i names) (ht : e.token? = some t) :
    if e.kind = .undeclaredVariable then before? tokens i = some t else tokens[i]? = some t := by
  cases e with
  | endOfInput _ => cases ht
  | _ =>
    obtain rfl := Option.some.inj ht
    exact h.1

end SyntaxError

namespace Goal

variable {g : Goal} {s : NameSet} {t : Token} {past r : List Token} {e : SyntaxError}

theorem getElem?_past : (past ++ t :: r)[past.length]? = some t := by simp

theorem holdsAt_of_afterFirst (h : afterFirst t r.isEmpty = .error e) :
    e.HoldsAt (past ++ t :: r) past.length s := by
  unfold afterFirst at h
  split at h
  case h_1 hcategory =>
    split at h
    case h_4 hlet hif hreturn =>
      obtain rfl := Except.error.inj h
      refine ⟨getElem?_past, hcategory, ?_⟩
      -- A keyword with one of the three texts would have been one of the three words.
      have hword (k : Keyword) (htext : t.text = k.spelling) : t.keyword? = some k :=
        Token.keyword?_eq_some_iff.mpr ⟨hcategory, htext⟩
      simp only [List.forall_mem_cons]
      exact ⟨fun ht => hlet (hword .letWord ht), fun ht => hif (hword .ifWord ht),
        fun ht => hreturn (hword .returnWord ht), nofun⟩
    all_goals cases h
  case h_2 hcategory =>
    split at h
    · next hlast =>
      obtain rfl := Except.error.inj h
      refine ⟨getElem?_past, Or.inr ⟨hcategory, ?_⟩⟩
      rw [List.isEmpty_iff.mp hlast, List.length_append]
      rfl
    · cases h
  all_goals
    rename_i hcategory
    obtain rfl := Except.error.inj h
    exact ⟨getElem?_past, Or.inl (by simp [hcategory])⟩

theorem holdsAt_of_afterOperandStart (hcall : ∃ l, [l] <:+ past ∧ l.CallsForOperand)
    (h : afterOperandStart t = .error e) : e.HoldsAt (past ++ t :: r) past.length s := by
  obtain ⟨l, hl, hcalls⟩ := hcall
  -- Literals, names and opening parentheses are not refused.
  by_cases hleaf : t.category = .literal ∨ t.category = .identifier
  · cases (afterOperandStart_leaf hleaf).symm.trans h
  by_cases hopen : t.Spells .bracket "("
  · cases (afterOperandStart_parenthesis hopen).symm.trans h
  obtain rfl := of_afterOperandStart_error h
  rw [not_or] at hleaf
  exact ⟨getElem?_past, ⟨l, before?_length hl, hcalls⟩, hleaf.1, hleaf.2, hopen⟩

/-- A goal that suits the tokens before it fails for a reason that holds there. -/
theorem holdsAt_of_fails (hg : g.Suits past) (h : g.offer s t r.isEmpty = .fails e) :
    e.HoldsAt (past ++ t :: r) past.length s := by
  cases failsOn_of_offer h with
  | first _ _ _ herror => exact holdsAt_of_afterFirst herror
  | operand _ _ hoperand herror =>
    have hcall : ∃ l, [l] <:+ past ∧ l.CallsForOperand := by
      rcases hoperand with rfl | rfl | rfl <;> exact hg
    exact holdsAt_of_afterOperandStart hcall herror
  | token _ hwanted | newVariable hwanted => exact ⟨getElem?_past, Bool.eq_false_iff.mpr hwanted⟩
  | declared _ hdecl => exact ⟨before?_length hg.1, by simp, hg.2, hdecl⟩
  | declarator hvariable hfunction =>
    obtain ⟨l, hl, hlet⟩ := hg
    refine ⟨getElem?_past, ⟨l, before?_length hl, hlet⟩, fun ht => ?_, fun ht => ?_⟩
    · exact hvariable (Token.keyword?_eq_some_iff.mpr ht)
    · exact hfunction (Token.keyword?_eq_some_iff.mpr ht)

end Goal

/-- One call, from wherever it starts: its error holds where it stops. -/
theorem Progress.holdsAt_parse {p : Progress} {tokens past : List Token} {e : SyntaxError}
    (hpast : tokens = past ++ p.unread) (he : p.parse.error? = some e) :
    e.HoldsAt tokens (p.parse.position tokens) p.parse.names := by
  obtain ⟨read, g, hread, hsuits, hcause⟩ := Goal.exists_failing Goal.fits_statements he
  have htokens : tokens = past ++ read ++ p.parse.unread := by
    rw [List.append_assoc, hpast]
    exact congrArg (past ++ ·) hread
  have hposition : p.parse.position tokens = (past ++ read).length := position_eq htokens
  -- The call stops at the end of input or at a token on which a goal fails.
  rcases hcause with ⟨hunread, -⟩ | ⟨t, r, hunread, hfails⟩
  · -- At the end of input no demand for a declared name is left.
    obtain ⟨wanted, rfl⟩ :=
      Goal.exists_endOfInput Goal.clear_start.tail (fun _ => Goal.clear_start) hunread he
    have hend : p.parse.unread = [] := hunread
    rw [hposition, htokens, hend, List.append_nil]
    rfl
  · have hnext : p.parse.unread = t :: r := hunread
    rw [hposition, htokens, hnext]
    exact Goal.holdsAt_of_fails hsuits hfails

/-- After a call, the token at the index of its error is the one that the error is about. -/
theorem Progress.getElem?_errorIndex {p : Progress} {tokens past : List Token} {e : SyntaxError}
    {t : Token} (hpast : tokens = past ++ p.unread) (he : p.parse.error? = some e)
    (ht : e.token? = some t) : tokens[p.parse.errorIndex tokens]? = some t := by
  have hplace := (p.holdsAt_parse hpast he).of_token? ht
  rw [errorIndex_eq he]
  by_cases hkind : e.kind = .undeclaredVariable
  · rw [if_pos hkind] at hplace ⊢
    -- A token stands before the place, so the place is not the start.
    cases hposition : p.parse.position tokens with
    | zero =>
      rw [hposition] at hplace
      cases hplace
    | succ i =>
      rw [hposition] at hplace
      exact hplace
  · rw [if_neg hkind] at hplace ⊢
    exact hplace

/-- The token of an error stands at its index. -/
theorem getElem?_errorIndex {tokens : List Token} {e : SyntaxError} {t : Token}
    (he : (parse tokens).error? = some e) (ht : e.token? = some t) :
    tokens[(parse tokens).errorIndex tokens]? = some t :=
  Progress.getElem?_errorIndex (List.nil_append tokens).symm he ht

/-- Over any number of calls, an error is at the end of input exactly if it is about no token; else
it is about the token that was to be read next, or the one before it if that is an undeclared
target. What it says about that token and its neighbours is true. -/
theorem errors_hold (tokens : List Token) (calls : Nat) (v : Verdict) (e : SyntaxError)
    (hv : v ∈ (Progress.start tokens).parses calls) (he : v.error? = some e) :
    (e.kind = .endOfInput ↔ e.token? = none) ∧
    (e.token? = none ↔ v.position tokens = tokens.length) ∧
    (∀ t, e.token? = some t → if e.kind = .undeclaredVariable
      then before? tokens (v.position tokens) = some t
      else tokens[v.position tokens]? = some t) ∧
    e.HoldsAt tokens (v.position tokens) v.names := by
  obtain ⟨p, past, hpast, rfl⟩ := Progress.exists_read_of_mem_parses hv
  have hholds : e.HoldsAt tokens (p.parse.position tokens) p.parse.names := p.holdsAt_parse hpast he
  exact ⟨e.token?_eq_none_iff.symm, hholds.token?_eq_none_iff, fun t => hholds.of_token?, hholds⟩

/-- A call that starts inside a declaration, where the call before it found no name. -/
theorem errors_hold_inside_declaration :
    let sign : Token := .spelled .operator "="
    let tokens := [.spelled .keyword "let", .spelled .keyword "variable",
      .spelled .keyword "return", .spelled .identifier "x", sign]
    let v := (parse tokens).toProgress.parse
    (parse tokens).position tokens = 2 ∧ v.error? = some (.unexpectedToken sign) ∧
      tokens[v.position tokens]? = some sign ∧
      (SyntaxError.unexpectedToken sign).HoldsAt tokens (v.position tokens) v.names := by
  intro sign tokens v
  have herror : v.error? = some (.unexpectedToken sign) := by decide
  have hcall : v ∈ (Progress.start tokens).parses 2 := List.mem_cons_of_mem _ List.mem_cons_self
  obtain ⟨-, -, htoken, hholds⟩ := errors_hold tokens 2 v _ hcall herror
  exact ⟨by decide, herror, htoken sign rfl, hholds⟩

end Gloss
