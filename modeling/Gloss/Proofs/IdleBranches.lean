import Gloss.Proofs.Faultless
import Gloss.Proofs.Lookahead
import Gloss.Proofs.Wording

namespace Gloss

/-- The errors of branches that are never taken. -/
inductive SyntaxError.Idle : SyntaxError → Prop where
  /-- A statement is begun only where a token is left. -/
  | noStatement : Idle (.endOfInput (.phrase "statement"))
  /-- A reserved word is read only where it was seen. -/
  | otherThanKeyword (wanted : Expectation) (found : Token) (h : wanted.category = .keyword) :
      Idle (.expectedToken wanted found)
  | noKeyword (wanted : Expectation) (h : wanted.category = .keyword) :
      Idle (.endOfInput (.token wanted))
  /-- A semicolon is read only where it was seen. -/
  | otherThanSemicolon (found : Token) : Idle (.expectedToken (.ofOperator .semicolon) found)
  | noSemicolon : Idle (.endOfInput (.token (.ofOperator .semicolon)))
  /-- A name starts an assignment only if it is not the last token. -/
  | noAssign : Idle (.endOfInput (.token (.ofOperator .assign)))
  /-- The statements of a block go on to its closing brace or to the end of input. -/
  | otherThanCloseBrace (found : Token) : Idle (.expectedToken (.ofBracket Goal.closeBrace) found)
  /-- A demand without a text is met by the kind alone. -/
  | noText (wanted : Expectation) (found : Token) (hkind : found.category = wanted.category)
      (htext : wanted.text = none) : Idle (.expectedToken wanted found)
  /-- What was found to be there is there when it is read. -/
  | asWanted (wanted : Expectation) (found : Token) (h : wanted.admits found) :
      Idle (.expectedToken wanted found)

namespace Goal

variable {g : Goal} {gs gs₁ m n : List Goal} {s s₁ : NameSet} {t u : Token} {ts : List Token}
  {last : Bool}

def sign : Goal := .token (.ofOperator .assign)

/-- What a name leaves that starts an assignment: it has to be declared, and the sign is next. -/
def Assigns (t : Token) (gs : List Goal) : Prop := ∃ m, gs = .declared t :: sign :: m ∧ sign ∉ m

theorem Assigns.append (h : Assigns t n) (hgs : sign ∉ gs) : Assigns t (n ++ gs) := by
  obtain ⟨m, rfl, hm⟩ := h
  exact ⟨m ++ gs, rfl, List.not_mem_append hm hgs⟩

theorem sign_of_afterFirst (h : afterFirst t last = .ok n) :
    sign ∉ n ∨ last = false ∧ Assigns t n := by
  rcases of_afterFirst h with ⟨-, rfl⟩ | ⟨-, rfl⟩ | ⟨-, rfl⟩ | ⟨-, hlast, rfl⟩
  · exact Or.inl (by decide)
  · exact Or.inl (by decide)
  · exact Or.inl (by decide)
  · exact Or.inr ⟨hlast, _, rfl, by decide⟩

/-- Only a name that starts an assignment leaves a demand for the sign, never as the last token. -/
theorem sign_of_reads (h : g.offer s t last = .reads s₁ n) :
    sign ∉ n ∨ last = false ∧ Assigns t n := by
  have hremainders : ∀ n ∈ remainders, sign ∉ n := by decide
  -- Loops and remainders hold no such demand, which leaves the start of a statement.
  cases readsOn_of_offer h with
  | declares => exact Or.inl List.not_mem_nil
  | starts _ hm => exact sign_of_afterFirst hm
  | startsOne _ _ hloop hm =>
    have hnot : sign ∉ [g] := by rcases hloop with rfl | rfl <;> decide
    rcases sign_of_afterFirst hm with hn | ⟨hlast, hassigns⟩
    · exact Or.inl (List.not_mem_append hn hnot)
    · exact Or.inr ⟨hlast, hassigns.append hnot⟩
  | leaves _ _ _ hn => exact Or.inl (hremainders n hn)

/-- That the sign of an assignment is demanded right behind its target, if at all, and then there is
a token to be it. -/
def SignFollows (gs : List Goal) (ts : List Token) : Prop :=
  sign ∉ gs ∨ ts ≠ [] ∧ ∃ t, Assigns t gs

theorem signFollows_statements : SignFollows [.statements] ts := Or.inl (by decide)

/-- Where the sign is demanded, the next token is the sign or refused. -/
theorem sign_of_assigns (h : Assigns u gs) (hread : offerAll s t last gs = .read s₁ gs₁) :
    sign ∉ gs₁ := by
  obtain ⟨m, rfl, hm⟩ := h
  by_cases hu : u.text ∈ s
  · have hskip : offerAll s t last (.declared u :: sign :: m) = offerAll s t last (sign :: m) := by
      rw [offerAll, offer, if_pos hu]
    rw [hskip, offerAll, sign, offer] at hread
    by_cases ht : (Expectation.ofOperator .assign).admits t
    · rw [if_pos ht] at hread
      cases hread
      exact hm
    · rw [if_neg ht] at hread
      cases hread
  · rw [offerAll_undeclared hu] at hread
    cases hread

/-- One step keeps that. -/
theorem SignFollows.step (h : SignFollows gs (t :: ts))
    (hread : offerAll s t ts.isEmpty gs = .read s₁ gs₁) : SignFollows gs₁ ts := by
  rcases h with hnot | ⟨-, u, hassigns⟩
  · obtain ⟨hs, g, rest, n, rfl, -, hg, rfl⟩ := of_offerAll_read hread
    have hrest : sign ∉ rest := fun hmem =>
      hnot (List.mem_append_right hs (List.mem_cons_of_mem g hmem))
    -- No goal was left with the demand, so it is the token read now that leaves it, if any.
    rcases sign_of_reads hg with hn | ⟨hlast, hn⟩
    · exact Or.inl (List.not_mem_append hn hrest)
    · have hts : ts ≠ [] := by
        rintro rfl
        cases hlast
      exact Or.inr ⟨hts, t, hn.append hrest⟩
  · exact Or.inl (sign_of_assigns hassigns hread)

theorem eq_sign_of_missing
    (h : g.missing? s = some (.endOfInput (.token (.ofOperator .assign)))) : g = sign := by
  cases g with
  | token wanted =>
    obtain rfl := Wanted.token.inj (SyntaxError.endOfInput.inj (Option.some.inj h))
    rfl
  | declared target =>
    rw [missing?] at h
    split at h
    · cases h
    · cases Option.some.inj h
  | restOfBlock | newVariable => exact absurd (Option.some.inj h) (by decide)
  | statement | declarator | expression | term | factor => cases Option.some.inj h
  | _ => cases h

/-- A run: the sign is never missing at the end of input. -/
theorem SignFollows.not_missing (h : SignFollows gs ts) :
    (meet gs s ts).error? ≠ some (.endOfInput (.token (.ofOperator .assign))) := by
  -- The induction is on what is unread; at the end of input nothing can demand the sign.
  induction ts generalizing gs s with
  | nil =>
    intro herror
    obtain ⟨g, hg, hmissing⟩ := List.exists_of_findSome?_eq_some herror
    obtain rfl := eq_sign_of_missing hmissing
    rcases h with hnot | ⟨hnil, -⟩
    · exact hnot hg
    · exact hnil rfl
  | cons t ts ih =>
    cases hoffer : offerAll s t ts.isEmpty gs with
    | read s₁ gs₁ =>
      rw [meet, hoffer]
      exact ih (h.step hoffer)
    | met =>
      rw [meet, hoffer]
      intro herror
      cases herror
    | failed e =>
      rw [meet, hoffer]
      intro herror
      obtain rfl := Option.some.inj herror
      -- Goals fail on a token, or on a name, never for want of one.
      obtain ⟨hs, g, rest, -, -, hg⟩ := of_offerAll_failed hoffer
      rcases of_offer_fails hg with ⟨htoken, -⟩ | ⟨u, -, hundeclared, -⟩
      · cases htoken
      · cases hundeclared

end Goal

section Calls

variable {p : Progress} {e : SyntaxError}

/-- Wherever a call starts, its error is not that of a branch which is never taken. -/
theorem Progress.not_idle_of_parse (h : p.parse.error? = some e) : ¬e.Idle := by
  have hwants := p.wantsKnown_of_parse h
  have hholds := p.holdsAt_parse (List.nil_append p.unread).symm h
  have hall : ∀ wanted ∈ Goal.demands, wanted.category ≠ .keyword := by decide
  -- Most of them want what no goal demands, the others contradict the token that was found.
  intro hidle
  cases hidle with
  | noStatement | noSemicolon | otherThanSemicolon | otherThanCloseBrace =>
    exact absurd hwants (by rw [SyntaxError.WantsKnown]; decide)
  | noAssign => exact Goal.signFollows_statements.not_missing h
  | otherThanKeyword wanted found hkind => exact hall wanted hwants hkind
  | noKeyword wanted hkind =>
    rcases List.mem_append.mp hwants with hmem | hmem
    · obtain ⟨demand, hdemand, heq⟩ := List.mem_map.mp hmem
      obtain rfl := Wanted.token.inj heq
      exact hall demand hdemand hkind
    · -- Besides the demands, a token is wanted only to close a block.
      rcases List.mem_cons.mp hmem with heq | hmem
      · obtain rfl := Wanted.token.inj heq
        cases hkind
      · simp at hmem
  | noText wanted found hkind htext =>
    have hadmits : wanted.admits found := by simp [Expectation.admits, hkind, htext]
    rw [hholds.2] at hadmits
    cases hadmits
  | asWanted wanted found hadmits =>
    rw [hholds.2] at hadmits
    cases hadmits

end Calls

section Machine

/-- Runs of the parser one after the other, each from where the last one stopped. All are lost if
one of them runs out of stack. -/
def parsesOn (tokens : List Token) (depth : Nat) :
    Nat → Cursor → Option (List (Except Halt Unit × Cursor))
  | 0, _ => some []
  | calls + 1, c => do
    let run ← (Descent.program tokens depth).from? c
    return run :: (← parsesOn tokens depth calls run.2)

variable {tokens : List Token} {depth depth' calls : Nat} {c : Cursor}
  {runs : List (Except Halt Unit × Cursor)}

theorem parsesOn_succ {run : Except Halt Unit × Cursor}
    (h : (Descent.program tokens depth).from? c = some run) : parsesOn tokens depth (calls + 1) c =
      (parsesOn tokens depth calls run.2).map (run :: ·) := by
  rw [parsesOn, h, Option.map_eq_bind]
  rfl

/-- With enough room the runs one after the other end as the calls of the parse do. -/
theorem parsesOn_eq (hsize : tokens.length < Word.size) (hdepth : 7 * (tokens.length + 1) ≤ depth)
    {p : Progress} (hp : p.unread <:+ tokens) : parsesOn tokens depth calls (p.cursor tokens) =
      some ((p.parses calls).map (Verdict.ending tokens)) := by
  induction calls generalizing p with
  | zero => rfl
  | succ calls ih =>
    have hrun := Descent.from?_program_cursor hsize hdepth hp
    -- The next run starts from the progress that this one has made, be it rejected or not.
    have hnext : (p.parse.ending tokens).2 = p.parse.toProgress.cursor tokens := rfl
    rw [parsesOn_succ hrun, hnext, ih (p.unread_suffix.trans hp)]
    rfl

/-- Runs that come to an end would do so with more room. -/
theorem parsesOn_mono (hle : depth ≤ depth') (h : parsesOn tokens depth calls c = some runs) :
    parsesOn tokens depth' calls c = some runs := by
  induction calls generalizing c runs with
  | zero => exact h
  | succ calls ih =>
    cases hrun : (Descent.program tokens depth).from? c with
    | none =>
      rw [parsesOn, hrun] at h
      cases h
    | some run =>
      have hmore := Descent.extends_program_of_le hle c run hrun
      rw [parsesOn_succ hrun] at h
      obtain ⟨rest, hrest, rfl⟩ := Option.map_eq_some_iff.mp h
      rw [parsesOn_succ hmore, ih hrest]
      rfl

theorem parsesOn_settles (hsize : tokens.length < Word.size) (calls : Nat) :
    Settles (fun depth => parsesOn tokens depth calls ⟨0, ∅⟩) (7 * (tokens.length + 1))
      (((Progress.start tokens).parses calls).map (Verdict.ending tokens)) := by
  apply Settles.of_grows
  · exact fun _ _ _ hle => parsesOn_mono hle
  · intro depth hdepth
    rw [← Progress.cursor_start tokens]
    exact parsesOn_eq hsize hdepth List.suffix_rfl

/-- A run is rejected, if at all, with the error of its verdict. -/
theorem Verdict.eq_of_ending {v : Verdict} {halt : Halt} (h : (v.ending tokens).1 = .error halt) :
    ∃ e, v.error? = some e ∧ halt = .rejected (.ofError e) := by
  rw [ending] at h
  cases herror : v.error? with
  | none =>
    rw [herror] at h
    cases h
  | some e =>
    rw [herror] at h
    exact ⟨e, rfl, (Except.error.inj h).symm⟩

end Machine

/-- Any number of calls, each from where the last one stopped: no error is that of a branch which is
never taken. For so many tokens as a word can count, that is shown of the functions which have these
branches: their runs end as the calls do, or run out of stack, none meets a fault or is rejected
with such an error, and what was found to be the next token is read. -/
theorem idle_never_reported (tokens : List Token) (calls : Nat) :
    (∀ v ∈ (Progress.start tokens).parses calls, ∀ e, v.error? = some e → ¬e.Idle) ∧
    (tokens.length < Word.size →
      Settles (fun depth => parsesOn tokens depth calls ⟨0, ∅⟩) (7 * (tokens.length + 1))
        (((Progress.start tokens).parses calls).map (Verdict.ending tokens)) ∧
      (∀ depth runs, parsesOn tokens depth calls ⟨0, ∅⟩ = some runs → ∀ run ∈ runs, ∀ halt,
        run.1 = .error halt → ∃ d, halt = .rejected d ∧ ¬d.error.Idle) ∧
      ∀ depth c t, tokens[c.position]? = some t → Descent.Proceeds tokens depth c t) := by
  have hcalls : ∀ v ∈ (Progress.start tokens).parses calls, ∀ e, v.error? = some e → ¬e.Idle := by
    intro v hv e he
    obtain ⟨p, -, -, rfl⟩ := Progress.exists_read_of_mem_parses hv
    exact p.not_idle_of_parse he
  refine ⟨hcalls, fun hsize => ?_⟩
  have hsettles := parsesOn_settles hsize calls
  refine ⟨hsettles, ?_, fun depth _ _ => Descent.proceeds hsize depth⟩
  intro depth runs hruns run hmem halt hhalt
  rcases hsettles depth with hend | ⟨hnone, -⟩
  · -- Each run is the end of one of the calls.
    obtain rfl := Option.some.inj (hend.symm.trans hruns)
    obtain ⟨v, hv, rfl⟩ := List.mem_map.mp hmem
    obtain ⟨e, he, rfl⟩ := v.eq_of_ending hhalt
    exact ⟨.ofError e, rfl, hcalls v hv e he⟩
  · cases hnone.symm.trans hruns

/-- The second call starts inside an assignment, at its sign, where the first one found that the
target is not declared. A statement begun behind the sign would be missing. -/
theorem idle_never_reported_resumed :
    let target : Token := .spelled .identifier "x"
    let sign : Token := .spelled .operator "="
    let tokens := [target, sign]
    tokens.length < Word.size ∧
      parsesOn tokens 21 2 ⟨0, ∅⟩ = some
        [(.error (.rejected (.ofError (.undeclaredVariable target))), ⟨1, ∅⟩),
          (.error (.rejected (.ofError (.unexpectedToken sign))), ⟨1, ∅⟩)] ∧
      ¬(SyntaxError.unexpectedToken sign).Idle ∧
      (Descent.statement tokens 1).from? ⟨2, ∅⟩ =
        some (.error (.rejected (.ofError (.endOfInput (.phrase "statement")))), ⟨2, ∅⟩) := by
  intro target sign tokens
  have hsize : tokens.length < Word.size := by decide
  obtain ⟨hcalls, hmachine⟩ := idle_never_reported tokens 2
  obtain ⟨hsettles, -, -⟩ := hmachine hsize
  have hroom : ¬21 < 7 * (tokens.length + 1) := by decide
  have hruns := (hsettles 21).resolve_right fun hshort => hroom hshort.2
  have hsecond : (parse tokens).toProgress.parse ∈ (Progress.start tokens).parses 2 :=
    List.mem_cons_of_mem _ List.mem_cons_self
  have herror : (parse tokens).toProgress.parse.error? = some (.unexpectedToken sign) := by decide
  exact ⟨hsize, hruns, hcalls _ hsecond _ herror, rfl⟩

end Gloss
