import Gloss.Proofs.Coverage
import Gloss.Proofs.Reporting
import Gloss.Proofs.Resuming

namespace Gloss

def Goal.wants : List Wanted :=
  demands.map .token ++ [.token (.ofBracket closeBrace),
    .phrase "'variable' or 'function' after 'let'", .phrase "expression"]

def SyntaxError.WantsKnown : SyntaxError → Prop
  | expectedToken wanted _ => wanted ∈ Goal.demands
  | endOfInput wanted => wanted ∈ Goal.wants
  | _ => True

namespace Goal

variable {g : Goal} {s : NameSet} {t : Token} {past : List Token} {last : Bool} {e : SyntaxError}

/-- Goals that suit the tokens before them demand only a few things. -/
theorem demand_of_suits {wanted : Expectation} (h : (token wanted).Suits past) :
    wanted ∈ demands :=
  of_decide_eq_true h

theorem wantsKnown_of_missing (hg : g.Suits past) (h : g.missing? s = some e) : e.WantsKnown := by
  cases g with
  | statement => cases hg
  | token wanted =>
    obtain rfl := Option.some.inj h
    exact List.mem_append_left _ (List.mem_map_of_mem (demand_of_suits hg))
  | restOfBlock | newVariable | declarator | expression | term | factor =>
    obtain rfl := Option.some.inj h
    rw [SyntaxError.WantsKnown]
    decide
  | declared target =>
    rw [missing?] at h
    split at h
    · cases h
    · obtain rfl := Option.some.inj h
      exact trivial
  | _ => cases h

theorem wantsKnown_of_fails (hg : g.Suits past) (h : g.offer s t last = .fails e) :
    e.WantsKnown := by
  cases failsOn_of_offer h with
  | first _ _ _ herror => rcases of_afterFirst_error herror with rfl | rfl <;> exact trivial
  | operand _ _ _ herror =>
    obtain rfl := of_afterOperandStart_error herror
    exact trivial
  | token => exact demand_of_suits hg
  | newVariable => exact List.mem_cons_self
  | declared | declarator => exact trivial

end Goal

/-- Wherever a call starts, its error wants one of a few things. -/
theorem Progress.wantsKnown_of_parse {p : Progress} {e : SyntaxError}
    (h : p.parse.error? = some e) : e.WantsKnown := by
  have hfits : Goal.Fits [] [.statements] := Goal.fits_statements
  obtain ⟨past, g, -, hsuits, ⟨-, hmissing⟩ | ⟨t, r, -, hfails⟩⟩ := Goal.exists_failing hfits h
  · exact Goal.wantsKnown_of_missing hsuits hmissing
  · exact Goal.wantsKnown_of_fails hsuits hfails

def isPrintable (c : Char) : Bool := ' ' ≤ c && c ≤ '~'

/-- That a text shows, besides printable characters, only characters of a source. -/
def DrawnFrom (source text : String) : Prop := ∀ c ∈ text.toList, isPrintable c ∨ c ∈ source.toList

section DrawnFrom

variable {source a b text : String} {t : Token} {e : SyntaxError}

theorem drawnFrom_append :
    DrawnFrom source (a ++ b) ↔ DrawnFrom source a ∧ DrawnFrom source b := by
  simp only [DrawnFrom, String.toList_append, List.forall_mem_append]

theorem drawnFrom_of_all (h : text.toList.all isPrintable) : DrawnFrom source text :=
  fun _ hc => Or.inl (List.all_eq_true.mp h _ hc)

/-- A text between two printable ones. -/
theorem DrawnFrom.within (h : DrawnFrom source text) (ha : a.toList.all isPrintable)
    (hb : b.toList.all isPrintable) : DrawnFrom source (a ++ text ++ b) := by
  rw [drawnFrom_append, drawnFrom_append]
  exact ⟨⟨drawnFrom_of_all ha, h⟩, drawnFrom_of_all hb⟩

theorem drawnFrom_tag (c : Category) : DrawnFrom source c.tag := by
  apply drawnFrom_of_all
  cases c <;> rfl

theorem isPrintable_of_isDigit {c : Char} (h : c.isDigit) : isPrintable c := by
  rw [Char.isDigit, Bool.and_eq_true, decide_eq_true_iff, decide_eq_true_iff] at h
  rw [isPrintable, Bool.and_eq_true, decide_eq_true_iff, decide_eq_true_iff]
  have hblank : ' ' ≤ '0' := by decide
  have htilde : '9' ≤ '~' := by decide
  exact ⟨Char.le_trans hblank h.1, Char.le_trans h.2 htilde⟩

theorem drawnFrom_toString (n : Nat) : DrawnFrom source (toString n) := by
  apply drawnFrom_of_all
  rw [List.all_eq_true, Nat.toString_eq_ofList_toDigits, String.toList_ofList]
  exact fun c hc => isPrintable_of_isDigit (Nat.isDigit_of_mem_toDigits (by decide) (by decide) hc)

/-- Tokens are drawn from their text. -/
theorem drawnFrom_text (h : t ∈ tokenize source) : DrawnFrom source t.text := by
  obtain ⟨-, -, before, after, hsource, -⟩ := slice_of_mem_tokenize h
  intro c hc
  rw [hsource, String.toList_append, String.toList_append]
  exact Or.inr (List.mem_append_left _ (List.mem_append_right _ hc))

/-- A message shows the text of its token, and what is wanted in printable characters. -/
theorem drawnFrom_message (hwants : e.WantsKnown)
    (htoken : ∀ t ∈ e.token?, DrawnFrom source t.text) : DrawnFrom source e.message := by
  unfold SyntaxError.message
  -- Only the two messages that name what is wanted have other parts than fixed words and the token.
  cases e with
  | expectedToken wanted found =>
    have hall : ∀ wanted ∈ Goal.demands, (wanted.text.getD "").toList.all isPrintable := by
      decide +kernel
    have hwanted : DrawnFrom source (wanted.text.getD "") := drawnFrom_of_all (hall wanted hwants)
    have hfound : DrawnFrom source found.text := htoken found rfl
    dsimp only
    split <;> simp (disch := decide) only [drawnFrom_append, drawnFrom_of_all, drawnFrom_tag,
      hwanted, hfound, and_self]
  | endOfInput wanted =>
    have hall : ∀ wanted ∈ Goal.wants, wanted.describe.toList.all isPrintable := by
      decide +kernel
    have hwanted : DrawnFrom source wanted.describe := drawnFrom_of_all (hall wanted hwants)
    exact hwanted.within (by decide) (by decide)
  | unknownKeyword found | unexpectedToken found | expectedDeclarator found
  | undeclaredVariable found | invalidExpression found =>
    exact (htoken found rfl).within (by decide) (by decide)

theorem drawnFrom_location (l : Location) : DrawnFrom source l.describe := by
  unfold Location.describe
  cases l <;> simp (disch := decide) only [drawnFrom_append, drawnFrom_of_all, drawnFrom_toString,
    and_self]

/-- The status of a check shows, besides printable characters, only characters of the text. -/
theorem drawnFrom_status (source : String) : DrawnFrom source (check source).outcome.status := by
  cases houtcome : (check source).outcome with
  | clean => exact drawnFrom_of_all (by decide)
  | unknown message => exact absurd houtcome (outcome_ne_unknown source message)
  | syntaxError f =>
    obtain ⟨e, he, rfl⟩ := outcome_eq_syntaxError_iff.mp houtcome
    have hmessage : DrawnFrom source e.message :=
      drawnFrom_message (Progress.wantsKnown_of_parse he) fun t ht =>
        drawnFrom_text (mem_of_error he ht)
    unfold Outcome.status Finding.describe Finding.message
    simp only [drawnFrom_append]
    exact ⟨⟨hmessage, drawnFrom_of_all (by decide)⟩, drawnFrom_location _⟩

end DrawnFrom
end Gloss
