import Gloss.Proofs.Layout
import Gloss.Proofs.Names
import Gloss.Proofs.Passing

namespace Gloss

open OnePass

theorem outcome_check (source : String) :
    (check source).outcome = checkTokens source (check source).tokens := rfl

/-- The error of a report is the error of the parse. -/
theorem outcome_eq_syntaxError_iff {source : String} {f : Finding} :
    (check source).outcome = .syntaxError f ↔ ∃ e,
      (parse (check source).tokens).error? = some e ∧ f = .ofDiagnostic source (.ofError e) := by
  rw [outcome_check, checkTokens]
  cases (parse (check source).tokens).error? with
  | none => simp
  | some e => simp [eq_comm]

theorem outcome_eq_clean_iff {source : String} :
    (check source).outcome = .clean ↔ (parse (check source).tokens).error? = none := by
  rw [outcome_check, checkTokens]
  cases (parse (check source).tokens).error? with
  | none => simp
  | some e => simp

/-- All that a check of a text finds is syntax errors. -/
theorem checkTokens_ne_unknown (source : String) (tokens : List Token) (message : String) :
    checkTokens source tokens ≠ .unknown message := by
  rw [checkTokens]
  intro h
  cases herror : (parse tokens).error? with
  | none => rw [herror] at h; cases h
  | some e => rw [herror] at h; cases h

theorem outcome_ne_unknown (source message : String) :
    (check source).outcome ≠ .unknown message :=
  checkTokens_ne_unknown source (check source).tokens message

/-- The tokens of a text are those that the scanner finds in it. -/
theorem tokens_check (source : String) : (check source).tokens = scan 0 source.toList :=
  select_candidates source

theorem outcome_of_scan {source : String} {e : SyntaxError}
    (h : (parse (scan 0 source.toList)).error? = some e) :
    (check source).outcome = .syntaxError (.ofDiagnostic source (.ofError e)) := by
  rw [← tokens_check] at h
  exact outcome_eq_syntaxError_iff.mpr ⟨e, h, rfl⟩

theorem mem_of_error {tokens : List Token} {e : SyntaxError} {t : Token}
    (h : (parse tokens).error? = some e) (ht : e.token? = some t) : t ∈ tokens :=
  Goal.mem_of_meet_error h Goal.clear_start ht

/-- The position of an offset is a matter of the text before it. -/
theorem walk_append (text more : List Char) : ∀ line characters bytes left,
    left ≤ byteLength text →
      Position.walk line characters bytes left (text ++ more) =
        Position.walk line characters bytes left text := by
  induction text with
  | nil =>
    intro line characters bytes left hleft
    obtain rfl : left = 0 := Nat.le_zero.mp hleft
    cases more with
    | nil => rfl
    | cons c more =>
      rw [List.nil_append, Position.walk, Position.walk]
      exact if_pos rfl
  | cons c text ih =>
    intro line characters bytes left hleft
    rw [byteLength_cons] at hleft
    rw [List.cons_append, Position.walk, Position.walk]
    by_cases hzero : left = 0
    · rw [if_pos hzero, if_pos hzero]
    by_cases hinside : left < c.utf8Size
    · rw [if_neg hzero, if_neg hzero, if_pos hinside, if_pos hinside]
    rw [if_neg hzero, if_neg hzero, if_neg hinside, if_neg hinside]
    -- What is left behind the character lies in the rest of the text; a line feed is one byte.
    by_cases hline : c = '\n'
    · have hsize : c.utf8Size = 1 := by rw [hline]; decide
      rw [if_pos hline, if_pos hline, ih _ _ _ _ (by omega)]
    · rw [if_neg hline, if_neg hline, ih _ _ _ _ (by omega)]

/-- The position of an offset is a matter of the text before it. -/
theorem ofOffset_append (source more : String) {offset : Nat} (h : offset ≤ source.utf8ByteSize) :
    Position.ofOffset (source ++ more) offset = Position.ofOffset source offset := by
  rw [← byteLength_toList] at h
  rw [Position.ofOffset, Position.ofOffset, String.toList_append]
  exact walk_append source.toList more.toList 1 0 0 offset h

theorem start_le_of_mem_tokens {source : String} {t : Token} (h : t ∈ (check source).tokens) :
    t.span.start ≤ source.utf8ByteSize := by
  rw [tokens_check] at h
  obtain ⟨before, after, htext, hstart, -⟩ := exists_slice h
  have hsize : source.utf8ByteSize =
      byteLength before + byteLength t.text.toList + byteLength after := by
    rw [← byteLength_toList, htext, byteLength_append, byteLength_append]
  omega

/-- What is found at a token stays the same finding when text is added at the end. -/
theorem ofDiagnostic_append {source : String} {t : Token} {d : Diagnostic}
    (ht : d.error.token? = some t) (hmem : t ∈ (check source).tokens) (more : String) :
    Finding.ofDiagnostic (source ++ more) d = Finding.ofDiagnostic source d := by
  have hposition := ofOffset_append source more (start_le_of_mem_tokens hmem)
  rw [Finding.ofDiagnostic, Finding.ofDiagnostic, Location.ofError, Location.ofError, ht]
  dsimp only
  rw [hposition]

end Gloss
