import Gloss.Proofs.Locations
import Gloss.Proofs.Resuming
import Gloss.Proofs.Segmenting

namespace Gloss

namespace Segment

def isError : Segment → Bool
  | error _ => true
  | gap _ | token _ => false

variable {errorSpan : Option Span} {t : Token} {ts : List Token} {cut : List Segment}

theorem isError_ofToken : (ofToken errorSpan t).isError = decide (errorSpan = some t.span) := by
  rw [ofToken]
  split <;> simp [isError, *]

theorem filter_isError (cut : List Segment) :
    cut.filter isError = (cut.filter (·.token?.isSome)).filter isError := by
  rw [List.filter_filter]
  apply List.filter_congr
  intro s _
  cases s <;> rfl

/-- The tokens that are marked are those with the span of the error. -/
theorem filter_isError_segments (source : String) (ts : List Token) (errorSpan : Option Span) :
    (segments source ts errorSpan).filter isError =
      ((tokens (segments source ts errorSpan)).filter (errorSpan = some ·.span)).map error := by
  rw [filter_isError, (cuts_segments source ts errorSpan).filter_token, List.filter_map]
  have hmark : isError ∘ ofToken errorSpan = fun t => decide (errorSpan = some t.span) :=
    funext fun t => isError_ofToken
  rw [hmark]
  apply List.map_congr_left
  intro t ht
  exact ofToken_eq_error_iff.mpr (of_decide_eq_true (List.mem_filter.mp ht).2)

end Segment

section Report

variable {source : String} {t : Token} {errorSpan : Option Span}

/-- The tokens of a text all fit. -/
theorem sifts_tokenize (source : String) :
    Sifts (Token.Fits source) [] (tokenize source) (tokenize source) := by
  apply sifts_self
  intro before t after hsplit
  have hordered := tokenize_ordered source
  have hmem : t ∈ tokenize source := by simp [hsplit]
  -- Every token is a slice, and ends before those behind it start.
  rw [hsplit, List.pairwise_append] at hordered
  refine ⟨?_, (slice_of_mem_tokenize hmem).2.2⟩
  rw [List.nil_append, lastStop]
  cases hlast : before.getLast? with
  | none => exact Nat.zero_le _
  | some u => exact hordered.2.2 u (List.mem_of_getLast? hlast) t List.mem_cons_self

/-- The tokens of a text are all cut out of it. -/
theorem tokens_segments (source : String) (errorSpan : Option Span) :
    Segment.tokens (segments source (tokenize source) errorSpan) = tokenize source :=
  (sifts_segments source (tokenize source) errorSpan).unique (sifts_tokenize source)

/-- No token of a text comes twice. -/
theorem nodup_tokenize (source : String) : (tokenize source).Nodup := by
  apply (tokenize_ordered source).imp_of_mem
  intro s t hs _ hstop heq
  have hwide := (slice_of_mem_tokenize hs).1
  rw [← heq] at hstop
  omega

/-- Without an error at a token no token is marked. -/
theorem filter_isError_none (source : String) :
    (segments source (tokenize source) none).filter Segment.isError = [] := by
  rw [Segment.filter_isError_segments]
  simp

/-- With an error at a token just this one is marked, at its index among the tokens. -/
theorem filter_isError_some (h : t ∈ tokenize source) :
    (segments source (tokenize source) (some t.span)).filter Segment.isError = [.error t] := by
  have hspan : (fun u : Token => decide (some t.span = some u.span)) =
      fun u => decide (u.span = t.span) := by
    funext u
    simp [eq_comm]
  rw [Segment.filter_isError_segments, tokens_segments, hspan, filter_span_tokenize h]
  rfl

theorem getElem?_segments {i : Nat} (h : (tokenize source)[i]? = some t) :
    ((segments source (tokenize source) (some t.span)).filter (·.token?.isSome))[i]? =
      some (.error t) := by
  rw [(cuts_segments source (tokenize source) _).filter_token, tokens_segments, List.getElem?_map,
    h, Option.map_some, Segment.ofToken_eq_error_iff.mpr rfl]

end Report

/-- Every token of a report is cut out of the text, once and in order. Of these segments none is
marked if the parse accepts the tokens or they end too early; else the one is marked whose token the
error of the parse carries, and its index in the report is that at which the parse found the
error. -/
theorem check_marks_error (source : String) :
    let report : Report := check source
    let cut : List Segment := segments source report.tokens report.outcome.errorSpan?
    let v : Verdict := parse report.tokens
    report.tokens = tokenize source ∧ Segment.tokens cut = report.tokens ∧ report.tokens.Nodup ∧
    (v.error? = none ∧ report.outcome = .clean ∧ cut.filter Segment.isError = [] ∨
      ∃ f, v.error? = some f.diagnostic.error ∧ report.outcome = .syntaxError f ∧
        (f.diagnostic.error.token? = none ∧ f.location.span? = none ∧
            cut.filter Segment.isError = [] ∨
          ∃ t i, f.diagnostic.error.token? = some t ∧ f.location.span? = some t.span ∧
            i = v.errorIndex report.tokens ∧ report.tokens[i]? = some t ∧
            cut.filter Segment.isError = [.error t] ∧
            (cut.filter (·.token?.isSome))[i]? = some (.error t))) := by
  intro report cut v
  have hcut : cut = segments source (tokenize source) report.outcome.errorSpan? := rfl
  -- The segments are those of the tokens whether or not one of them is marked.
  refine ⟨rfl, tokens_segments source _, nodup_tokenize source, ?_⟩
  cases houtcome : report.outcome with
  | unknown message => exact absurd houtcome (outcome_ne_unknown source message)
  | clean =>
    rw [houtcome] at hcut
    rw [hcut]
    exact Or.inl ⟨outcome_eq_clean_iff.mp houtcome, rfl, filter_isError_none source⟩
  | syntaxError f =>
    obtain ⟨e, he, rfl⟩ := outcome_eq_syntaxError_iff.mp houtcome
    have hspan : (Location.ofError source e).span? = e.token?.map (·.span) := span?_ofError source e
    have hmark : report.outcome.errorSpan? = e.token?.map (·.span) := by rw [houtcome, ← hspan]; rfl
    rw [hmark] at hcut
    rw [hcut]
    -- An error without a token is at the end of input and has no span to mark.
    refine Or.inr ⟨_, he, rfl, ?_⟩
    cases ht : e.token? with
    | none =>
      rw [ht] at hspan
      exact Or.inl ⟨ht, hspan, filter_isError_none source⟩
    | some t =>
      rw [ht] at hspan
      have hget := getElem?_errorIndex he ht
      have hmarked := filter_isError_some (mem_of_error he ht)
      exact Or.inr ⟨t, _, ht, hspan, rfl, hget, hmarked, getElem?_segments hget⟩

end Gloss
