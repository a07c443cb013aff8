import Gloss.Proofs.Coverage
import Gloss.Proofs.Positions
import Gloss.Proofs.Reporting

namespace Gloss

open OnePass

structure Finding.AtToken (f : Finding) (source : String) (tokens : List Token) (t : Token) :
    Prop where
  token : f.diagnostic.error.token? = some t
  /-- No other of the tokens has the same span. -/
  only : tokens.filter (·.span = t.span) = [t]
  nonempty : t.span.start < t.span.stop
  inside : t.span.stop ≤ source.utf8ByteSize
  /-- The span is between characters, and the text in it is the one of the token. -/
  slice : ∃ before after, source = before ++ t.text ++ after ∧
    t.span = ⟨before.utf8ByteSize, (before ++ t.text).utf8ByteSize⟩
  /-- The line and the column lead to the start of the span. -/
  location : ∃ p : Position, f.location = .token t.span p ∧ p.offset? source = some t.span.start
  label : f.diagnostic.label = some ⟨t.span.start, t.span.stop - t.span.start⟩
  /-- To tell where the text ends changes nothing about it. -/
  withEndOfInput : ∀ offset, f.diagnostic.withEndOfInput offset = f.diagnostic

structure Finding.AtEnd (f : Finding) (source : String) : Prop where
  kind : f.kind = .endOfInput
  token : f.diagnostic.error.token? = none
  location : ∃ p : Position, f.location = .endOfInput source.utf8ByteSize p ∧
    p = .ofOffset source source.utf8ByteSize ∧ p.offset? source = some source.utf8ByteSize
  label : (f.diagnostic.withEndOfInput source.utf8ByteSize).label = some ⟨source.utf8ByteSize, 0⟩

section Located

variable {source : String} {t : Token} {e : SyntaxError}

/-- Tokens that follow each other have different spans. -/
theorem filter_span_tokenize (h : t ∈ tokenize source) :
    (tokenize source).filter (·.span = t.span) = [t] := by
  have hwide := (slice_of_mem_tokenize h).1
  obtain ⟨earlier, later, htokens⟩ := List.append_of_mem h
  have hsplit := tokenize_ordered source
  rw [htokens, List.pairwise_append, List.pairwise_cons] at hsplit
  obtain ⟨-, ⟨hlater, -⟩, hearlier⟩ := hsplit
  -- Another token with this span would end before the token starts, or start behind its end.
  have hbefore : earlier.filter (·.span = t.span) = [] := by
    rw [List.filter_eq_nil_iff]
    intro u hu hspan
    have hle := hearlier u hu t List.mem_cons_self
    rw [of_decide_eq_true hspan] at hle
    omega
  have hbehind : later.filter (·.span = t.span) = [] := by
    rw [List.filter_eq_nil_iff]
    intro u hu hspan
    have hle := hlater u hu
    rw [of_decide_eq_true hspan] at hle
    omega
  have hhere : (t :: later).filter (·.span = t.span) = [t] := by
    rw [List.filter_cons_of_pos (by simp), hbehind]
  rw [htokens, List.filter_append, hbefore, hhere, List.nil_append]

theorem offset?_start (h : t ∈ tokenize source) :
    (Position.ofOffset source t.span.start).offset? source = some t.span.start := by
  obtain ⟨-, -, before, after, htext, hspan⟩ := slice_of_mem_tokenize h
  have hstart : t.span.start = byteLength before.toList := by rw [hspan, byteLength_toList]
  have hsplit : source.toList = before.toList ++ (t.text.toList ++ after.toList) := by
    rw [htext]
    simp
  rw [hstart]
  exact offset?_ofOffset hsplit

theorem offset?_end (source : String) :
    (Position.ofOffset source source.utf8ByteSize).offset? source = some source.utf8ByteSize := by
  rw [← byteLength_toList]
  exact offset?_ofOffset (List.append_nil _).symm

/-- The line and the column, the span and the label of an error all lead to its token. -/
theorem atToken_of_error (h : t ∈ tokenize source) (ht : e.token? = some t) :
    (Finding.ofDiagnostic source (.ofError e)).AtToken source (tokenize source) t := by
  obtain ⟨hwide, hinside, hslice⟩ := slice_of_mem_tokenize h
  have hlabel : (Diagnostic.ofError e).label = some t.span.label := by
    rw [Diagnostic.ofError, ht]
    rfl
  have hlocation : Location.ofError source e =
      .token t.span (.ofOffset source t.span.start) := by
    rw [Location.ofError, ht]
  have hend (offset : Nat) :
      (Diagnostic.ofError e).withEndOfInput offset = Diagnostic.ofError e := by
    have htoken : (Diagnostic.ofError e).error.token? = some t := ht
    rw [Diagnostic.withEndOfInput, if_neg (by rw [htoken]; exact Option.some_ne_none t)]
  exact ⟨ht, filter_span_tokenize h, hwide, hinside, hslice, ⟨_, hlocation, offset?_start h⟩,
    hlabel, hend⟩

/-- An error without a token is at the end of the text, and its label is empty. -/
theorem atEnd_of_error (ht : e.token? = none) :
    (Finding.ofDiagnostic source (.ofError e)).AtEnd source := by
  have hlocation : Location.ofError source e =
      .endOfInput source.utf8ByteSize (.ofOffset source source.utf8ByteSize) := by
    rw [Location.ofError, ht]
  have hpoint : (Span.point source.utf8ByteSize).label = ⟨source.utf8ByteSize, 0⟩ := by
    rw [Span.label, Span.length, Span.point, Nat.sub_self]
  have htoken : (Diagnostic.ofError e).error.token? = none := ht
  have hlabel : ((Diagnostic.ofError e).withEndOfInput source.utf8ByteSize).label =
      some ⟨source.utf8ByteSize, 0⟩ := by
    rw [Diagnostic.withEndOfInput, if_pos htoken, ← hpoint]
  exact ⟨(SyntaxError.token?_eq_none_iff e).mp ht, ht, ⟨_, hlocation, rfl, offset?_end source⟩,
    hlabel⟩

end Located

/-- All that a check finds wrong in a text is at one of its tokens or at its end. -/
theorem check_located (source : String) (h : (check source).outcome ≠ .clean) :
    ∃ f, (check source).outcome = .syntaxError f ∧
      ((∃ t, f.AtToken source (check source).tokens t) ∨ f.AtEnd source) := by
  cases houtcome : (check source).outcome with
  | clean => exact absurd houtcome h
  | unknown message => exact absurd houtcome (outcome_ne_unknown source message)
  | syntaxError f =>
    obtain ⟨e, he, rfl⟩ := outcome_eq_syntaxError_iff.mp houtcome
    refine ⟨_, rfl, ?_⟩
    cases ht : e.token? with
    | none => exact Or.inr (atEnd_of_error ht)
    | some t => exact Or.inl ⟨t, atToken_of_error (mem_of_error he ht) ht⟩

/-- A name in the second line, behind a quoted text of three characters and four bytes. -/
theorem check_located_second_line :
    let source := "let variable s\ns = 'é' y"
    (check source).outcome ≠ .clean ∧ ∃ f, (check source).outcome = .syntaxError f ∧
      f.location = .token ⟨24, 25⟩ ⟨2, 9⟩ ∧ ∃ t, f.AtToken source (check source).tokens t := by
  intro source
  have herror : (parse (scan 0 source.toList)).error? =
      some (.unexpectedToken ⟨⟨24, 25⟩, "y", .identifier⟩) := by decide +kernel
  have hf := outcome_of_scan herror
  have hdirty : (check source).outcome ≠ .clean := by rw [hf]; exact nofun
  obtain ⟨f, hf', hplace⟩ := check_located source hdirty
  obtain rfl := Outcome.syntaxError.inj (hf.symm.trans hf')
  have hlocation : Location.ofError source (.unexpectedToken ⟨⟨24, 25⟩, "y", .identifier⟩) =
      .token ⟨24, 25⟩ ⟨2, 9⟩ := by decide +kernel
  refine ⟨hdirty, _, hf, hlocation, ?_⟩
  rcases hplace with htoken | hend
  · exact htoken
  · cases hend.token

end Gloss
