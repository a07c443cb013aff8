import Gloss.Proofs.Reporting

namespace Gloss

open OnePass

/-- A line end can replace the end of the text. -/
theorem replaces_line {y : Char} (hy : y = '\n' ∨ y = '\r') (text : List Char) :
    Replaces (y :: text) [] := by
  have hclasses : isQuote y = false ∧ CharClass.operator.has y = false ∧
      CharClass.digit.has y = false ∧ isWordChar y = false ∧ y ≠ '.' := by
    rcases hy with rfl | rfl <;> decide
  obtain ⟨hquote, hoperator, hdigit, hword, hpoint⟩ := hclasses
  refine ⟨?_, ?_, ?_⟩
  · intro z hz
    obtain rfl : y = z := Option.some.inj hz
    exact ⟨hoperator, hdigit, hpoint⟩
  · rw [List.head?_cons, Option.any_some, hword]
    rfl
  · -- The line ends before any quote of the next one.
    rintro quote hopen ⟨inside, after, htext, hinside⟩
    exfalso
    cases inside with
    | nil =>
      obtain rfl : y = quote := (List.cons.inj htext).1
      exact Bool.eq_false_iff.mp hquote hopen
    | cons z inside =>
      obtain rfl : y = z := (List.cons.inj htext).1
      have hz := hinside y List.mem_cons_self
      rcases hy with rfl | rfl <;> simp [CharClass.has] at hz

/-- No token reaches over the end of a line. -/
theorem scan_append_line {y : Char} (hy : y = '\n' ∨ y = '\r') (offset : Nat)
    (a b : List Char) :
    scan offset (a ++ y :: b) = scan offset a ++ scan (offset + (byteLength a + 1)) b := by
  have hpasses := (passes_scan a offset).replace (replaces_line hy b)
  have hother : Stretch y [] b none := by
    rcases hy with rfl | rfl <;> exact .other (by decide) (by decide) (by decide) (by decide)
  have hsize : byteLength [y] = 1 := by rcases hy with rfl | rfl <;> decide
  have hend : scan (offset + byteLength a) (y :: b) = scan (offset + (byteLength a + 1)) b := by
    have h := scan_append (offset + byteLength a) hother
    rw [hsize, Nat.add_assoc] at h
    exact h
  rw [scan_passes hpasses, hend]

/-- The tokens of two lines are those of the first, and those of the second behind them. -/
theorem tokenize_append_line (a b sep : String) (hsep : sep = "\n" ∨ sep = "\r") :
    tokenize (a ++ sep ++ b) =
      tokenize a ++ (tokenize b).map (Token.shift (a.utf8ByteSize + 1)) := by
  have hline : ∃ y, (y = '\n' ∨ y = '\r') ∧ sep.toList = [y] := by
    rcases hsep with rfl | rfl
    · exact ⟨'\n', Or.inl rfl, by decide⟩
    · exact ⟨'\r', Or.inr rfl, by decide⟩
  obtain ⟨y, hy, hsep⟩ := hline
  have htext : (a ++ sep ++ b).toList = a.toList ++ y :: b.toList := by simp [hsep]
  have hshift := scan_shift (a.utf8ByteSize + 1) b.toList 0
  have htokens (source : String) : tokenize source = scan 0 source.toList :=
    select_candidates source
  rw [htokens, htokens, htokens, htext, scan_append_line hy, byteLength_toList, hshift]

/-- A quote that is open at the end of a line is not closed by one on the next line. -/
theorem tokenize_append_line_open_quote :
    tokenize ("é = 'a" ++ "\r" ++ "b' + 1.5") =
      tokenize "é = 'a" ++ (tokenize "b' + 1.5").map (Token.shift 8) :=
  tokenize_append_line "é = 'a" "b' + 1.5" "\r" (Or.inr rfl)

/-- An error at a token stays when tokens are added, unless it is that a name ends the input. -/
theorem error_append {tokens : List Token} {e : SyntaxError} {t : Token}
    (h : (parse tokens).error? = some e) (ht : e.token? = some t)
    (hlast : e = .unexpectedToken t → t.category = .identifier → tokens.getLast? ≠ some t)
    (more : List Token) : (parse (tokens ++ more)).error? = some e := by
  have hsome : e.token? ≠ none := by rw [ht]; exact nofun
  obtain ⟨p, u, rest, gs, s, hreads, rfl, -, hu, hrefuses⟩ := Goal.exists_refuses h hsome
  obtain rfl : u = t := Option.some.inj (hu.symm.trans ht)
  have hname : rest.isEmpty = true → ¬(e = .unexpectedToken u ∧ u.category = .identifier) := by
    rintro hempty ⟨he, hcategory⟩
    apply hlast he hcategory
    rw [List.isEmpty_iff.mp hempty, List.getLast?_concat]
  have herror (behind : List Token) : (parse (p ++ u :: behind)).error? =
      if e.kind = .undeclaredVariable ∧ behind = [] then some (.unexpectedToken u) else some e :=
    Goal.error_of_refuses hreads hrefuses hname
  -- An undeclared target is not the last token, which would be an error of another kind.
  have hbehind : ¬(e.kind = .undeclaredVariable ∧ rest ++ more = []) := by
    rintro ⟨hkind, hnil⟩
    obtain rfl : rest = [] := (List.append_eq_nil_iff.mp hnil).1
    have hunexpected : some e = some (.unexpectedToken u) := by
      rw [← h, herror, if_pos ⟨hkind, rfl⟩]
    rw [Option.some.inj hunexpected] at hkind
    cases hkind
  rw [List.append_assoc, List.cons_append, herror, if_neg hbehind]

/-- Lines that are added behind an error at a token leave the error as it is. -/
theorem check_append_line (a b : String) :
    (check a).tokens <+: (check (a ++ "\n" ++ b)).tokens ∧
      ∀ f, (check a).outcome = .syntaxError f → f.location.span? ≠ none →
        (∀ t, f.diagnostic.error = .unexpectedToken t → t.category = .identifier →
          (check a).tokens.getLast? ≠ some t) →
        (check (a ++ "\n" ++ b)).outcome = .syntaxError f := by
  -- A line end stops every stretch, so the old tokens come first.
  obtain ⟨later, hlater⟩ : ∃ later,
      (check (a ++ "\n" ++ b)).tokens = (check a).tokens ++ later := by
    have htext : (a ++ "\n" ++ b).toList = a.toList ++ '\n' :: b.toList := by simp
    rw [tokens_check, tokens_check, htext, scan_append_line (Or.inl rfl)]
    exact ⟨_, rfl⟩
  refine ⟨⟨later, hlater.symm⟩, ?_⟩
  intro f hf hspan hlast
  obtain ⟨e, he, rfl⟩ := outcome_eq_syntaxError_iff.mp hf
  obtain ⟨t, ht⟩ : ∃ t, e.token? = some t := by
    rw [← Option.ne_none_iff_exists']
    intro hnone
    have hend := span?_ofError a e
    rw [hnone] at hend
    exact hspan hend
  -- The same error is found, and its position depends on the text before it only.
  have hmore := error_append he ht (hlast t) later
  have hfinding : Finding.ofDiagnostic (a ++ ("\n" ++ b)) (.ofError e) =
      .ofDiagnostic a (.ofError e) := ofDiagnostic_append ht (mem_of_error he ht) _
  rw [← String.append_assoc] at hfinding
  apply outcome_eq_syntaxError_iff.mpr
  rw [← hlater] at hmore
  exact ⟨e, hmore, hfinding.symm⟩

/-- A quote that is open in the line of the error finds its partner in no line behind it. -/
theorem check_append_line_open_quote :
    let source := "let variable s = 1\ns 'open"
    ∃ f, (check source).outcome = .syntaxError f ∧ f.location.span? = some ⟨22, 26⟩ ∧
      (check (source ++ "\n" ++ "it's")).outcome = .syntaxError f := by
  intro source
  let found : Token := ⟨⟨22, 26⟩, "open", .identifier⟩
  have herror : (parse (scan 0 source.toList)).error? =
      some (.expectedToken (.ofOperator .assign) found) := by decide +kernel
  have hf := outcome_of_scan herror
  refine ⟨_, hf, rfl, (check_append_line source "it's").2 _ hf ?_ ?_⟩
  · intro hspan
    cases hspan
  · intro t ht
    cases ht

end Gloss
