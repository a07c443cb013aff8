import Gloss.CommandLine.Run
import Gloss.Proofs.Escapes
import Gloss.Proofs.ReportReading
import Gloss.Proofs.Sources
import Gloss.Proofs.Wording

namespace Gloss.CommandLine

open OnePass

def missingLineFeed (source : String) : String :=
  match source.toList.getLast? with
  | none | some '\n' => ""
  | some _ => "\n"

def statusLine (name source status : String) : String :=
  missingLineFeed source ++ name ++ ": " ++ status ++ "\n"

variable {host : Host} {path name source : String}

theorem endsWith_lineFeed_iff : source.endsWith "\n" ↔ source.toList.getLast? = some '\n' := by
  have hlineFeed : "\n".toList = ['\n'] := rfl
  rw [String.endsWith, String.Slice.endsWith_string_iff, String.copy_toSlice, hlineFeed,
    List.singleton_suffix_iff_getLast?_eq_some]

theorem missingLineFeed_eq (source : String) :
    missingLineFeed source = if source.isEmpty || source.endsWith "\n" then "" else "\n" := by
  have hempty : source.isEmpty ↔ source.toList.getLast? = none := by
    rw [String.isEmpty_iff, List.getLast?_eq_none_iff, String.toList_eq_nil_iff]
  rw [missingLineFeed]
  split
  · next hnone => rw [if_pos (by simp [hempty.mpr hnone])]
  · next hlast => rw [if_pos (by simp [endsWith_lineFeed_iff.mpr hlast])]
  · next c hother hlast =>
    rw [if_neg]
    rw [Bool.or_eq_true, hempty, endsWith_lineFeed_iff, hlast]
    rintro (hnone | hlineFeed)
    · cases hnone
    · exact hother (Option.some.inj hlineFeed)

/-- A report is the text, perhaps in colors, and one more line. -/
theorem printReport_eq (name source : String) (report : Report) (coloring : Coloring)
    (terminal : Bool) : printReport name source report coloring terminal =
      render coloring terminal source report.tokens report.outcome.errorSpan? ++
        statusLine name source report.outcome.status := by
  rw [printReport, statusLine, missingLineFeed_eq]
  simp only [String.append_assoc]

theorem not_mem_status (h : '\x1b' ∉ source.toList) :
    '\x1b' ∉ (check source).outcome.status.toList := by
  intro hmem
  rcases drawnFrom_status source _ hmem with hprintable | hsource
  · -- An escape is not printable.
    cases hprintable
  · exact h hsource

theorem not_mem_statusLine {status : String} (hname : '\x1b' ∉ name.toList)
    (hstatus : '\x1b' ∉ status.toList) : '\x1b' ∉ (statusLine name source status).toList := by
  have hmissing : '\x1b' ∉ (missingLineFeed source).toList := by
    rw [missingLineFeed]
    split <;> decide
  have hcolon : '\x1b' ∉ ": ".toList := by decide
  have hend : '\x1b' ∉ "\n".toList := by decide
  simp only [statusLine, String.toList_append, List.mem_append, not_or]
  exact ⟨⟨⟨⟨hmissing, hname⟩, hcolon⟩, hstatus⟩, hend⟩

theorem exitCode_check (source : String) : exitCode (check source).outcome =
    if (parse (tokenize source)).error? = none then 0 else 1 := by
  have htokens : (check source).tokens = tokenize source := rfl
  rw [outcome_check, checkTokens, htokens]
  cases (parse (tokenize source)).error? <;> rfl

theorem checkFile_eq (h : readSource host path = .ok source) (json : Bool) (color : ColorMode) :
    checkFile host path json color = .ok ⟨exitCode (check source).outcome,
      if json then ((check source).toJson (displayName path)).render ++ "\n"
      else printReport (displayName path) source (check source)
        { Coloring.standard with mode := color } host.terminal, ""⟩ := by
  rw [checkFile, h]
  rfl

/-- Without colors a report is the text itself and the line. -/
theorem printReport_plain {color : ColorMode} (h : color.usesColor host.terminal = false) :
    printReport name source (check source) { Coloring.standard with mode := color } host.terminal =
      source ++ statusLine name source (check source).outcome.status := by
  rw [printReport_eq, render_plain (isPlain_style (Or.inl h))]

/-- What is shown of a report does not depend on the colors. -/
theorem visible_printReport (hsource : '\x1b' ∉ source.toList) (hname : '\x1b' ∉ name.toList)
    (color : ColorMode) (terminal : Bool) :
    Piece.visible (Piece.read 0 (printReport name source (check source)
      { Coloring.standard with mode := color } terminal).toList) =
        (source ++ statusLine name source (check source).outcome.status).toList := by
  have hline : '\x1b' ∉ (statusLine name source (check source).outcome.status).toList :=
    not_mem_statusLine hname (not_mem_status hsource)
  have hread := Piece.read_text hline []
  rw [List.append_nil] at hread
  -- The line has no escape in it, so it is read as it is, behind the segments of the text.
  rw [printReport_eq, String.toList_append, String.toList_append,
    read_render_append isGraphic_standard hsource, hread, Piece.read, List.append_nil,
    Piece.visible_append, Piece.visible_shown, Segment.visible_cut, flatMap_segments]

/-- Where a text can be read, a check of it ends, with zero exactly if the tokens of the text are a
program and else with one. What is printed without colors is the text, a line feed if it lacks one,
and a line with the name and the status; in colors the same is shown, if there is no escape in the
text and the name. The document has the same status as its message. -/
theorem checkFile_modes_agree (host : Host) (path source : String)
    (hread : readSource host path = .ok source) :
    let status := (check source).outcome.status
    let text := source ++ missingLineFeed source ++ displayName path ++ ": " ++ status ++ "\n"
    ∃ output : Bool → ColorMode → String,
      (∀ json color, ∃ result, checkFile host path json color = .ok result ∧
        result.standardOutput = output json color ∧
        result.exitCode = if (parse (tokenize source)).error? = none then 0 else 1) ∧
      (∀ color, color.usesColor host.terminal = false → output false color = text) ∧
      ('\x1b' ∉ source.toList → '\x1b' ∉ (displayName path).toList → ∀ color,
        Piece.visible (Piece.read 0 (output false color).toList) = text.toList) ∧
      ∀ color, ∃ document v, output true color = document ++ "\n" ∧
        Json.read? document = some v ∧ v.field? "message" = some (.text status) := by
  intro status text
  -- In all modes the report is the same; only its output differs.
  have htext : text = source ++ statusLine (displayName path) source status := by
    simp only [text, statusLine, String.append_assoc]
  refine ⟨fun json color =>
    if json then ((check source).toJson (displayName path)).render ++ "\n"
    else printReport (displayName path) source (check source)
      { Coloring.standard with mode := color } host.terminal, ?_, ?_, ?_, ?_⟩
  · intro json color
    exact ⟨_, checkFile_eq hread json color, rfl, exitCode_check source⟩
  · intro color hplain
    rw [htext]
    exact printReport_plain hplain
  · intro hsource hname color
    rw [htext]
    exact visible_printReport hsource hname color host.terminal
  · intro color
    exact ⟨_, _, rfl, Json.read?_render _, (check source).field?_message _⟩

/-- An assignment to a name that is not declared, without a line feed, in color and without. -/
theorem checkFile_modes_agree_undeclared :
    let source := "x = 1"
    let host : Host := ⟨source.toByteArray, fun _ => .error .notFound, true⟩
    readSource host standardInputPath = .ok source ∧ ∃ plain colored,
      checkFile host standardInputPath false .never = .ok plain ∧
      checkFile host standardInputPath false .always = .ok colored ∧
      plain.exitCode = 1 ∧ colored.exitCode = 1 ∧
      plain.standardOutput =
        "x = 1\n<stdin>: Variable 'x' is not declared at line 1, column 1\n" ∧
      Piece.visible (Piece.read 0 colored.standardOutput.toList) =
        plain.standardOutput.toList := by
  intro source host
  have hread : readSource host standardInputPath = .ok source := by
    rw [readSource_input rfl, readStandardInput_eq_ok_iff]
    exact ⟨rfl, by decide⟩
  -- Sorting is by well-founded recursion, so it is the scanner that is evaluated, not `tokenize`.
  have hscan : (parse (scan 0 source.toList)).error? =
      some (.undeclaredVariable ⟨⟨0, 1⟩, "x", .identifier⟩) := by decide +kernel
  have herror : (parse (tokenize source)).error? ≠ none := by
    rw [tokenize, select_candidates, hscan]
    exact nofun
  have hstatus : (check source).outcome.status =
      "Variable 'x' is not declared at line 1, column 1" := by
    rw [outcome_of_scan hscan]
    decide +kernel
  obtain ⟨output, hends, hplain, hcolored, -⟩ :=
    checkFile_modes_agree host standardInputPath source hread
  obtain ⟨plain, hrunPlain, houtPlain, hexitPlain⟩ := hends false .never
  obtain ⟨colored, hrunColored, houtColored, hexitColored⟩ := hends false .always
  rw [if_neg herror] at hexitPlain hexitColored
  refine ⟨hread, plain, colored, hrunPlain, hrunColored, hexitPlain, hexitColored, ?_, ?_⟩
  · rw [houtPlain, hplain .never rfl, hstatus]
    decide
  · rw [houtColored, houtPlain, hplain .never rfl]
    exact hcolored (by decide) (by decide) .always

end Gloss.CommandLine
