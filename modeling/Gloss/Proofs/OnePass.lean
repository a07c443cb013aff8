import Gloss.Proofs.Lexemes
import Gloss.Proofs.Characters

/-! A scanner that looks neither back nor for other choices: what stands at a place is decided by
its first character. -/
namespace Gloss.OnePass

def wordKind (word : List Char) : Category :=
  if (Keyword.ofSpelling? (String.ofList word)).isSome then .keyword else .identifier

def fraction : List Char → List Char
  | '.' :: text =>
    let run := text.takeWhile isWordChar
    if run ≠ [] ∧ run.all CharClass.digit.has then '.' :: run else []
  | _ => []

/-- What begins with a character: the kind of the token, if it is one, and the characters of `rest`
that belong to it. -/
def stretch (x : Char) (rest : List Char) : Option Category × List Char :=
  if isQuote x then
    let inside := rest.takeWhile (· ≠ x)
    if x ∈ rest ∧ '\r' ∉ inside ∧ '\n' ∉ inside then (some .literal, inside ++ [x]) else (none, [])
  else if CharClass.operator.has x then
    (some .operator, rest.takeWhile CharClass.operator.has)
  else if CharClass.bracket.has x then (some .bracket, [])
  else if isWordChar x then
    let run := rest.takeWhile isWordChar
    if CharClass.nameStart.has x then (some (wordKind (x :: run)), run)
    else if (x :: run).all CharClass.digit.has then
      (some .literal, run ++ fraction (rest.dropWhile isWordChar))
    else (none, run)
  else (none, [])

def scan (offset : Nat) (text : List Char) : List Token :=
  match text with
  | [] => []
  | x :: rest =>
    match stretch x rest with
    | (some c, more) =>
      Token.ofLexeme c offset (x :: more) ::
        scan (offset + byteLength (x :: more)) (rest.drop more.length)
    | (none, more) => scan (offset + byteLength (x :: more)) (rest.drop more.length)
termination_by text.length

/-- The cases of `stretch`, with what follows behind it. -/
inductive Stretch : Char → List Char → List Char → Option Category → Prop where
  | quoted {x inside rest} (hquote : isQuote x)
      (hinside : ∀ y ∈ inside, (CharClass.quoted x).has y) :
      Stretch x (inside ++ [x]) rest (some .literal)
  | unpaired {x rest} (hquote : isQuote x)
      (hopen : ∀ inside after, rest = inside ++ x :: after →
        ¬∀ y ∈ inside, (CharClass.quoted x).has y) :
      Stretch x [] rest none
  | operator {x run rest} (hx : CharClass.operator.has x)
      (hrun : ∀ y ∈ run, CharClass.operator.has y)
      (hend : rest.head?.any CharClass.operator.has = false) :
      Stretch x run rest (some .operator)
  | bracket {x rest} (hx : CharClass.bracket.has x) : Stretch x [] rest (some .bracket)
  | name {x run rest} (hx : CharClass.nameStart.has x) (hrun : ∀ y ∈ run, isWordChar y)
      (hend : Lexeme.endsWord rest) : Stretch x run rest (some (wordKind (x :: run)))
  | number {x run rest} (hx : CharClass.digit.has x) (hrun : ∀ y ∈ run, CharClass.digit.has y)
      (hend : Lexeme.endsWord rest) (hpoint : fraction rest = []) :
      Stretch x run rest (some .literal)
  | decimal {x run digits rest} (hx : CharClass.digit.has x)
      (hrun : ∀ y ∈ run, CharClass.digit.has y) (hne : digits ≠ [])
      (hdigits : ∀ y ∈ digits, CharClass.digit.has y) (hend : Lexeme.endsWord rest) :
      Stretch x (run ++ '.' :: digits) rest (some .literal)
  | glued {x run rest} (hx : CharClass.digit.has x) (hrun : ∀ y ∈ run, isWordChar y)
      (hmixed : ¬∀ y ∈ run, CharClass.digit.has y) (hend : Lexeme.endsWord rest) :
      Stretch x run rest none
  | other {x rest} (hquote : isQuote x = false) (hoperator : CharClass.operator.has x = false)
      (hbracket : CharClass.bracket.has x = false) (hword : isWordChar x = false) :
      Stretch x [] rest none

section Parts

variable {x : Char} {inside after : List Char}

theorem takeWhile_ne (hfirst : x ∉ inside) :
    (inside ++ x :: after).takeWhile (· ≠ x) = inside := by
  -- A run of other characters, which the quote ends.
  apply takeWhile_run
  · intro y hy
    exact decide_eq_true fun heq => hfirst (heq ▸ hy)
  · simp

theorem all_quoted_iff : (∀ y ∈ inside, (CharClass.quoted x).has y) ↔
    x ∉ inside ∧ '\r' ∉ inside ∧ '\n' ∉ inside := by
  simp only [CharClass.has, Bool.and_eq_true, decide_eq_true_eq]
  constructor
  · intro h
    exact ⟨fun hx => (h x hx).1.1 rfl, fun hr => (h _ hr).1.2 rfl, fun hn => (h _ hn).2 rfl⟩
  · rintro ⟨hx, hr, hn⟩ y hy
    refine ⟨⟨?_, ?_⟩, ?_⟩ <;> rintro rfl
    · exact hx hy
    · exact hr hy
    · exact hn hy

/-- What a fraction is, and what stands behind it. -/
theorem fraction_cases (text : List Char) : fraction text = [] ∨
    ∃ digits after, text = '.' :: (digits ++ after) ∧ fraction text = '.' :: digits ∧
      digits ≠ [] ∧ (∀ y ∈ digits, CharClass.digit.has y) ∧ Lexeme.endsWord after := by
  unfold fraction
  split
  · next text =>
    dsimp only
    split
    · next hrun =>
      refine Or.inr ⟨_, _, congrArg _ List.takeWhile_append_dropWhile.symm, rfl, hrun.1, ?_, ?_⟩
      · exact List.all_eq_true.mp hrun.2
      · exact endsWord_dropWhile text
    · exact Or.inl rfl
  · exact Or.inl rfl

end Parts

theorem exists_stretch_word {x : Char} (hword : isWordChar x) (rest : List Char) :
    ∃ more after kind?, rest = more ++ after ∧ Stretch x more after kind? := by
  have hsplit := List.takeWhile_append_dropWhile (p := isWordChar) (l := rest)
  have hend := endsWord_dropWhile rest
  rcases digit_or_nameStart hword with hdigit | hname
  · by_cases hrun : ∀ y ∈ rest.takeWhile isWordChar, CharClass.digit.has y
    · -- All digits: the number goes on if the word behind a point has digits only.
      rcases fraction_cases (rest.dropWhile isWordChar) with
        hpoint | ⟨digits, after, hafter, -, hne, hdigits, hend'⟩
      · exact ⟨_, _, _, hsplit.symm, .number hdigit hrun hend hpoint⟩
      · refine ⟨_, after, _, ?_, .decimal hdigit hrun hne hdigits hend'⟩
        rw [List.append_assoc, List.cons_append, ← hafter, hsplit]
    · exact ⟨_, _, _, hsplit.symm, .glued hdigit mem_takeWhile hrun hend⟩
  · exact ⟨_, _, _, hsplit.symm, .name hname mem_takeWhile hend⟩

/-- What begins at a place is one of the cases. -/
theorem exists_stretch (x : Char) (rest : List Char) :
    ∃ more after kind?, rest = more ++ after ∧ Stretch x more after kind? := by
  -- The first character decides, by the first of the classes that it belongs to.
  by_cases hquote : isQuote x
  · by_cases hclosed : ∃ inside after, rest = inside ++ x :: after ∧
        ∀ y ∈ inside, (CharClass.quoted x).has y
    · obtain ⟨inside, after, rfl, hinside⟩ := hclosed
      exact ⟨inside ++ [x], after, _, by simp, .quoted hquote hinside⟩
    · refine ⟨[], rest, _, rfl, .unpaired hquote ?_⟩
      intro inside after hrest hinside
      exact hclosed ⟨inside, after, hrest, hinside⟩
  by_cases hoperator : CharClass.operator.has x
  · refine ⟨_, _, _, List.takeWhile_append_dropWhile.symm, .operator hoperator mem_takeWhile ?_⟩
    rw [← drop_takeWhile_length]
    exact any_drop_takeWhile
  by_cases hbracket : CharClass.bracket.has x
  · exact ⟨[], rest, _, rfl, .bracket hbracket⟩
  by_cases hword : isWordChar x
  · exact exists_stretch_word hword rest
  rw [Bool.not_eq_true] at hquote hoperator hbracket hword
  exact ⟨[], rest, _, rfl, .other hquote hoperator hbracket hword⟩

section Rules

variable {x : Char} {run after : List Char}

/-- A run of word characters is a word, a number or neither by its first character and its digits.
-/
theorem stretch_word (hword : isWordChar x) (hrun : ∀ y ∈ run, isWordChar y)
    (hend : after.head?.any isWordChar = false) :
    stretch x (run ++ after) =
      if CharClass.nameStart.has x then (some (wordKind (x :: run)), run)
      else if (x :: run).all CharClass.digit.has then (some .literal, run ++ fraction after)
      else (none, run) := by
  obtain ⟨hquote, hoperator, hbracket⟩ := classes_of_word hword
  rw [stretch, hquote, hoperator, hbracket, if_neg Bool.false_ne_true, if_neg Bool.false_ne_true,
    if_neg Bool.false_ne_true, if_pos hword]
  dsimp only
  rw [takeWhile_run hrun hend, dropWhile_run hrun hend]

theorem stretch_name (hx : CharClass.nameStart.has x) (hrun : ∀ y ∈ run, isWordChar y)
    (hend : after.head?.any isWordChar = false) :
    stretch x (run ++ after) = (some (wordKind (x :: run)), run) := by
  rw [stretch_word (CharClass.has_word_of_has_nameStart hx) hrun hend, if_pos hx]

theorem stretch_digit (hx : CharClass.digit.has x) (hrun : ∀ y ∈ run, isWordChar y)
    (hend : after.head?.any isWordChar = false) :
    stretch x (run ++ after) =
      if run.all CharClass.digit.has then (some .literal, run ++ fraction after)
      else (none, run) := by
  rw [stretch_word (CharClass.has_word_of_has_digit hx) hrun hend, not_nameStart_of_digit hx,
    if_neg Bool.false_ne_true, List.all_cons, hx, Bool.true_and]

theorem fraction_decimal {digits : List Char} (hne : digits ≠ [])
    (hdigits : ∀ y ∈ digits, CharClass.digit.has y) (hend : after.head?.any isWordChar = false) :
    fraction ('.' :: (digits ++ after)) = '.' :: digits := by
  rw [fraction, takeWhile_run (words_of_digits hdigits) hend,
    if_pos ⟨hne, List.all_eq_true.mpr hdigits⟩]

end Rules

/-- What the cases say is what `stretch` finds. -/
theorem stretch_append {x : Char} {more after : List Char} {kind? : Option Category}
    (h : Stretch x more after kind?) : stretch x (more ++ after) = (kind?, more) := by
  -- The scanner asks for one class after the other, and no character is in one before its own.
  cases h with
  | @quoted inside _ hquote hinside =>
    obtain ⟨hfirst, hlines⟩ := all_quoted_iff.mp hinside
    have hmem : x ∈ inside ++ x :: after := List.mem_append_right inside List.mem_cons_self
    rw [List.append_assoc, List.singleton_append, stretch, if_pos hquote]
    dsimp only
    rw [takeWhile_ne hfirst, if_pos ⟨hmem, hlines⟩]
  | unpaired hquote hopen =>
    rw [List.nil_append, stretch, if_pos hquote]
    dsimp only
    rw [if_neg]
    -- The next such quote, if there were one on this line, would close the text.
    rintro ⟨hmem, hlines⟩
    obtain ⟨inside, rest, rfl, hfirst⟩ := List.eq_append_cons_of_mem hmem
    rw [takeWhile_ne hfirst] at hlines
    exact hopen inside rest rfl (all_quoted_iff.mpr ⟨hfirst, hlines⟩)
  | operator hx hrun hend =>
    obtain ⟨hquote, -⟩ := classes_of_operator hx
    rw [stretch, hquote, if_neg Bool.false_ne_true, if_pos hx, takeWhile_run hrun hend]
  | bracket hx =>
    obtain ⟨hquote, hoperator, -⟩ := classes_of_bracket hx
    rw [stretch, hquote, hoperator, if_neg Bool.false_ne_true, if_neg Bool.false_ne_true,
      if_pos hx]
  | name hx hrun hend => exact stretch_name hx hrun (endsWord_iff.mp hend)
  | number hx hrun hend hpoint =>
    rw [stretch_digit hx (words_of_digits hrun) (endsWord_iff.mp hend),
      if_pos (List.all_eq_true.mpr hrun), hpoint, List.append_nil]
  | decimal hx hrun hne hdigits hend =>
    -- The point ends the first word.
    rw [List.append_assoc, List.cons_append, stretch_digit hx (words_of_digits hrun) (by rfl),
      if_pos (List.all_eq_true.mpr hrun), fraction_decimal hne hdigits (endsWord_iff.mp hend)]
  | glued hx hrun hmixed hend =>
    rw [stretch_digit hx hrun (endsWord_iff.mp hend),
      if_neg fun hall => hmixed (List.all_eq_true.mp hall)]
  | other hquote hoperator hbracket hword =>
    rw [stretch, hquote, hoperator, hbracket, hword, if_neg Bool.false_ne_true,
      if_neg Bool.false_ne_true, if_neg Bool.false_ne_true, if_neg Bool.false_ne_true]

/-- The scanner goes on behind a stretch as if the text began there. -/
theorem scan_append {x : Char} {more after : List Char} {kind? : Option Category} (offset : Nat)
    (h : Stretch x more after kind?) :
    scan offset (x :: (more ++ after)) =
      kind?.toList.map (Token.ofLexeme · offset (x :: more)) ++
        scan (offset + byteLength (x :: more)) after := by
  rw [scan, stretch_append h]
  cases kind? with
  | none =>
    dsimp only
    rw [List.drop_left]
    rfl
  | some c =>
    dsimp only
    rw [List.drop_left]
    rfl

/-- A text is a sequence of stretches. -/
theorem stretch_induction {motive : List Char → Prop} (nil : motive [])
    (stretch : ∀ x more after kind?, Stretch x more after kind? → motive after →
      motive (x :: (more ++ after))) (text : List Char) : motive text := by
  -- Every stretch has a first character, so what is left behind it is shorter.
  generalize hn : text.length = n
  induction n using Nat.strongRecOn generalizing text with
  | ind n ih =>
    cases text with
    | nil => exact nil
    | cons x rest =>
      obtain ⟨more, after, kind?, rfl, h⟩ := exists_stretch x rest
      have hshorter : after.length < n := by
        rw [← hn, List.length_cons, List.length_append]
        omega
      exact stretch x more after kind? h (ih after.length hshorter after rfl)

end Gloss.OnePass
