import Gloss.Proofs.PositionOrder

namespace Gloss

def InsideCharacter (source : String) (offset : Nat) : Prop :=
  offset < source.utf8ByteSize ∧ ¬IsBoundary source offset

/-- Every offset in a text is behind some characters, and either no byte or a part of one more
character behind them. -/
theorem exists_characters_before (text : List Char) {offset : Nat} (h : offset ≤ byteLength text) :
    ∃ before after left, text = before ++ after ∧ offset = byteLength before + left ∧
      (left = 0 ∨ ∃ c rest, after = c :: rest ∧ left < c.utf8Size) := by
  induction text generalizing offset with
  | nil => exact ⟨[], [], 0, rfl, Nat.le_zero.mp h, Or.inl rfl⟩
  | cons c text ih =>
    rw [byteLength_cons] at h
    by_cases hinside : offset < c.utf8Size
    · exact ⟨[], c :: text, offset, rfl, (Nat.zero_add offset).symm, Or.inr ⟨c, text, rfl, hinside⟩⟩
    · obtain ⟨behind, rfl⟩ := Nat.exists_eq_add_of_le (Nat.le_of_not_lt hinside)
      obtain ⟨before, after, left, rfl, rfl, hleft⟩ := ih (Nat.le_of_add_le_add_left h)
      exact ⟨c :: before, after, left, rfl, (Nat.add_assoc ..).symm, hleft⟩

section InsideCharacter

variable {source : String} {a b offset : Nat}

/-- Behind the front that ends before a character there is no boundary up to its last byte. -/
theorem not_isBoundary {before after : List Char} {c : Char} {left : Nat}
    (hsource : source.toList = before ++ c :: after) (hpos : 0 < left) (hleft : left < c.utf8Size) :
    ¬IsBoundary source (byteLength before + left) := by
  rw [isBoundary_iff]
  rintro ⟨before', after', hsource', hlength⟩
  obtain ⟨mid, rfl, hmid⟩ :=
    Segment.exists_append_of_byteLength_le (hsource.symm.trans hsource') (by omega)
  rw [byteLength_append] at hlength
  cases mid with
  | nil =>
    rw [byteLength_nil] at hlength
    omega
  | cons d mid =>
    obtain ⟨rfl, -⟩ := List.cons.inj hmid
    rw [byteLength_cons] at hlength
    omega

theorem insideCharacter_iff : InsideCharacter source offset ↔ ∃ before c after left,
    source.toList = before ++ c :: after ∧ offset = byteLength before + left ∧ 0 < left ∧
      left < c.utf8Size := by
  constructor
  · rintro ⟨hsize, hnot⟩
    rw [← byteLength_toList] at hsize
    obtain ⟨before, after, left, hsource, hoffset, hleft⟩ := exists_characters_before _ hsize.le
    have hpos : left ≠ 0 := by
      rintro rfl
      exact hnot (isBoundary_iff.mpr ⟨before, after, hsource, hoffset.symm⟩)
    obtain ⟨c, rest, rfl, hlt⟩ := hleft.resolve_left hpos
    exact ⟨before, c, rest, left, hsource, hoffset, Nat.pos_of_ne_zero hpos, hlt⟩
  · rintro ⟨before, c, after, left, hsource, rfl, hpos, hlt⟩
    refine ⟨?_, not_isBoundary hsource hpos hlt⟩
    rw [← byteLength_toList, hsource, byteLength_append, byteLength_cons]
    omega

namespace Position

theorem le_iff {p q : Position} :
    p ≤ q ↔ p.line < q.line ∨ p.line = q.line ∧ p.column ≤ q.column := Prod.Lex.le_iff

theorem line_le {p q : Position} (h : p ≤ q) : p.line ≤ q.line := by
  rcases le_iff.mp h with hlt | ⟨heq, -⟩
  · exact hlt.le
  · exact heq.le

variable {line characters bytes left : Nat}

theorem walk_inside {c : Char} (hpos : 0 < left) (hlt : left < c.utf8Size) (text : List Char) :
    walk line characters bytes left (c :: text) = ⟨line, bytes + left + 1⟩ := by
  rw [walk, if_neg (Nat.ne_of_gt hpos), if_pos hlt]

/-- No step of a walk leads back, not even the one that ends inside a character: its column counts
bytes, and no fewer bytes than characters have been passed on the line. -/
theorem le_walk (h : characters ≤ bytes) (text : List Char) :
    (⟨line, characters + 1⟩ : Position) ≤ walk line characters bytes left text := by
  -- Inside a character the column counts bytes, which are no fewer than the characters.
  induction text generalizing line characters bytes left with
  | nil => exact le_refl _
  | cons c text ih =>
    have hwide := c.utf8Size_pos
    rw [walk]
    split
    · exact le_refl _
    · split
      · exact le_iff.mpr (Or.inr ⟨rfl, by dsimp only; omega⟩)
      · split
        · have hnext : (⟨line, characters + 1⟩ : Position) ≤ ⟨line + 1, 0 + 1⟩ :=
            le_iff.mpr (Or.inl (Nat.lt_succ_self line))
          exact hnext.trans (ih (Nat.le_refl 0))
        · have hnext : (⟨line, characters + 1⟩ : Position) ≤ ⟨line, characters + 1 + 1⟩ :=
            le_iff.mpr (Or.inr ⟨rfl, Nat.le_succ _⟩)
          exact hnext.trans (ih (by omega))

/-- A walk that ends inside a character comes to a later line, or has a column for each byte that it
passed. -/
theorem le_walk_inside {front after : List Char} {c : Char} {k : Nat} (hpos : 0 < left)
    (hlt : left < c.utf8Size) (hk : k ≤ byteLength front + left) :
    (⟨line, bytes + k + 1⟩ : Position) ≤
      walk line characters bytes (byteLength front + left) (front ++ c :: after) := by
  obtain ⟨passed, last, -, -, -, -, hfront, hwalk⟩ := exists_lines_cut front (c :: after)
  rw [hwalk, walk_inside hpos hlt]
  cases passed with
  | nil =>
    obtain rfl : front = last := hfront
    refine le_iff.mpr (Or.inr ⟨rfl, ?_⟩)
    rw [if_pos rfl]
    dsimp only
    omega
  | cons first passed => exact le_iff.mpr (Or.inl (by rw [List.length_cons]; dsimp only; omega))

/-- From an offset between two characters on, no offset has an earlier position. -/
theorem ofOffset_le_of_isBoundary (h : IsBoundary source a) (hle : a ≤ b) :
    ofOffset source a ≤ ofOffset source b := by
  obtain ⟨before, after, hsource, rfl⟩ := isBoundary_iff.mp h
  obtain ⟨passed, front, rest, more, -, -, -, hwalk⟩ := exists_line_ofOffset hsource
  obtain ⟨left, rfl⟩ := Nat.exists_eq_add_of_le hle
  have hhere := hwalk 0
  rw [Nat.add_zero, walk_here] at hhere
  rw [hhere, hwalk]
  exact le_walk (length_le_byteLength front) after

/-- Offsets in the middle of characters are in order among themselves. -/
theorem ofOffset_le_of_inside (ha : InsideCharacter source a) (hb : InsideCharacter source b)
    (hle : a ≤ b) : ofOffset source a ≤ ofOffset source b := by
  obtain ⟨before, c, after, left, hsource, rfl, hpos, hlt⟩ := insideCharacter_iff.mp ha
  obtain ⟨before', c', after', left', hsource', rfl, hpos', hlt'⟩ := insideCharacter_iff.mp hb
  -- The second character is the first one or one behind it.
  have hfronts : byteLength before ≤ byteLength before' := by
    by_contra hnot
    obtain ⟨mid, rfl, hmid⟩ :=
      Segment.exists_append_of_byteLength_le (hsource'.symm.trans hsource) (Nat.le_of_not_le hnot)
    cases mid with
    | nil => exact hnot (by rw [List.append_nil])
    | cons d mid =>
      obtain ⟨rfl, -⟩ := List.cons.inj hmid
      rw [byteLength_append, byteLength_cons] at hle
      omega
  obtain ⟨mid, rfl, hmid⟩ :=
    Segment.exists_append_of_byteLength_le (hsource.symm.trans hsource') hfronts
  obtain ⟨passed, front, rest, more, -, -, -, hwalk⟩ := exists_line_ofOffset hsource
  rw [byteLength_append, Nat.add_assoc] at hle ⊢
  rw [hwalk, hwalk, walk_inside hpos hlt, hmid]
  exact le_walk_inside hpos' hlt' (by omega)

/-- Beyond its end a text has no further positions. -/
theorem ofOffset_min (source : String) (offset : Nat) :
    ofOffset source (min offset source.utf8ByteSize) = ofOffset source offset := by
  rcases Nat.le_total offset source.utf8ByteSize with hle | hge
  · rw [Nat.min_eq_left hle]
  · rw [Nat.min_eq_right hge, ← byteLength_toList] at *
    rw [ofOffset, ofOffset, walk_beyond _ _ _ _ hge]

theorem isBoundary_of_not_inside (h : ¬InsideCharacter source offset) :
    IsBoundary source (min offset source.utf8ByteSize) := by
  rcases Nat.lt_or_ge offset source.utf8ByteSize with hlt | hge
  · rw [Nat.min_eq_left hlt.le]
    by_contra hnot
    exact h ⟨hlt, hnot⟩
  · rw [Nat.min_eq_right hge]
    exact isBoundary_iff.mpr ⟨source.toList, [], (List.append_nil _).symm, byteLength_toList source⟩

/-- Positions are in the order of their offsets, unless the earlier offset alone is in the middle of
a character. -/
theorem ofOffset_le (hle : a ≤ b) (h : InsideCharacter source a → InsideCharacter source b) :
    ofOffset source a ≤ ofOffset source b := by
  by_cases ha : InsideCharacter source a
  · exact ofOffset_le_of_inside ha (h ha) hle
  · rw [← ofOffset_min source a, ← ofOffset_min source b]
    exact ofOffset_le_of_isBoundary (isBoundary_of_not_inside ha) (by omega)

/-- An offset inside a character is on the line on which the character begins. -/
theorem line_ofOffset_le (hle : a ≤ b) : (ofOffset source a).line ≤ (ofOffset source b).line := by
  by_cases ha : InsideCharacter source a
  · obtain ⟨before, c, after, left, hsource, rfl, hpos, hlt⟩ := insideCharacter_iff.mp ha
    obtain ⟨passed, front, rest, more, -, -, -, hwalk⟩ := exists_line_ofOffset hsource
    have hbegins : IsBoundary source (byteLength before) :=
      isBoundary_iff.mpr ⟨before, c :: after, hsource, rfl⟩
    have hbefore := ofOffset_le_of_isBoundary hbegins ((Nat.le_add_right _ _).trans hle)
    have hhere := hwalk 0
    rw [Nat.add_zero, walk_here] at hhere
    have hline := line_le hbefore
    rw [hhere] at hline
    rw [hwalk, walk_inside hpos hlt]
    exact hline
  · exact line_le (ofOffset_le hle fun hinside => absurd hinside ha)

/-- The position inside a character counts bytes from the start of its line. -/
theorem exists_line_of_inside (h : InsideCharacter source offset) :
    ∃ start line, (⟨(ofOffset source offset).line, 1⟩ : Position).offset? source = some start ∧
      offset = start + ((ofOffset source offset).column - 1) ∧
      (lines source.toList)[(ofOffset source offset).line - 1]? = some line ∧
      (ofOffset source offset).column - 1 < byteLength line := by
  obtain ⟨before, c, after, left, hsource, rfl, hpos, hlt⟩ := insideCharacter_iff.mp h
  obtain ⟨passed, front, rest, more, hlines, hafter, hbefore, hwalk⟩ := exists_line_ofOffset hsource
  -- A line feed has one byte, so the character is on the line.
  have hc : c ≠ '\n' := by
    rintro rfl
    have hone : '\n'.utf8Size = 1 := by decide
    omega
  -- So the line goes on with the character, and it has all of its bytes.
  obtain ⟨rest, rfl⟩ : ∃ text, rest = c :: text := by
    obtain ⟨line, more', hline⟩ := exists_first_line after
    rw [lines_cons hc, hline, List.modifyHead_cons] at hafter
    exact ⟨line, (List.cons.inj hafter).1.symm⟩
  have hcut : lines source.toList = passed ++ ([] ++ (front ++ c :: rest)) :: more := hlines
  have hstart := offset?_line hcut
  rw [List.append_nil] at hstart
  rw [hwalk, walk_inside hpos hlt]
  refine ⟨_, front ++ c :: rest, hstart, ?_, ?_, ?_⟩
  · rw [hbefore, byteLength_append]
    dsimp only
    omega
  · rw [hlines]
    simp
  · rw [byteLength_append, byteLength_cons]
    dsimp only
    omega

/-- The line of an offset between two characters has no fewer characters than stand before it. -/
theorem exists_line_of_isBoundary (h : IsBoundary source offset) :
    ∃ line, (lines source.toList)[(ofOffset source offset).line - 1]? = some line ∧
      (ofOffset source offset).column - 1 ≤ line.length := by
  obtain ⟨before, after, hsource, rfl⟩ := isBoundary_iff.mp h
  obtain ⟨passed, front, rest, more, hlines, -, -, hwalk⟩ := exists_line_ofOffset hsource
  have hhere := hwalk 0
  rw [Nat.add_zero, walk_here] at hhere
  rw [hhere, hlines]
  exact ⟨front ++ rest, by simp, by simp⟩

end Position
end InsideCharacter

namespace Position

/-- An offset in the middle of a character counts the bytes before it on its line. From any other
offset on, and between any two in the middle of characters, positions are in the order of their
offsets; the lines always are. The columns of those others count no more than the characters of
their line. -/
theorem ofOffset_le_of_le (source : String) :
    (∀ a b, a ≤ b → (InsideCharacter source a → InsideCharacter source b) →
      ofOffset source a ≤ ofOffset source b) ∧
    (∀ a b, a ≤ b → (ofOffset source a).line ≤ (ofOffset source b).line) ∧
    (∀ o, ¬InsideCharacter source o →
      ∃ line, (lines source.toList)[(ofOffset source o).line - 1]? = some line ∧
        (ofOffset source o).column - 1 ≤ line.length) ∧
    ∀ o, InsideCharacter source o →
      ∃ start line, (⟨(ofOffset source o).line, 1⟩ : Position).offset? source = some start ∧
        o = start + ((ofOffset source o).column - 1) ∧
        (lines source.toList)[(ofOffset source o).line - 1]? = some line ∧
        (ofOffset source o).column - 1 < byteLength line := by
  refine ⟨fun a b => ofOffset_le, fun a b => line_ofOffset_le, fun o ho => ?_,
    fun o => exists_line_of_inside⟩
  rw [← ofOffset_min]
  exact exists_line_of_isBoundary (isBoundary_of_not_inside ho)

/-- In the middle of a character of three bytes and behind it, on the line behind two characters of
two bytes. -/
theorem ofOffset_le_of_le_wide :
    let source := "éé\n€x"
    InsideCharacter source 3 ∧ InsideCharacter source 7 ∧
      ofOffset source 3 ≤ ofOffset source 7 ∧ (ofOffset source 7).line ≤ (ofOffset source 8).line ∧
      ofOffset source 7 = ⟨2, 3⟩ ∧ 7 = 5 + ((ofOffset source 7).column - 1) := by
  intro source
  obtain ⟨hle, hline, -, hinside⟩ := ofOffset_le_of_le source
  have hfirst : InsideCharacter source 3 :=
    insideCharacter_iff.mpr ⟨['é'], 'é', ['\n', '€', 'x'], 1, by decide⟩
  have hsecond : InsideCharacter source 7 :=
    insideCharacter_iff.mpr ⟨['é', 'é', '\n'], '€', ['x'], 2, by decide⟩
  obtain ⟨start, -, hstart, hoffset, -⟩ := hinside 7 hsecond
  obtain rfl : 5 = start := Option.some.inj (.trans (by decide +kernel) hstart)
  exact ⟨hfirst, hsecond, hle 3 7 (by decide) fun _ => hsecond, hline 7 8 (by decide), by decide,
    hoffset⟩

/-- Inside the second of two characters of two bytes the column is greater than at its end, and
greater than the line is long. -/
theorem ofOffset_bytes_inside :
    ¬(∀ source a b, a ≤ b → ofOffset source a ≤ ofOffset source b) ∧
      ¬∀ source o line, (lines source.toList)[(ofOffset source o).line - 1]? = some line →
        (ofOffset source o).column - 1 ≤ line.length := by
  -- Offset 3 is inside the second character, whose column counts the bytes passed.
  have hinside : ofOffset "éé" 3 = ⟨1, 4⟩ := by decide
  have hend : ofOffset "éé" 4 = ⟨1, 3⟩ := by decide
  constructor
  · intro hle
    have h := le_iff.mp (hle "éé" 3 4 (by decide))
    rw [hinside, hend] at h
    revert h
    decide
  · intro hle
    have h := hle "éé" 3 ['é', 'é'] (by rw [hinside]; decide)
    rw [hinside] at h
    revert h
    decide

end Position
end Gloss
