import Gloss.Proofs.Tokenizing

namespace Gloss

def Token.shift (bytes : Nat) (t : Token) : Token :=
  { t with span := ⟨t.span.start + bytes, t.span.stop + bytes⟩ }

namespace OnePass

theorem shift_ofLexeme (c : Category) (offset bytes : Nat) (lexeme : List Char) :
    (Token.ofLexeme c offset lexeme).shift bytes = Token.ofLexeme c (offset + bytes) lexeme := by
  rw [Token.shift, Token.ofLexeme, Token.ofLexeme, Nat.add_right_comm]

/-- The tokens of a text do not depend on where it begins. -/
theorem scan_shift (bytes : Nat) (text : List Char) : ∀ offset,
    scan (offset + bytes) text = (scan offset text).map (Token.shift bytes) := by
  -- Stretches do not depend on the offset, so all spans move by the same number of bytes.
  induction text using stretch_induction with
  | nil =>
    intro offset
    rw [scan, scan]
    rfl
  | stretch x more after kind? h ih =>
    intro offset
    have hrest : scan (offset + bytes + byteLength (x :: more)) after =
        (scan (offset + byteLength (x :: more)) after).map (Token.shift bytes) := by
      rw [Nat.add_right_comm]
      exact ih (offset + byteLength (x :: more))
    rw [scan_append _ h, scan_append _ h, List.map_append, hrest]
    cases kind? with
    | none => rfl
    | some c =>
      have htoken := shift_ofLexeme c offset bytes (x :: more)
      simp only [Option.toList_some, List.map_singleton, htoken]

/-- The front of a text, with `after` behind it, is made of whole stretches; these are its tokens
if it begins at `offset`. -/
inductive Passes (after : List Char) : Nat → List Char → List Token → Prop where
  | nil {offset : Nat} : Passes after offset [] []
  | cons {offset : Nat} {x : Char} {more front : List Char} {kind? : Option Category}
      {tokens : List Token} (h : Stretch x more (front ++ after) kind?)
      (hfront : Passes after (offset + byteLength (x :: more)) front tokens) :
      Passes after offset (x :: (more ++ front))
        (kind?.toList.map (Token.ofLexeme · offset (x :: more)) ++ tokens)

theorem byteLength_stretch (offset : Nat) (x : Char) (more front : List Char) :
    offset + byteLength (x :: more) + byteLength front =
      offset + byteLength (x :: (more ++ front)) := by
  have hbytes := byteLength_append (x :: more) front
  rw [List.cons_append] at hbytes
  rw [hbytes, Nat.add_assoc]

/-- Behind a front of whole stretches the scanner goes on as if the text began there. -/
theorem scan_passes {after front : List Char} {offset : Nat} {tokens : List Token}
    (h : Passes after offset front tokens) :
    scan offset (front ++ after) = tokens ++ scan (offset + byteLength front) after := by
  -- The rest of the front begins behind the first stretch, by as many bytes as that has.
  induction h with
  | nil => rfl
  | @cons offset x more front kind? tokens h _ ih =>
    have hbytes := byteLength_stretch offset x more front
    rw [List.cons_append, List.append_assoc, scan_append offset h, ih, hbytes, List.append_assoc]

/-- A whole text is a front that is passed with all its tokens. -/
theorem passes_scan (text : List Char) : ∀ offset, Passes [] offset text (scan offset text) := by
  induction text using stretch_induction with
  | nil =>
    intro offset
    rw [scan]
    exact .nil
  | stretch x more after kind? h ih =>
    intro offset
    have hstretch : Stretch x more (after ++ []) kind? := by rwa [List.append_nil]
    rw [scan_append offset h]
    exact .cons hstretch (ih (offset + byteLength (x :: more)))

/-- A token is a stretch of its own, behind a front that is passed with the tokens before it. -/
structure StandsAt (offset : Nat) (earlier : List Token) (t : Token) (front : List Char) (x : Char)
    (more after : List Char) : Prop where
  passes : Passes (x :: (more ++ after)) offset front earlier
  stretch : Stretch x more after (some t.category)
  token : t = Token.ofLexeme t.category (offset + byteLength front) (x :: more)

theorem StandsAt.cons {t : Token} {earlier : List Token} {offset : Nat} {x y : Char}
    {more more' front after : List Char} {kind? : Option Category}
    (hstands : StandsAt (offset + byteLength (x :: more)) earlier t front y more' after)
    (h : Stretch x more (front ++ y :: (more' ++ after)) kind?) :
    StandsAt offset (kind?.toList.map (Token.ofLexeme · offset (x :: more)) ++ earlier) t
      (x :: (more ++ front)) y more' after := by
  refine ⟨.cons h hstands.passes, hstands.stretch, ?_⟩
  rw [← byteLength_stretch]
  exact hstands.token

theorem exists_standsAt {t : Token} {later : List Token} (text : List Char) :
    ∀ offset earlier, scan offset text = earlier ++ t :: later →
      ∃ front x more after, text = front ++ x :: (more ++ after) ∧
        StandsAt offset earlier t front x more after := by
  -- One stretch after the other is passed until the one of the token is reached.
  induction text using stretch_induction with
  | nil =>
    intro offset earlier hscan
    rw [scan] at hscan
    exact absurd hscan (by simp)
  | stretch x more after kind? h ih =>
    intro offset earlier hscan
    rw [scan_append offset h] at hscan
    -- The token is the one of the first stretch, or stands behind that stretch.
    have hbehind (tokens : List Token)
        (hearlier : earlier = kind?.toList.map (Token.ofLexeme · offset (x :: more)) ++ tokens)
        (hrest : scan (offset + byteLength (x :: more)) after = tokens ++ t :: later) :
        ∃ front y more' after', x :: (more ++ after) = front ++ y :: (more' ++ after') ∧
          StandsAt offset earlier t front y more' after' := by
      obtain ⟨front, y, more', after', rfl, hstands⟩ := ih _ tokens hrest
      rw [hearlier]
      exact ⟨x :: (more ++ front), y, more', after', by simp, hstands.cons h⟩
    cases kind? with
    | none => exact hbehind earlier rfl hscan
    | some c =>
      cases earlier with
      | nil =>
        obtain ⟨rfl, -⟩ := List.cons.inj hscan
        exact ⟨[], x, more, after, rfl, .nil, h, rfl⟩
      | cons u earlier =>
        obtain ⟨rfl, hrest⟩ := List.cons.inj hscan
        exact hbehind earlier rfl hrest

/-- A token holds the text at its span. -/
theorem exists_slice {t : Token} {offset : Nat} {text : List Char} (h : t ∈ scan offset text) :
    ∃ before after, text = before ++ t.text.toList ++ after ∧
      t.span.start = offset + byteLength before ∧
      t.span.stop = t.span.start + byteLength t.text.toList := by
  -- What stands before the slice is the front behind which the token stands.
  obtain ⟨earlier, later, hscan⟩ := List.append_of_mem h
  obtain ⟨front, x, more, after, rfl, hstands⟩ := exists_standsAt text offset earlier hscan
  have htext : t.text.toList = x :: more := by
    rw [hstands.token, Token.ofLexeme, String.toList_ofList]
  rw [htext]
  refine ⟨front, after, by simp, ?_, ?_⟩
  · rw [hstands.token]
    rfl
  · rw [hstands.token]
    rfl

def Closes (quote : Char) (text : List Char) : Prop :=
  ∃ inside after, text = inside ++ quote :: after ∧ ∀ y ∈ inside, (CharClass.quoted quote).has y

theorem Closes.append {quote : Char} {front : List Char} (h : Closes quote front)
    (after : List Char) : Closes quote (front ++ after) := by
  obtain ⟨inside, rest, rfl, hinside⟩ := h
  exact ⟨inside, rest ++ after, by simp, hinside⟩

theorem Closes.prepend {quote : Char} {front after : List Char} (h : Closes quote after)
    (hfront : ∀ y ∈ front, (CharClass.quoted quote).has y) : Closes quote (front ++ after) := by
  obtain ⟨inside, rest, rfl, hinside⟩ := h
  refine ⟨front ++ inside, rest, by simp, ?_⟩
  intro y hy
  rcases List.mem_append.mp hy with hy | hy
  · exact hfront y hy
  · exact hinside y hy

theorem Closes.split {quote : Char} {front after : List Char} (h : Closes quote (front ++ after)) :
    Closes quote front ∨ (∀ y ∈ front, (CharClass.quoted quote).has y) ∧ Closes quote after := by
  obtain ⟨inside, rest, hsplit, hinside⟩ := h
  -- The closing quote stands in the front or behind it.
  rcases List.append_eq_append_iff.mp hsplit with ⟨mid, rfl, hafter⟩ | ⟨mid, rfl, hrest⟩
  · refine Or.inr ⟨fun y hy => hinside y (List.mem_append_left mid hy), mid, rest, hafter, ?_⟩
    intro y hy
    exact hinside y (List.mem_append_right front hy)
  · cases mid with
    | nil =>
      refine Or.inr ⟨fun y hy => hinside y (by simpa using hy), [], rest, hrest.symm, ?_⟩
      exact List.forall_mem_nil _
    | cons y mid =>
      obtain ⟨rfl, -⟩ := List.cons.inj hrest
      exact Or.inl ⟨inside, mid, rfl, hinside⟩

/-- What stands in front of a text cannot tell it from the one that it replaces. -/
structure Replaces (after' after : List Char) : Prop where
  /-- It neither goes on with operators nor with a number. -/
  plain : ∀ y ∈ after'.head?, CharClass.operator.has y = false ∧ CharClass.digit.has y = false ∧
    y ≠ '.'
  word : after'.head?.any isWordChar = after.head?.any isWordChar
  closes : ∀ quote, isQuote quote → Closes quote after' → Closes quote after

section Replace

variable {after after' : List Char} (hreplaces : Replaces after' after)

include hreplaces

theorem Replaces.endsWord_append (front : List Char) :
    Lexeme.endsWord (front ++ after') = Lexeme.endsWord (front ++ after) := by
  cases front with
  | nil => rw [List.nil_append, List.nil_append, Lexeme.endsWord, hreplaces.word, Lexeme.endsWord]
  | cons y front => rfl

theorem Replaces.endsOperator_append {front : List Char}
    (h : (front ++ after).head?.any CharClass.operator.has = false) :
    (front ++ after').head?.any CharClass.operator.has = false := by
  cases front with
  | nil =>
    cases hhead : after'.head? with
    | none => rw [List.nil_append, hhead, Option.any_none]
    | some y => rw [List.nil_append, hhead, Option.any_some, (hreplaces.plain y hhead).1]
  | cons y front => exact h

theorem Replaces.closes_append {front : List Char} {quote : Char} (hquote : isQuote quote)
    (h : Closes quote (front ++ after')) : Closes quote (front ++ after) := by
  rcases h.split with hfront | ⟨hfront, hafter⟩
  · exact hfront.append after
  · exact (hreplaces.closes quote hquote hafter).prepend hfront

theorem Replaces.fraction_append {front : List Char} (h : fraction (front ++ after) = []) :
    fraction (front ++ after') = [] := by
  rcases fraction_cases (front ++ after') with hnone | ⟨digits, rest, htext, -, hne, hdigits, hend⟩
  · exact hnone
  exfalso
  cases front with
  | nil =>
    rw [List.nil_append] at htext
    exact (hreplaces.plain '.' (by rw [htext]; rfl)).2.2 rfl
  | cons y front =>
    rw [List.cons_append] at htext h
    obtain ⟨rfl, hsplit⟩ := List.cons.inj htext
    -- The new text begins with no digit, so all digits of the fraction stand in front of it.
    have hfront : ∃ mid, front = digits ++ mid ∧ rest = mid ++ after' := by
      rcases List.append_eq_append_iff.mp hsplit with ⟨mid, hmid, hafter⟩ | hmid
      · cases mid with
        | nil => exact ⟨[], by simp [hmid], by simp [hafter]⟩
        | cons z mid =>
          have hz : CharClass.digit.has z := hdigits z (by simp [hmid])
          have hplain := (hreplaces.plain z (by rw [hafter]; rfl)).2.1
          exact absurd hz (Bool.eq_false_iff.mp hplain)
      · exact hmid
    obtain ⟨mid, rfl, rfl⟩ := hfront
    -- Behind them a word ended already before the old text.
    rw [hreplaces.endsWord_append mid] at hend
    have hpoint := fraction_decimal hne hdigits (endsWord_iff.mp hend)
    rw [List.append_assoc, hpoint] at h
    exact List.cons_ne_nil '.' digits h

theorem Replaces.stretch_append {x : Char} {more front : List Char} {kind? : Option Category}
    (h : Stretch x more (front ++ after) kind?) : Stretch x more (front ++ after') kind? := by
  have hword : Lexeme.endsWord (front ++ after) → Lexeme.endsWord (front ++ after') := by
    rw [hreplaces.endsWord_append front]
    exact id
  -- A stretch depends on what is behind it only by where its run ends, or by whether a quote is
  -- closed.
  cases h with
  | quoted hquote hinside => exact .quoted hquote hinside
  | unpaired hquote hopen =>
    refine .unpaired hquote fun inside rest hrest hinside => ?_
    obtain ⟨inside', rest', hrest', hinside'⟩ :=
      hreplaces.closes_append hquote ⟨inside, rest, hrest, hinside⟩
    exact hopen inside' rest' hrest' hinside'
  | operator hx hrun hend => exact .operator hx hrun (hreplaces.endsOperator_append hend)
  | bracket hx => exact .bracket hx
  | name hx hrun hend => exact .name hx hrun (hword hend)
  | number hx hrun hend hpoint =>
    exact .number hx hrun (hword hend) (hreplaces.fraction_append hpoint)
  | decimal hx hrun hne hdigits hend => exact .decimal hx hrun hne hdigits (hword hend)
  | glued hx hrun hmixed hend => exact .glued hx hrun hmixed (hword hend)
  | other hquote hoperator hbracket hword => exact .other hquote hoperator hbracket hword

/-- A front of whole stretches has the same tokens in front of any other text that does not join
them and closes no quote that was open. -/
theorem Passes.replace {offset : Nat} {front : List Char} {tokens : List Token}
    (h : Passes after offset front tokens) : Passes after' offset front tokens := by
  induction h with
  | nil => exact .nil
  | cons h _ ih => exact .cons (hreplaces.stretch_append h) ih

end Replace

end OnePass
end Gloss
