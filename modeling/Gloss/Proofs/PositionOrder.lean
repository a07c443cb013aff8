import Mathlib.Data.Prod.Lex
import Gloss.Proofs.Positions
import Gloss.Proofs.Segmenting

namespace Gloss

def IsBoundary (source : String) (offset : Nat) : Prop :=
  (String.Pos.Raw.mk offset).IsValid source

theorem isBoundary_iff {source : String} {offset : Nat} : IsBoundary source offset ↔
    ∃ before after, source.toList = before ++ after ∧ byteLength before = offset := by
  rw [IsBoundary, String.Pos.Raw.isValid_iff_exists_append]
  constructor
  · rintro ⟨a, b, rfl, hoffset⟩
    refine ⟨a.toList, b.toList, String.toList_append, ?_⟩
    rw [byteLength_toList]
    exact (congrArg String.Pos.Raw.byteIdx hoffset).symm
  · rintro ⟨before, after, hsource, hoffset⟩
    refine ⟨String.ofList before, String.ofList after, ?_, ?_⟩
    · rw [← String.ofList_append, ← hsource, String.ofList_toList]
    · rw [← hoffset, ← utf8ByteSize_ofList]
      rfl

namespace Position

def key (p : Position) : Nat ×ₗ Nat := toLex (p.line, p.column)

theorem key_injective : Function.Injective key := by
  intro p q h
  cases p
  cases q
  simpa [key] using h

instance : PartialOrder Position := PartialOrder.lift key key_injective

/-- A position is earlier on an earlier line, or further to the left on the same one. -/
theorem lt_iff {p q : Position} :
    p < q ↔ p.line < q.line ∨ p.line = q.line ∧ p.column < q.column := Prod.Lex.lt_iff

section Walk

variable {line characters bytes : Nat} {source : String}

/-- A character that is passed leads on to a later position, on the next line if it is a line
feed. -/
theorem exists_step (c : Char) (line characters bytes : Nat) : ∃ characters' bytes',
    let line' := line + [c].count '\n'
    (⟨line, characters + 1⟩ : Position) < ⟨line', characters' + 1⟩ ∧
    ∀ left text, walk line characters bytes (c.utf8Size + left) (c :: text) =
      walk line' characters' bytes' left text := by
  by_cases hc : c = '\n'
  · subst hc
    exact ⟨0, 0, lt_iff.mpr (Or.inl (Nat.lt_succ_self line)), walk_lineFeed line characters bytes⟩
  · have hcount : [c].count '\n' = 0 := List.count_eq_zero.mpr (by simpa using Ne.symm hc)
    refine ⟨characters + 1, bytes + c.utf8Size, ?_, ?_⟩
    · rw [hcount]
      exact lt_iff.mpr (Or.inr ⟨rfl, Nat.lt_succ_self _⟩)
    · rw [hcount]
      exact walk_cons hc line characters bytes

/-- The walk through the front of a text goes on behind it, as many lines further as there are line
feeds in front. Its position there is not before the one where it began. -/
theorem exists_walk (front : List Char) (line characters bytes : Nat) : ∃ characters' bytes',
    let line' := line + front.count '\n'
    (⟨line, characters + 1⟩ : Position) ≤ ⟨line', characters' + 1⟩ ∧
    ∀ left text, walk line characters bytes (byteLength front + left) (front ++ text) =
      walk line' characters' bytes' left text := by
  induction front generalizing line characters bytes with
  | nil =>
    refine ⟨characters, bytes, le_refl _, fun left text => ?_⟩
    rw [byteLength_nil, Nat.zero_add, List.nil_append, List.count_nil, Nat.add_zero]
  | cons c front ih =>
    obtain ⟨characters₁, bytes₁, hlt, hstep⟩ := exists_step c line characters bytes
    obtain ⟨characters', bytes', hle, hwalk⟩ := ih (line + [c].count '\n') characters₁ bytes₁
    have hcount : line + (c :: front).count '\n' =
        line + [c].count '\n' + front.count '\n' := by
      rw [← List.singleton_append, List.count_append, Nat.add_assoc]
    refine ⟨characters', bytes', ?_, fun left text => ?_⟩
    · rw [hcount]
      exact hlt.le.trans hle
    · rw [hcount, byteLength_cons, Nat.add_assoc, List.cons_append, hstep, hwalk]

/-- Where the walk passes at least one character, it comes to a later position. -/
theorem lt_walk (c : Char) (front text : List Char) (line characters bytes : Nat) :
    (⟨line, characters + 1⟩ : Position) <
      walk line characters bytes (byteLength (c :: front)) (c :: front ++ text) := by
  obtain ⟨characters₁, bytes₁, hlt, hstep⟩ := exists_step c line characters bytes
  obtain ⟨characters', bytes', hle, hwalk⟩ := exists_walk front (line + [c].count '\n')
    characters₁ bytes₁
  have hend := hwalk 0 text
  rw [Nat.add_zero, walk_here] at hend
  rw [byteLength_cons, List.cons_append, hstep, hend]
  exact hlt.trans_le hle

theorem line_ofOffset {before after : List Char} (h : source.toList = before ++ after) :
    (ofOffset source (byteLength before)).line = before.count '\n' + 1 := by
  obtain ⟨characters', bytes', -, hwalk⟩ := exists_walk before 1 0 0
  have hend := hwalk 0 after
  rw [Nat.add_zero, walk_here, ← h] at hend
  rw [ofOffset, hend, Nat.add_comm]

/-- Between characters, a later offset has a later position. -/
theorem ofOffset_lt {o o' : Nat} (h : IsBoundary source o) (h' : IsBoundary source o')
    (hlt : o < o') : ofOffset source o < ofOffset source o' := by
  obtain ⟨before, after, hsource, rfl⟩ := isBoundary_iff.mp h
  obtain ⟨before', after', hsource', rfl⟩ := isBoundary_iff.mp h'
  -- The longer front is the shorter one with at least one character more.
  have hsame := hsource.symm.trans hsource'
  obtain ⟨mid, rfl, -⟩ := Segment.exists_append_of_byteLength_le hsame hlt.le
  cases mid with
  | nil =>
    rw [List.append_nil] at hlt
    omega
  | cons c mid =>
    obtain ⟨characters', bytes', -, hwalk⟩ := exists_walk before 1 0 0
    have hhere := hwalk 0 (c :: mid ++ after')
    have hthere := hwalk (byteLength (c :: mid)) (c :: mid ++ after')
    rw [Nat.add_zero, walk_here] at hhere
    rw [ofOffset, ofOffset, hsource', byteLength_append, List.append_assoc, hhere, hthere]
    exact lt_walk ..

/-- Beyond the end of a text the walk stays at its end. -/
theorem walk_beyond (text : List Char) (line characters bytes : Nat) {left : Nat}
    (h : byteLength text ≤ left) :
    walk line characters bytes left text = walk line characters bytes (byteLength text) text := by
  obtain ⟨characters', bytes', -, hwalk⟩ := exists_walk text line characters bytes
  have hend := hwalk 0 []
  have hbeyond := hwalk (left - byteLength text) []
  rw [Nat.add_sub_cancel' h, List.append_nil] at hbeyond
  rw [Nat.add_zero, List.append_nil] at hend
  rw [hbeyond, hend]
  rfl

end Walk

/-- The line at an offset between two characters counts the line feeds before it, and the way to
that line and past the characters in front of the column ends at the offset. So these offsets have
different positions, which are in the same order. Every offset beyond the end has the position of
the end. -/
theorem ofOffset_invertible (source : String) :
    (∀ before after, source = before ++ after →
      (ofOffset source before.utf8ByteSize).line = before.toList.count '\n' + 1) ∧
    (∀ o, IsBoundary source o → (ofOffset source o).offset? source = some o) ∧
    (∀ o o', IsBoundary source o → IsBoundary source o' →
      (ofOffset source o = ofOffset source o' ↔ o = o') ∧
        (ofOffset source o < ofOffset source o' ↔ o < o')) ∧
    ∀ o, source.utf8ByteSize < o → ofOffset source o = ofOffset source source.utf8ByteSize := by
  refine ⟨?line, ?back, ?order, ?beyond⟩
  case line =>
    intro before after hsource
    have hsplit : source.toList = before.toList ++ after.toList := by
      rw [hsource, String.toList_append]
    rw [← byteLength_toList]
    exact line_ofOffset hsplit
  case back =>
    intro o ho
    obtain ⟨before, after, hsource, rfl⟩ := isBoundary_iff.mp ho
    exact offset?_ofOffset hsource
  case order =>
    intro o o' ho ho'
    -- The offsets compare in one of three ways, and the positions compare the same way.
    rcases Nat.lt_trichotomy o o' with hlt | rfl | hlt
    · have hbefore := ofOffset_lt ho ho' hlt
      exact ⟨iff_of_false hbefore.ne hlt.ne, iff_of_true hbefore hlt⟩
    · exact ⟨iff_of_true rfl rfl, iff_of_false (lt_irrefl _) (Nat.lt_irrefl o)⟩
    · have hbehind := ofOffset_lt ho' ho hlt
      exact ⟨iff_of_false hbehind.ne' hlt.ne', iff_of_false hbehind.not_gt hlt.not_gt⟩
  case beyond =>
    intro o ho
    have hlength : byteLength source.toList ≤ o := by
      rw [byteLength_toList]
      exact ho.le
    rw [ofOffset, ofOffset, walk_beyond _ _ _ _ hlength, byteLength_toList]

/-- Two bytes of one character, a carriage return and two line feeds: the empty line between them
and the place behind both. -/
theorem ofOffset_invertible_empty_line :
    let source := "é\r\n\nx"
    IsBoundary source 4 ∧ IsBoundary source 5 ∧ ofOffset source 4 = ⟨2, 1⟩ ∧
      ofOffset source 4 < ofOffset source 5 ∧ (ofOffset source 5).offset? source = some 5 ∧
      ofOffset source 7 = ofOffset source 6 := by
  intro source
  obtain ⟨-, hback, horder, hbeyond⟩ := ofOffset_invertible source
  have hempty : IsBoundary source 4 :=
    isBoundary_iff.mpr ⟨['é', '\r', '\n'], ['\n', 'x'], by decide, by decide⟩
  have hbehind : IsBoundary source 5 :=
    isBoundary_iff.mpr ⟨['é', '\r', '\n', '\n'], ['x'], by decide, by decide⟩
  have hbefore := (horder 4 5 hempty hbehind).2.mpr (by decide)
  exact ⟨hempty, hbehind, by decide, hbefore, hback 5 hbehind, hbeyond 7 (by decide)⟩

end Position
end Gloss
