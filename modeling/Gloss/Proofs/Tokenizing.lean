import Gloss.Proofs.Stretches
import Gloss.Tokenize

namespace Gloss

open Category OnePass Selection

/-- What a kind finds in the text `w`: with the scanner's token, if it is of this kind, only tokens
that are beaten by the scanner's token. The rest is found behind `w`. -/
def Finds (c : Category) (insideWord : Bool) (offset : Nat) (w after : List Char)
    (kind? : Option Category) : Prop :=
  ∃ inner, c.tokensFrom insideWord offset (w ++ after) =
      inner ++ c.tokensFrom (insideAfter insideWord w) (offset + byteLength w) after ∧
    (∀ t ∈ inner, ∃ k, kind? = some k ∧
      (t = Token.ofLexeme k offset w ∨ Beats (Token.ofLexeme k offset w) t)) ∧
    (kind? = some c → Token.ofLexeme c offset w ∈ inner)

section Finds

variable {c k : Category} {kind? : Option Category} {insideWord : Bool} {offset : Nat} {x : Char}
  {w more after : List Char}

theorem finds_nothing (hkind : kind? ≠ some c)
    (h : c.tokensFrom insideWord offset (w ++ after) =
      c.tokensFrom (insideAfter insideWord w) (offset + byteLength w) after) :
    Finds c insideWord offset w after kind? :=
  ⟨[], h, nofun, fun hk => absurd hk hkind⟩

theorem beats_of_inside {s t : Token} (hstart : s.span.start < t.span.start)
    (hstop : t.span.start < s.span.stop) : Beats s t := by
  refine ⟨hstop, ?_, ?_⟩
  · rw [precedes, decide_eq_true hstart, Bool.true_or]
  · intro hback
    have hle := start_le_of_precedes hback
    omega

theorem beats_of_higher (h : k.rank < c.rank) :
    Beats (Token.ofLexeme k offset (x :: w)) (Token.ofLexeme c offset (x :: w)) := by
  have hpos := x.utf8Size_pos
  refine ⟨?_, ?_, fun _ => h⟩
  · dsimp only [Token.ofLexeme]
    rw [byteLength_cons]
    omega
  · simp [precedes, Token.ofLexeme]

theorem finds_one (hclaims : c.Claims kind?)
    (hlength : c.lexemeLength insideWord (x :: (more ++ after)) = more.length + 1) :
    Finds c insideWord offset (x :: more) after kind? := by
  refine ⟨[Token.ofLexeme c offset (x :: more)], ?_, ?_, fun _ => List.mem_singleton_self _⟩
  · rw [List.cons_append, tokensFrom_take hlength, List.take_left, List.drop_left]
    rfl
  · intro t ht
    rw [List.mem_singleton] at ht
    rw [ht]
    rcases hclaims with hkind | ⟨rfl, hkind⟩
    · exact ⟨c, hkind, Or.inl rfl⟩
    · -- A reserved word is found as a name too, which has a lower priority.
      exact ⟨.keyword, hkind, Or.inr (beats_of_higher (by decide))⟩

/-- Where only tokens of one kind can begin, another kind finds nothing. -/
theorem finds_other (hne : c ≠ k) (hk : k.isWordKind = false) (hall : ∀ y ∈ w, k.begins y) :
    Finds c insideWord offset w after (some k) := by
  apply finds_nothing fun h => hne (Option.some.inj h).symm
  apply tokensFrom_of_not_begins
  intro y hy
  exact not_begins (hall y hy) hne (Or.inr hk)

/-- In a quoted text all that another kind finds is beaten by the text. -/
theorem finds_quoted {inside : List Char} (hquote : isQuote x) (hc : c ≠ .literal) :
    Finds c insideWord offset (x :: (inside ++ [x])) after (some .literal) := by
  have hbegins : c.begins x = false := not_begins (begins_of_quote hquote) hc (Or.inr rfl)
  have hholds := holds_of_quote hquote hc
  -- What is found after the opening quote stays before the closing one, since no other kind has it.
  obtain ⟨inner, heq, hinner⟩ := tokensFrom_before hc hholds (isWordChar x) (offset + x.utf8Size)
    inside after
  refine ⟨inner, ?_, ?_, fun hk => absurd (Option.some.inj hk).symm hc⟩
  · rw [List.cons_append, tokensFrom_skip (lexemeLength_of_not_begins hbegins), List.append_assoc,
      List.singleton_append, heq, byteLength_cons, Nat.add_assoc, insideAfter, insideAfter_append]
    rfl
  · intro t ht
    have hbounds := hinner t ht
    have hpos := x.utf8Size_pos
    refine ⟨_, rfl, Or.inr (beats_of_inside ?_ ?_)⟩ <;> dsimp only [Token.ofLexeme]
    · omega
    · rw [byteLength_cons]
      omega

theorem finds_nothing_one (hclaims : ¬c.Claims kind?)
    (hnone : c.lexemeLength insideWord (x :: after) = 0) :
    Finds c insideWord offset [x] after kind? := by
  apply finds_nothing fun hkind => hclaims (Or.inl hkind)
  rw [List.singleton_append, tokensFrom_skip hnone]
  rfl

/-- A kind that does not find a word finds nothing in it. -/
theorem finds_word {run : List Char} (hx : isWordChar x) (hrun : ∀ y ∈ run, isWordChar y)
    (hclaims : ¬c.Claims kind?) (hnone : c.lexemeLength insideWord (x :: (run ++ after)) = 0) :
    Finds c insideWord offset (x :: run) after kind? := by
  apply finds_nothing fun hkind => hclaims (Or.inl hkind)
  exact tokensFrom_word hx hrun hnone

/-- Neither a digit nor the point begins a token of another kind than literals. -/
theorem finds_decimal {run digits : List Char} (hc : c ≠ .literal) (hx : CharClass.digit.has x)
    (hrun : ∀ y ∈ run, CharClass.digit.has y) (hdigits : ∀ y ∈ digits, CharClass.digit.has y) :
    Finds c insideWord offset (x :: (run ++ '.' :: digits)) after (some .literal) := by
  have hdigit {y : Char} (hy : CharClass.digit.has y) : c.begins y = false :=
    not_begins (begins_of_digit hy) hc (Or.inr rfl)
  have hpoint : c.begins '.' = false := by cases c <;> decide
  apply finds_nothing fun h => hc (Option.some.inj h).symm
  apply tokensFrom_of_not_begins
  intro y hy
  rcases List.mem_cons.mp hy with rfl | hy
  · exact hdigit hx
  · rcases List.mem_append.mp hy with hy | hy
    · exact hdigit (hrun y hy)
    · rcases List.mem_cons.mp hy with rfl | hy
      · exact hpoint
      · exact hdigit (hdigits y hy)

/-- A token that a kind finds in a stretch is the scanner's own token or is beaten by it, and none
reaches beyond the stretch. -/
theorem finds_stretch (c : Category) (offset : Nat) (h : Stretch x more after kind?)
    (hedge : insideWord = true → isWordChar x = false) :
    Finds c insideWord offset (x :: more) after kind? := by
  rcases lexemeLength_stretch c h hedge with ⟨hclaims, hlength⟩ | ⟨hclaims, hnone⟩
  · exact finds_one hclaims hlength
  have hother {k : Category} (hkind : kind? = some k) : c ≠ k := by
    rintro rfl
    exact hclaims (Or.inl hkind)
  -- The kind finds nothing where the stretch begins; inside only a quoted text has more to find.
  cases h with
  | quoted hquote _ => exact finds_quoted hquote (hother rfl)
  | unpaired => exact finds_nothing_one hclaims hnone
  | operator hx hrun _ =>
    have hall : ∀ y ∈ x :: more, Category.operator.begins y :=
      List.forall_mem_cons.mpr ⟨hx, hrun⟩
    exact finds_other (hother rfl) rfl hall
  | bracket => exact finds_nothing_one hclaims hnone
  | name hx hrun _ => exact finds_word (CharClass.has_word_of_has_nameStart hx) hrun hclaims hnone
  | number hx hrun _ _ =>
    have hwords := words_of_digits hrun
    exact finds_word (CharClass.has_word_of_has_digit hx) hwords hclaims hnone
  | decimal hx hrun _ hdigits _ => exact finds_decimal (hother rfl) hx hrun hdigits
  | glued hx hrun _ _ => exact finds_word (CharClass.has_word_of_has_digit hx) hrun hclaims hnone
  | other => exact finds_nothing_one hclaims hnone

end Finds

/-- No stretch ends within a word. -/
theorem stretch_edge {x : Char} {more after : List Char} {kind? : Option Category}
    {insideWord : Bool} (h : Stretch x more after kind?)
    (hinside : insideAfter insideWord (x :: more) = true) :
    after.head?.any isWordChar = false := by
  -- Only what ends with a word character leaves the scan inside a word, and no such character
  -- follows.
  cases h with
  | quoted hquote _ =>
    rw [insideAfter, insideAfter_append, insideAfter, insideAfter,
      (classes_of_quote hquote).2.2] at hinside
    exact absurd hinside Bool.false_ne_true
  | unpaired hquote _ =>
    rw [insideAfter, insideAfter, (classes_of_quote hquote).2.2] at hinside
    exact absurd hinside Bool.false_ne_true
  | operator hx hrun _ =>
    have hall : ∀ y ∈ x :: more, CharClass.operator.has y := List.forall_mem_cons.mpr ⟨hx, hrun⟩
    have houtside : insideAfter insideWord (x :: more) = false := insideAfter_of_not_word
      (fun y hy => (classes_of_operator (hall y hy)).2.2) (Or.inr (List.cons_ne_nil x more))
    rw [houtside] at hinside
    exact absurd hinside Bool.false_ne_true
  | bracket hx =>
    rw [insideAfter, insideAfter, (classes_of_bracket hx).2.2] at hinside
    exact absurd hinside Bool.false_ne_true
  | name _ _ hend => exact endsWord_iff.mp hend
  | number _ _ hend _ => exact endsWord_iff.mp hend
  | decimal _ _ _ _ hend => exact endsWord_iff.mp hend
  | glued _ _ _ hend => exact endsWord_iff.mp hend
  | other _ _ _ hword =>
    rw [insideAfter, insideAfter, hword] at hinside
    exact absurd hinside Bool.false_ne_true

/-- The scanner's tokens follow each other, and none is empty. -/
theorem scan_ordered (text : List Char) : ∀ offset,
    (scan offset text).Pairwise (fun a b => a.span.stop ≤ b.span.start) ∧
      ∀ s ∈ scan offset text, offset ≤ s.span.start ∧ s.span.start < s.span.stop := by
  -- The offset is carried along: what is found behind the stretch starts where it ends, or later.
  induction text using stretch_induction with
  | nil =>
    intro offset
    rw [OnePass.scan]
    exact ⟨List.Pairwise.nil, List.forall_mem_nil _⟩
  | stretch x more after kind? h ih =>
    intro offset
    have hpos := x.utf8Size_pos
    obtain ⟨hpairwise, hbounds⟩ := ih (offset + byteLength (x :: more))
    have hbehind (s : Token) (hs : s ∈ scan (offset + byteLength (x :: more)) after) :
        offset ≤ s.span.start ∧ s.span.start < s.span.stop := by
      have hs' := hbounds s hs
      omega
    rw [scan_append _ h]
    cases kind? with
    | none => exact ⟨hpairwise, hbehind⟩
    | some k =>
      refine ⟨List.pairwise_cons.mpr ⟨fun s hs => (hbounds s hs).1, hpairwise⟩, ?_⟩
      intro s hs
      rcases List.mem_cons.mp hs with rfl | hs
      · refine ⟨Nat.le_refl _, ?_⟩
        dsimp only [Token.ofLexeme]
        rw [byteLength_cons]
        omega
      · exact hbehind s hs

/-- Each kind finds the scanner's tokens of this kind, and else only what these beat. -/
theorem scan_agrees (text : List Char) : ∀ (insideWord : Bool) (offset : Nat),
    (insideWord = true → text.head?.any isWordChar = false) →
      (∀ s ∈ scan offset text, s ∈ s.category.tokensFrom insideWord offset text) ∧
      ∀ c : Category, ∀ t ∈ c.tokensFrom insideWord offset text,
        t ∈ scan offset text ∨ ∃ s ∈ scan offset text, Beats s t := by
  -- The tokens of a category are those found in the first stretch and those found behind it.
  induction text using stretch_induction with
  | nil =>
    intro insideWord offset _
    rw [OnePass.scan]
    exact ⟨List.forall_mem_nil _, fun c => List.forall_mem_nil _⟩
  | stretch x more after kind? h ih =>
    intro insideWord offset hedge
    obtain ⟨hfound, hrest⟩ := ih (insideAfter insideWord (x :: more))
      (offset + byteLength (x :: more)) (stretch_edge h)
    rw [scan_append _ h]
    constructor
    · intro s hs
      obtain ⟨inner, heq, -, hown⟩ := finds_stretch s.category offset h hedge
      rw [List.cons_append] at heq
      rw [heq]
      rcases List.mem_append.mp hs with hs | hs
      · obtain ⟨k, hk, rfl⟩ := List.mem_map.mp hs
        exact List.mem_append_left _ (hown (Option.mem_toList.mp hk))
      · exact List.mem_append_right _ (hfound s hs)
    · intro c t ht
      obtain ⟨inner, heq, hinner, -⟩ := finds_stretch c offset h hedge
      rw [List.cons_append] at heq
      rw [heq] at ht
      rcases List.mem_append.mp ht with ht | ht
      · obtain ⟨k, rfl, hcase⟩ := hinner t ht
        rcases hcase with rfl | hbeats
        · exact Or.inl List.mem_cons_self
        · exact Or.inr ⟨_, List.mem_cons_self, hbeats⟩
      · rcases hrest c t ht with hin | ⟨s, hs, hbeats⟩
        · exact Or.inl (List.mem_append_right _ hin)
        · exact Or.inr ⟨s, List.mem_append_right _ hs, hbeats⟩

theorem category_of_mem_candidates {c : Category} {text : List Char} {t : Token}
    (ht : t ∈ c.candidates text) : t.category = c := by
  rw [candidates_eq_findAll] at ht
  obtain ⟨m, -, rfl⟩ := List.mem_map.mp ht
  rfl

/-- Candidates are listed by priority. -/
theorem candidates_by_rank (source : String) :
    (candidates source).Pairwise fun a b => a.category.rank ≤ b.category.rank := by
  have hall : Category.all.Pairwise fun c k => c.rank < k.rank := by decide
  apply List.pairwise_flatMap.mpr
  constructor
  · intro c _
    apply List.pairwise_of_forall_mem_list
    intro a ha b hb
    have hsame : a.category = b.category :=
      (category_of_mem_candidates ha).trans (category_of_mem_candidates hb).symm
    exact Nat.le_of_eq (congrArg Category.rank hsame)
  · apply hall.imp
    intro c k hlt a ha b hb
    rw [category_of_mem_candidates ha, category_of_mem_candidates hb]
    exact Nat.le_of_lt hlt

/-- The choice among all candidates is what the scanner finds. -/
theorem select_candidates (source : String) :
    select (candidates source) = scan 0 source.toList := by
  obtain ⟨hdisjoint, hbounds⟩ := scan_ordered source.toList 0
  obtain ⟨hfound, hrest⟩ := scan_agrees source.toList false 0 nofun
  apply select_eq (candidates_by_rank source) hdisjoint fun s hs => (hbounds s hs).2
  · intro s hs
    exact List.mem_flatMap.mpr ⟨s.category, s.category.mem_all, hfound s hs⟩
  · intro t ht
    obtain ⟨c, -, ht⟩ := List.mem_flatMap.mp ht
    exact hrest c t ht

/-- The leftmost matches of the five patterns, with overlaps resolved, are the tokens that the
scanner finds in one pass. -/
theorem tokenize_eq_scan (source : String) :
    tokenize source = scan 0 source.toList ∧
      select (Category.all.flatMap fun c => (c.pattern.findAll false 0 source.toList).map fun m =>
        Token.ofLexeme c m.1 m.2) = scan 0 source.toList := by
  have hmatches : candidates source = Category.all.flatMap fun c =>
      (c.pattern.findAll false 0 source.toList).map fun m => Token.ofLexeme c m.1 m.2 := by
    have heach := funext fun c : Category => candidates_eq_findAll c source.toList
    exact congrArg (Category.all.flatMap ·) heach
  rw [← hmatches]
  exact ⟨select_candidates source, select_candidates source⟩

end Gloss
