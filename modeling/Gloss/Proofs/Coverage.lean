import Mathlib.Data.List.Pairwise
import Mathlib.Logic.ExistsUnique
import Gloss.Proofs.Layout
import Gloss.Proofs.Passing

namespace Gloss

open OnePass

namespace Span

def Within (s u : Span) : Prop := u.start ≤ s.start ∧ s.stop ≤ u.stop

def Apart (s u : Span) : Prop := s.stop ≤ u.start ∨ u.stop ≤ s.start

theorem Within.not_apart {s u v : Span} (hs : s.start < s.stop) (hu : s.Within u)
    (hv : s.Within v) : ¬u.Apart v := by
  rw [Within] at hu hv
  rw [Apart]
  omega

end Span

def Token.IsQuotation (t : Token) : Prop :=
  t.category = .literal ∧ t.text.toList.head?.any isQuote

/-- A run of word characters that is not part of a longer one. -/
structure WholeWord (before word after : List Char) : Prop where
  nonempty : word ≠ []
  all : ∀ y ∈ word, isWordChar y
  before : before.getLast?.any isWordChar = false
  after : after.head?.any isWordChar = false

/-- What no gap may hold: an operator character, a bracket, or a whole word that is a name or has
digits only. -/
inductive Lexable (before : List Char) : List Char → List Char → Prop where
  | sign {x : Char} {after : List Char}
      (hx : CharClass.operator.has x ∨ CharClass.bracket.has x) : Lexable before [x] after
  | word {x : Char} {run after : List Char} (hword : WholeWord before (x :: run) after)
      (hx : CharClass.nameStart.has x ∨ ∀ y ∈ x :: run, CharClass.digit.has y) :
      Lexable before (x :: run) after

section Cover

variable {x : Char} {passed before piece rest more after inner : List Char}
  {kind? : Option Category}

/-- A piece that begins in a stretch ends in it. -/
theorem Lexable.prefix_stretch (hpiece : Lexable (passed ++ before) piece rest)
    (h : Stretch x more after kind?) (hinner : x :: more = before ++ inner) (hne : inner ≠ [])
    (htext : inner ++ after = piece ++ rest) : ∃ behind, inner = piece ++ behind := by
  rcases List.append_eq_append_iff.mp htext with ⟨outside, houtside, hafter⟩ | ⟨behind, hbehind, -⟩
  · cases hpiece with
    | sign hx =>
      cases inner with
      | nil => exact absurd rfl hne
      | cons y inner =>
        obtain ⟨rfl, hnil⟩ := List.cons.inj houtside
        exact ⟨inner, rfl⟩
    | word hword hx =>
      cases outside with
      | nil => exact ⟨[], by rw [houtside, List.append_nil, List.append_nil]⟩
      | cons y outside =>
        -- The word would go on behind the stretch, but no stretch ends within a word.
        exfalso
        have hwords : ∀ z ∈ inner, isWordChar z := by
          intro z hz
          exact hword.all z (by rw [houtside]; exact List.mem_append_left _ hz)
        have hinside : insideAfter false (x :: more) = true := by
          rw [hinner, insideAfter_append]
          exact insideAfter_of_word hwords (Or.inr hne)
        have hedge := stretch_edge h hinside
        have hy : isWordChar y := hword.all y (by rw [houtside]; simp)
        rw [hafter, List.cons_append, List.head?_cons, Option.any_some, hy] at hedge
        cases hedge
  · exact ⟨behind, hbehind⟩

theorem Lexable.exists_head (hpiece : Lexable before piece rest) : ∃ y run, piece = y :: run ∧
    (CharClass.operator.has y ∨ CharClass.bracket.has y ∨ isWordChar y) := by
  cases hpiece with
  | @sign y _ hy => exact ⟨y, [], rfl, hy.imp_right Or.inl⟩
  | @word y run _ hword _ => exact ⟨y, run, rfl, Or.inr (Or.inr (hword.all y List.mem_cons_self))⟩

theorem Lexable.wide (hpiece : Lexable before piece rest) :
    byteLength before < byteLength (before ++ piece) := by
  obtain ⟨y, run, rfl, -⟩ := hpiece.exists_head
  have hpos := y.utf8Size_pos
  rw [byteLength_append, byteLength_cons]
  omega

/-- A whole word that stands in a run of word characters is all of the run. -/
theorem WholeWord.eq_run {run behind : List Char} (hword : WholeWord (passed ++ before) piece rest)
    (hrun : ∀ y ∈ run, isWordChar y) (hsplit : run = before ++ (piece ++ behind))
    (hrest : rest = behind ++ after) : run = piece := by
  -- A word character on either side would make the piece part of a longer word.
  have hbefore : before = [] := by
    rcases List.eq_nil_or_concat before with hnil | ⟨front, y, rfl⟩
    · exact hnil
    · exfalso
      have hy : isWordChar y := hrun y (by rw [hsplit]; simp)
      have hlast := hword.before
      rw [List.concat_eq_append, ← List.append_assoc, List.getLast?_concat, Option.any_some,
        hy] at hlast
      cases hlast
  have hbehind : behind = [] := by
    cases behind with
    | nil => rfl
    | cons y behind =>
      exfalso
      have hy : isWordChar y := hrun y (by rw [hsplit]; simp)
      have hnext := hword.after
      rw [hrest, List.cons_append, List.head?_cons, Option.any_some, hy] at hnext
      cases hnext
  rw [hsplit, hbefore, hbehind, List.nil_append, List.append_nil]

/-- The stretch that a piece begins in is a token. -/
theorem Lexable.exists_kind (hpiece : Lexable (passed ++ before) piece rest)
    (h : Stretch x more after kind?) {behind : List Char}
    (hsplit : x :: more = before ++ (piece ++ behind)) (hrest : rest = behind ++ after) :
    ∃ c, kind? = some c := by
  obtain ⟨y, run, rfl, hy⟩ := hpiece.exists_head
  have hmem : y ∈ x :: more := by rw [hsplit]; simp
  cases h with
  | unpaired hquote hopen =>
    obtain rfl : y = x := List.mem_singleton.mp hmem
    obtain ⟨hoperator, hbracket, hword⟩ := classes_of_quote hquote
    simp [hoperator, hbracket, hword] at hy
  | other hquote hoperator hbracket hword =>
    obtain rfl : y = x := List.mem_singleton.mp hmem
    simp [hoperator, hbracket, hword] at hy
  | glued hx hrun hmixed hend =>
    -- The word begins with a digit and has other characters too, so it is no piece.
    exfalso
    have hwords : ∀ z ∈ x :: more, isWordChar z :=
      List.forall_mem_cons.mpr ⟨CharClass.has_word_of_has_digit hx, hrun⟩
    obtain ⟨-, hoperator, hbracket⟩ := classes_of_word (hwords y hmem)
    cases hpiece with
    | sign hsign => simp [hoperator, hbracket] at hsign
    | word hword hkind =>
      obtain ⟨rfl, rfl⟩ := List.cons.inj (hword.eq_run hwords hsplit hrest)
      rcases hkind with hname | hdigits
      · exact absurd hname (Bool.eq_false_iff.mp (not_nameStart_of_digit hx))
      · exact hmixed fun z hz => hdigits z (List.mem_cons_of_mem x hz)
  | _ => exact ⟨_, rfl⟩

/-- Whatever can be a token stands in one that the scanner finds. -/
theorem scan_covers (text : List Char) : ∀ (offset : Nat) (passed before piece rest : List Char),
    text = before ++ (piece ++ rest) → Lexable (passed ++ before) piece rest →
      ∃ t ∈ scan offset text, t.span.start ≤ offset + byteLength before ∧
        offset + byteLength (before ++ piece) ≤ t.span.stop := by
  -- A piece lies behind the first stretch or in it, but never across its end.
  induction text using stretch_induction with
  | nil =>
    intro offset passed before piece rest htext hpiece
    obtain ⟨y, run, rfl, -⟩ := hpiece.exists_head
    simp at htext
  | stretch x more after kind? h ih =>
    intro offset passed before piece rest htext hpiece
    rw [scan_append offset h]
    -- A piece behind the stretch is found there, with the stretch among what was passed.
    have hlater (mid : List Char) (hbefore : before = x :: more ++ mid)
        (hafter : after = mid ++ (piece ++ rest)) :
        ∃ t ∈ kind?.toList.map (Token.ofLexeme · offset (x :: more)) ++
            scan (offset + byteLength (x :: more)) after,
          t.span.start ≤ offset + byteLength before ∧
            offset + byteLength (before ++ piece) ≤ t.span.stop := by
      have hpiece' : Lexable (passed ++ (x :: more) ++ mid) piece rest := by
        rw [List.append_assoc, ← hbefore]
        exact hpiece
      obtain ⟨t, ht, hstart, hstop⟩ := ih (offset + byteLength (x :: more)) _ mid piece rest hafter
        hpiece'
      have hbytes := byteLength_append (x :: more) mid
      rw [← hbefore] at hbytes
      rw [byteLength_append] at hstop
      refine ⟨t, List.mem_append_right _ ht, by omega, ?_⟩
      rw [byteLength_append]
      omega
    have hsplit : x :: more ++ after = before ++ (piece ++ rest) := htext
    rcases List.append_eq_append_iff.mp hsplit with ⟨mid, hbefore, hafter⟩ | ⟨inner, hinner, htail⟩
    · exact hlater mid hbefore hafter
    · by_cases hne : inner = []
      · rw [hne, List.append_nil] at hinner
        rw [hne, List.nil_append] at htail
        exact hlater [] (by rw [hinner, List.append_nil]) htail.symm
      · obtain ⟨behind, rfl⟩ := hpiece.prefix_stretch h hinner hne htail.symm
        rw [List.append_assoc, List.append_cancel_left_eq] at htail
        obtain ⟨c, rfl⟩ := hpiece.exists_kind h hinner htail
        refine ⟨Token.ofLexeme c offset (x :: more), List.mem_cons_self, ?_, ?_⟩
        · exact Nat.le_add_right _ _
        · dsimp only [Token.ofLexeme]
          rw [hinner, ← List.append_assoc, byteLength_append (before ++ piece)]
          omega

end Cover

section Characters

variable {x y : Char} {more after : List Char} {c : Category}

theorem ascii_of_word (h : isWordChar y) : y.toNat < 128 := by
  have hbound : y.val ≤ 'z'.val := by
    simp only [isWordChar, CharClass.has, Char.isAlphanum, Bool.or_eq_true,
      decide_eq_true_eq] at h
    rcases h with (halpha | hdigit) | rfl
    · rcases Bool.or_eq_true_iff.mp halpha with hupper | hlower
      · have hbounds : y.val ≥ 'A'.val ∧ y.val ≤ 'Z'.val := of_decide_eq_true hupper
        exact UInt32.le_trans hbounds.2 (by decide)
      · exact of_decide_eq_true (Bool.and_eq_true_iff.mp hlower).2
    · have hbounds : y.val ≤ '9'.val := of_decide_eq_true (Bool.and_eq_true_iff.mp hdigit).2
      exact UInt32.le_trans hbounds (by decide)
    · decide
  have hz : 'z'.val.toNat < 128 := by decide
  exact Nat.lt_of_le_of_lt (UInt32.le_iff_toNat_le.mp hbound) hz

/-- Outside of quotes a token has only word characters, signs and points. -/
theorem plain_of_stretch (h : Stretch x more after (some c)) (hquote : isQuote x = false)
    (hy : y ∈ x :: more) : isWordChar y ∨ CharClass.operator.has y ∨ CharClass.bracket.has y ∨
      y = '.' := by
  -- Besides quotations only a decimal number mixes characters, and then only with its point.
  cases h with
  | quoted hopen _ => exact absurd hopen (Bool.eq_false_iff.mp hquote)
  | operator hx hrun _ =>
    have hall : ∀ z ∈ x :: more, CharClass.operator.has z := List.forall_mem_cons.mpr ⟨hx, hrun⟩
    exact Or.inr (Or.inl (hall y hy))
  | bracket hx =>
    obtain rfl : y = x := List.mem_singleton.mp hy
    exact Or.inr (Or.inr (Or.inl hx))
  | name hx hrun _ =>
    have hall : ∀ z ∈ x :: more, isWordChar z :=
      List.forall_mem_cons.mpr ⟨CharClass.has_word_of_has_nameStart hx, hrun⟩
    exact Or.inl (hall y hy)
  | number hx hrun _ _ =>
    exact Or.inl (words_of_digits (List.forall_mem_cons.mpr ⟨hx, hrun⟩) y hy)
  | @decimal run digits _ hx hrun _ hdigits _ =>
    rcases List.mem_append.mp (show y ∈ (x :: run) ++ '.' :: digits from hy) with hy | hy
    · exact Or.inl (words_of_digits (List.forall_mem_cons.mpr ⟨hx, hrun⟩) y hy)
    · rcases List.mem_cons.mp hy with rfl | hy
      · exact Or.inr (Or.inr (Or.inr rfl))
      · exact Or.inl (words_of_digits hdigits y hy)

theorem literal_of_quote (h : Stretch x more after (some c)) (hquote : isQuote x) :
    c = .literal := by
  cases h with
  | quoted | number | decimal => rfl
  | operator hx => exact absurd hquote (Bool.eq_false_iff.mp (classes_of_operator hx).1)
  | bracket hx => exact absurd hquote (Bool.eq_false_iff.mp (classes_of_bracket hx).1)
  | name hx =>
    have hword := CharClass.has_word_of_has_nameStart hx
    exact absurd hquote (Bool.eq_false_iff.mp (classes_of_word hword).1)

theorem plain_facts (h : isWordChar y ∨ CharClass.operator.has y ∨ CharClass.bracket.has y ∨
    y = '.') : y.toNat < 128 ∧ isQuote y = false ∧ y ∉ separators := by
  have hseparator := @classes_of_separator y
  rcases h with hy | hy | hy | rfl
  · refine ⟨ascii_of_word hy, (classes_of_word hy).1, fun hmem => ?_⟩
    exact Bool.eq_false_iff.mp (hseparator hmem).2.2.2.1 hy
  · refine ⟨?_, (classes_of_operator hy).1, fun hmem => ?_⟩
    · simp only [CharClass.has, Bool.or_eq_true, decide_eq_true_eq] at hy
      obtain ((((((rfl | rfl) | rfl) | rfl) | rfl) | rfl) | rfl) | rfl := hy <;> decide
    · exact Bool.eq_false_iff.mp (hseparator hmem).2.1 hy
  · refine ⟨?_, (classes_of_bracket hy).1, fun hmem => ?_⟩
    · simp only [CharClass.has, Bool.or_eq_true, decide_eq_true_eq] at hy
      obtain ((((rfl | rfl) | rfl) | rfl) | rfl) | rfl := hy <;> decide
    · exact Bool.eq_false_iff.mp (hseparator hmem).2.2.1 hy
  · exact ⟨by decide, by decide, by decide⟩

end Characters

section Tokens

variable {source : String} {t : Token}

/-- Tokens are slices of their text. -/
theorem slice_of_mem_tokenize (h : t ∈ tokenize source) :
    t.span.start < t.span.stop ∧ t.span.stop ≤ source.utf8ByteSize ∧
      ∃ before after, source = before ++ t.text ++ after ∧
        t.span = ⟨before.utf8ByteSize, (before ++ t.text).utf8ByteSize⟩ := by
  have hscan : t ∈ scan 0 source.toList := by rwa [← select_candidates]
  have hwide := ((scan_ordered source.toList 0).2 t hscan).2
  obtain ⟨before, after, htext, hstart, hstop⟩ := exists_slice hscan
  have hsource : source = String.ofList before ++ t.text ++ String.ofList after := by
    rw [← String.toList_inj]
    simp [htext]
  have hsize : source.utf8ByteSize =
      byteLength before + byteLength t.text.toList + byteLength after := by
    rw [← byteLength_toList, htext, byteLength_append, byteLength_append]
  have hspan : t.span = ⟨byteLength before, byteLength before + byteLength t.text.toList⟩ := by
    rw [Nat.zero_add] at hstart
    rw [← hstart, ← hstop]
  refine ⟨hwide, by omega, String.ofList before, String.ofList after, hsource, ?_⟩
  rw [hspan, String.utf8ByteSize_append, utf8ByteSize_ofList, byteLength_toList]

/-- Only quoted texts hold quotes, separators and characters beyond ASCII. -/
theorem plain_of_mem_tokenize (h : t ∈ tokenize source) (hquotation : ¬t.IsQuotation) :
    ∀ y ∈ t.text.toList, y.toNat < 128 ∧ isQuote y = false ∧ y ∉ separators := by
  have hscan : t ∈ scan 0 source.toList := by rwa [← select_candidates]
  obtain ⟨x, more, after, htext, hstretch⟩ := scanned_of_mem_scan source.toList 0 t hscan
  have hchars : t.text.toList = x :: more := by rw [htext, String.toList_ofList]
  have hquote : isQuote x = false := by
    rw [Bool.eq_false_iff]
    intro hx
    exact hquotation ⟨literal_of_quote hstretch hx, by rw [hchars]; exact hx⟩
  intro y hy
  rw [hchars] at hy
  exact plain_facts (plain_of_stretch hstretch hquote hy)

/-- The tokens of a text stand one behind the other. -/
theorem tokenize_ordered (source : String) :
    (tokenize source).Pairwise fun s t => s.span.stop ≤ t.span.start := by
  have hordered := (scan_ordered source.toList 0).1
  rwa [← select_candidates] at hordered

theorem pairwise_apart (source : String) :
    (tokenize source).Pairwise fun s t => s.span.Apart t.span :=
  (tokenize_ordered source).imp Or.inl

theorem apart_of_mem {u : Token} (ht : t ∈ tokenize source) (hu : u ∈ tokenize source)
    (hne : t ≠ u) : t.span.Apart u.span := by
  have hsymm : Std.Symm fun s t : Token => s.span.Apart t.span := ⟨fun _ _ h => Or.symm h⟩
  exact (pairwise_apart source).forall ht hu hne

/-- Tokens have no byte in common, so what can be a token stands in just one. -/
theorem existsUnique_token {before piece after : List Char}
    (htext : source.toList = before ++ (piece ++ after)) (hpiece : Lexable before piece after) :
    ∃! t, t ∈ tokenize source ∧
      Span.Within ⟨byteLength before, byteLength (before ++ piece)⟩ t.span := by
  obtain ⟨t, ht, hstart, hstop⟩ := scan_covers source.toList 0 [] before piece after htext hpiece
  rw [← select_candidates] at ht
  rw [Nat.zero_add] at hstart hstop
  refine ⟨t, ⟨ht, hstart, hstop⟩, ?_⟩
  -- Two tokens that both hold the piece are not apart, so they are one.
  rintro u ⟨hu, hwithin⟩
  by_contra hne
  exact hwithin.not_apart hpiece.wide ⟨hstart, hstop⟩ (apart_of_mem hu ht hne)

end Tokens

/-- The tokens of a text are slices of it, one behind the other. Apart from quoted texts they hold
no white space, quotes or other unreadable characters, and all that can be read is in them. -/
theorem tokenize_covers (source : String) :
    (∀ t ∈ tokenize source, t.span.start < t.span.stop ∧ t.span.stop ≤ source.utf8ByteSize ∧
      ∃ before after, source = before ++ t.text ++ after ∧
        t.span = ⟨before.utf8ByteSize, (before ++ t.text).utf8ByteSize⟩) ∧
    (tokenize source).Pairwise (fun s t => s.span.stop ≤ t.span.start) ∧
    (∀ t ∈ tokenize source, ¬t.IsQuotation →
      ∀ y ∈ t.text.toList, y.toNat < 128 ∧ isQuote y = false ∧ y ∉ separators) ∧
    ∀ before piece after, source.toList = before ++ (piece ++ after) →
      Lexable before piece after →
      (∃! t, t ∈ tokenize source ∧
        Span.Within ⟨byteLength before, byteLength (before ++ piece)⟩ t.span) ∧
      ∀ gap : Span, (∀ t ∈ tokenize source, gap.Apart t.span) →
        ¬Span.Within ⟨byteLength before, byteLength (before ++ piece)⟩ gap := by
  -- The tokens are those of the scanner, whose order and slices are known.
  have hordered := (scan_ordered source.toList 0).1
  rw [← select_candidates] at hordered
  refine ⟨fun t ht => slice_of_mem_tokenize ht, hordered, fun t ht => plain_of_mem_tokenize ht, ?_⟩
  intro before piece after htext hpiece
  have hunique := existsUnique_token htext hpiece
  refine ⟨hunique, ?_⟩
  intro gap hgap hwithin
  obtain ⟨t, ht, htoken⟩ := hunique.exists
  exact hwithin.not_apart hpiece.wide htoken (hgap t ht)

/-- The digits behind a point are a word of their own, in the token of the whole number. -/
theorem tokenize_covers_fraction :
    let source := "é 'x' 2.5"
    ∃! t, t ∈ tokenize source ∧ Span.Within ⟨9, 10⟩ t.span := by
  intro source
  have hdigits : ∀ y ∈ ['5'], CharClass.digit.has y := List.all_eq_true.mp (by decide)
  have hword : WholeWord "é 'x' 2.".toList ['5'] [] :=
    ⟨List.cons_ne_nil '5' [], words_of_digits hdigits, by decide, by decide⟩
  have hpiece : Lexable "é 'x' 2.".toList ['5'] [] := .word hword (Or.inr hdigits)
  have htext : source.toList = "é 'x' 2.".toList ++ (['5'] ++ []) := by decide
  exact ((tokenize_covers source).2.2.2 _ _ _ htext hpiece).1

end Gloss
