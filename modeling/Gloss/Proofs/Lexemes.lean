import Gloss.Candidate
import Gloss.Proofs.Characters
import Gloss.Proofs.Matching

namespace Gloss
namespace Category

open Pattern

variable {insideWord : Bool} {text : List Char}

theorem operator_eq_first :
    Lexeme.operator text = (Category.operator.pattern.first? insideWord text).getD 0 := by
  rw [Lexeme.operator, Category.pattern, first?, lengths]
  cases hk : (text.takeWhile CharClass.operator.has).length with
  | zero => rfl
  | succ k => simp [List.range_succ]

theorem bracket_eq_first :
    Lexeme.bracket text = (Category.bracket.pattern.first? insideWord text).getD 0 := by
  rw [Lexeme.bracket, Category.pattern, first?, lengths]
  cases text.head?.any CharClass.bracket.has <;> rfl

/-- A word does not end within a run of its characters. -/
theorem endsWord_drop_of_lt {p : Char → Bool} {n : Nat} (hp : ∀ x, p x → isWordChar x)
    (hn : n < (text.takeWhile p).length) : Lexeme.endsWord (text.drop n) = false := by
  have hany := any_drop_of_lt hn
  rw [Option.any_eq_true] at hany
  obtain ⟨x, hx, hpx⟩ := hany
  rw [Lexeme.endsWord, hx, Option.any_some, hp x hpx]
  rfl

theorem first?_wordEdge_of_lt {p : Char → Bool} {n : Nat} (hp : ∀ x, p x → isWordChar x)
    (hn : n < (text.takeWhile p).length) (h : insideWord = true ∨ 0 < n) :
    wordEdge.first? (insideAfter insideWord (text.take n)) (text.drop n) = none := by
  rw [insideAfter_take_run hp (Nat.le_of_lt hn) h, first?_wordEdge, endsWord_drop_of_lt hp hn]
  rfl

/-- Word characters are repeated to the end of the word. -/
theorem first?_word_end :
    (seq (star .word) wordEdge).first? true text = some (text.takeWhile isWordChar).length := by
  have hp : ∀ x, CharClass.word.has x → isWordChar x := fun x h => h
  have hinside := insideAfter_run true text hp (Or.inl rfl)
  have hend : Lexeme.endsWord (text.dropWhile CharClass.word.has) := endsWord_dropWhile text
  rw [first?_star_seq fun n hn => first?_wordEdge_of_lt hp hn (Or.inl rfl), hinside,
    first?_wordEdge, hend]
  rfl

/-- Digits are repeated to their last, which has to end the word. -/
theorem first?_digits_end : (seq (plus .digit) wordEdge).first? insideWord text =
    if (text.takeWhile CharClass.digit.has).length ≠ 0 ∧
      Lexeme.endsWord (text.dropWhile CharClass.digit.has) then
      some (text.takeWhile CharClass.digit.has).length
    else none := by
  have hp : ∀ x, CharClass.digit.has x → isWordChar x := fun x h =>
    CharClass.has_word_of_has_digit h
  -- Between two digits there is no edge, so only all of them can be taken.
  rw [first?_plus_seq fun n hpos hn => first?_wordEdge_of_lt hp hn (Or.inr hpos)]
  by_cases hk : (text.takeWhile CharClass.digit.has).length = 0
  · rw [if_pos hk, if_neg fun hboth => hboth.1 hk]
  · have hinside := insideAfter_run insideWord text hp (Or.inr hk)
    rw [if_neg hk, hinside, first?_wordEdge]
    cases Lexeme.endsWord (text.dropWhile CharClass.digit.has) <;> simp [hk]

theorem identifier_eq_first : Lexeme.identifier insideWord text =
    (Category.identifier.pattern.first? insideWord text).getD 0 := by
  -- What a name begins with is a word character.
  have hedge : text.head?.any isWordChar = false →
      (seq (one .nameStart) (seq (star .word) wordEdge)).first? insideWord text = none := by
    intro h
    cases text with
    | nil => rfl
    | cons x rest =>
      rw [first?_one_seq, not_nameStart_of_not_word h]
      rfl
  rw [Lexeme.identifier, Category.pattern, first?_word hedge, Lexeme.word]
  cases insideWord with
  | true => rfl
  | false =>
    cases text with
    | nil => rfl
    | cons x rest =>
      rw [if_neg Bool.false_ne_true, if_neg Bool.false_ne_true, first?_one_seq]
      cases hstart : CharClass.nameStart.has x with
      | true =>
        have hword : isWordChar x = true := CharClass.has_word_of_has_nameStart hstart
        rw [List.takeWhile_cons, hword, if_pos rfl, first?_word_end]
        simp [hstart, Nat.add_comm]
      | false =>
        cases hword : isWordChar x <;> simp [hword, hstart]

/-- A reserved word is found where the whole word is one. -/
theorem first?_spelling_end {word : List Char} (hne : word ≠ [])
    (hword : ∀ x ∈ word, isWordChar x) :
    ((if word.isPrefixOf text then [word.length] else []).findSome? fun n =>
      (wordEdge.first? (insideAfter false (text.take n)) (text.drop n)).map (n + ·)) =
      if text.takeWhile isWordChar = word then some word.length else none := by
  by_cases hprefix : word <+: text
  · -- The word stands here; it is the whole word if no word character follows.
    obtain ⟨rest, rfl⟩ := hprefix
    have hinside : insideAfter false word = true := insideAfter_of_word hword (Or.inr hne)
    have htake : (word ++ rest).takeWhile isWordChar = word ++ rest.takeWhile isWordChar :=
      List.takeWhile_append_of_pos hword
    rw [if_pos (List.isPrefixOf_iff_prefix.mpr ⟨rest, rfl⟩), htake]
    simp only [List.findSome?_singleton, List.take_left, List.drop_left, hinside, first?_wordEdge]
    cases rest with
    | nil => simp [Lexeme.endsWord]
    | cons x rest =>
      rw [List.takeWhile_cons]
      cases hx : isWordChar x <;> simp [Lexeme.endsWord, hx]
  · have hrun : text.takeWhile isWordChar ≠ word := by
      rintro rfl
      exact hprefix (List.takeWhile_prefix _)
    rw [if_neg fun h => hprefix (List.isPrefixOf_iff_prefix.mp h), if_neg hrun]
    rfl

theorem lengths_anyKeyword : anyKeyword.lengths insideWord text =
    Keyword.all.flatMap fun k => (Pattern.literal k.spelling).lengths insideWord text := by
  simp [anyKeyword, Keyword.all, lengths]

theorem word_of_spelling (k : Keyword) :
    k.spelling.toList ≠ [] ∧ ∀ x ∈ k.spelling.toList, isWordChar x := by
  have hne : k.spelling.toList ≠ [] := by cases k <;> decide
  have hall : k.spelling.toList.all isWordChar := by cases k <;> decide
  exact ⟨hne, List.all_eq_true.mp hall⟩

/-- Of all reserved words only the one with the right spelling counts. -/
theorem findSome?_spelling (word : List Char) :
    (Keyword.all.findSome? fun k =>
      if word = k.spelling.toList then some k.spelling.toList.length else none) =
      if (Keyword.ofSpelling? (String.ofList word)).isSome then some word.length else none := by
  have hspelled (k : Keyword) : Keyword.ofSpelling? (String.ofList word) = some k ↔
      word = k.spelling.toList := by
    rw [Keyword.ofSpelling?_eq_some_iff]
    constructor
    · intro h
      rw [← h, String.toList_ofList]
    · intro h
      rw [h, String.ofList_toList]
  cases hk : Keyword.ofSpelling? (String.ofList word) with
  | none =>
    refine List.findSome?_eq_none_iff.mpr fun k _ => if_neg fun h => ?_
    rw [(hspelled k).mpr h] at hk
    cases hk
  | some k =>
    -- The search finds a word, and whichever it finds has this spelling.
    cases hfind : Keyword.all.findSome? fun k =>
        if word = k.spelling.toList then some k.spelling.toList.length else none with
    | none =>
      have hnone := List.findSome?_eq_none_iff.mp hfind k k.mem_all
      rw [if_pos ((hspelled k).mp hk)] at hnone
      cases hnone
    | some n =>
      obtain ⟨k', -, hk'⟩ := List.exists_of_findSome?_eq_some hfind
      split at hk'
      · next hword => rw [← Option.some.inj hk', ← hword]; rfl
      · cases hk'

theorem keyword_eq_first : Lexeme.keyword insideWord text =
    (Category.keyword.pattern.first? insideWord text).getD 0 := by
  -- Every reserved word begins with a word character.
  have hedge : text.head?.any isWordChar = false →
      (seq (group anyKeyword) wordEdge).first? insideWord text = none := by
    intro h
    have hnone : anyKeyword.lengths insideWord text = [] := by
      rw [lengths_anyKeyword, List.flatMap_eq_nil_iff]
      intro k _
      obtain ⟨hne, hword⟩ := word_of_spelling k
      refine if_neg fun hprefix => ?_
      obtain ⟨rest, rfl⟩ := List.isPrefixOf_iff_prefix.mp hprefix
      obtain ⟨x, word, hx⟩ := List.exists_cons_of_ne_nil hne
      rw [hx] at hword h
      exact Bool.eq_false_iff.mp h (hword x List.mem_cons_self)
    rw [first?_seq, lengths, hnone]
    rfl
  have hwords (k : Keyword) : ((Pattern.literal k.spelling).lengths false text).findSome? (fun n =>
      (wordEdge.first? (insideAfter false (text.take n)) (text.drop n)).map (n + ·)) =
      if text.takeWhile isWordChar = k.spelling.toList then some k.spelling.toList.length
      else none :=
    first?_spelling_end (word_of_spelling k).1 (word_of_spelling k).2
  rw [Lexeme.keyword, Category.pattern, first?_word hedge, Lexeme.word]
  -- Inside a word no word edge is found, and no word begins.
  cases insideWord with
  | true => rfl
  | false =>
    rw [if_neg Bool.false_ne_true, if_neg Bool.false_ne_true, first?_seq, lengths,
      lengths_anyKeyword, findSome?_flatMap]
    simp only [hwords, findSome?_spelling]
    cases text.takeWhile isWordChar with
    | nil => cases (Keyword.ofSpelling? (String.ofList [])).isSome <;> rfl
    | cons x word =>
      dsimp only
      cases (Keyword.ofSpelling? (String.ofList (x :: word))).isSome <;> rfl

theorem first?_fraction :
    (seq (group (seq (.literal ".") (plus .digit))) wordEdge).first? true text =
      if Lexeme.fraction text = 0 then none else some (Lexeme.fraction text) := by
  have hgroup : (seq (group (seq (.literal ".") (plus .digit))) wordEdge).first? true text =
      (seq (seq (.literal ".") (plus .digit)) wordEdge).first? true text := rfl
  rw [hgroup, first?_seq_assoc]
  cases text with
  | nil => rfl
  | cons x rest =>
    have hpoint : ".".toList = ['.'] := by decide
    rw [first?_literal_seq hpoint]
    by_cases hx : '.' = x
    · subst hx
      rw [if_pos rfl, first?_digits_end, Lexeme.fraction, drop_takeWhile_length]
      cases Lexeme.endsWord (rest.dropWhile CharClass.digit.has) <;>
        cases (rest.takeWhile CharClass.digit.has).length <;> simp [Nat.add_comm]
    · rw [if_neg hx, Lexeme.fraction]
      · rfl
      · intro rest' h
        exact hx (List.cons.inj h).1.symm

theorem first?_fraction_end :
    (seq (optional (group (seq (.literal ".") (plus .digit)))) wordEdge).first? true text =
      if Lexeme.endsWord text then some (Lexeme.fraction text) else none := by
  rw [first?_optional_seq, first?_fraction, first?_wordEdge]
  -- A fraction begins with a point, and so the digits before it have ended a word.
  by_cases hnone : Lexeme.fraction text = 0
  · rw [if_pos hnone, hnone, Option.none_or]
  · have hend : Lexeme.endsWord text = true := by
      unfold Lexeme.fraction at hnone
      split at hnone
      · rfl
      · exact absurd rfl hnone
    rw [if_neg hnone, Option.some_or, if_pos hend]

theorem number_eq_first (insideWord : Bool) (text : List Char) :
    Lexeme.number insideWord text = (Pattern.number.first? insideWord text).getD 0 := by
  have hp : ∀ x, CharClass.digit.has x → isWordChar x := fun x h =>
    CharClass.has_word_of_has_digit h
  have hedge (q : Pattern) : text.head?.any isWordChar = false →
      (seq (plus .digit) q).first? insideWord text = none := by
    intro h
    have hnil : text.takeWhile CharClass.digit.has = [] := by
      cases text with
      | nil => rfl
      | cons x rest =>
        exact List.takeWhile_cons_of_neg (Bool.eq_false_iff.mp (not_digit_of_not_word h))
    rw [first?_seq, lengths, hnil]
    rfl
  -- Fewer digits than there are cannot end a word, and no point follows them.
  have hfewer (n : Nat) (hpos : 0 < n) (hn : n < (text.takeWhile CharClass.digit.has).length) :
      (seq (optional (group (seq (.literal ".") (plus .digit)))) wordEdge).first?
        (insideAfter false (text.take n)) (text.drop n) = none := by
    rw [insideAfter_take_run hp (Nat.le_of_lt hn) (Or.inr hpos), first?_fraction_end,
      endsWord_drop_of_lt hp hn]
    rfl
  rw [Lexeme.number, Pattern.number, first?_word (hedge _)]
  cases insideWord with
  | true => rfl
  | false =>
    rw [if_neg Bool.false_ne_true, if_neg Bool.false_ne_true, first?_plus_seq hfewer]
    dsimp only
    rw [drop_takeWhile_length]
    by_cases hk : (text.takeWhile CharClass.digit.has).length = 0
    · simp [hk]
    · have hinside := insideAfter_run false text hp (Or.inr hk)
      rw [if_neg hk, hinside, first?_fraction_end]
      cases Lexeme.endsWord (text.dropWhile CharClass.digit.has) <;> simp [hk]

/-- A quoted text ends at the next quote of its kind. -/
theorem quotedText_eq_first (quote x : Char) (rest : List Char) :
    (quotedText quote).first? insideWord (x :: rest) =
      if quote = x ∧ Lexeme.quoted quote rest ≠ 0 then some (Lexeme.quoted quote rest + 1)
      else none := by
  have hquote : quote.toString.toList = [quote] := by simp
  have hends (insideWord : Bool) (text : List Char) :
      (Pattern.literal quote.toString).first? insideWord text =
        if text.head? = some quote then some 1 else none := by
    rw [first?, lengths, hquote]
    cases text with
    | nil => rfl
    | cons y text =>
      by_cases hy : quote = y
      · simp [hy]
      · simp [hy, Ne.symm hy]
  -- Up to the next quote there are no quotes.
  have hfewer (insideWord : Bool) (n : Nat)
      (hn : n < (rest.takeWhile (CharClass.quoted quote).has).length) :
      (Pattern.literal quote.toString).first? (insideAfter insideWord (rest.take n))
        (rest.drop n) = none := by
    have hany := any_drop_of_lt hn
    rw [hends, if_neg]
    intro h
    rw [h, Option.any_some] at hany
    simp [CharClass.has] at hany
  have hnext : (rest.dropWhile (CharClass.quoted quote).has).head? =
      rest[(rest.takeWhile (CharClass.quoted quote).has).length]? := by
    rw [← drop_takeWhile_length, List.head?_drop]
  rw [quotedText, first?_literal_seq hquote, first?_star_seq (hfewer _), hends, hnext,
    Lexeme.quoted]
  -- The pattern begins with its quote, so with another character it finds nothing.
  by_cases hx : quote = x
  · subst hx
    rw [if_pos rfl]
    by_cases hclosed : rest[(rest.takeWhile (CharClass.quoted quote).has).length]? = some quote
    · rw [if_pos hclosed, if_pos hclosed, if_pos ⟨rfl, Nat.succ_ne_zero _⟩, Option.map_some,
        Option.map_some, Nat.add_comm 1]
    · rw [if_neg hclosed, if_neg hclosed, if_neg fun h => h.2 rfl]
      rfl
  · rw [if_neg hx, if_neg fun h => hx h.1]

theorem number_quote {x : Char} (insideWord : Bool) (rest : List Char) (hx : isQuote x) :
    Lexeme.number insideWord (x :: rest) = 0 := by
  obtain ⟨-, -, hword⟩ := classes_of_quote hx
  rw [Lexeme.number, List.takeWhile_cons, not_digit_of_not_word hword]
  cases insideWord <;> rfl

theorem literal_eq_first :
    Lexeme.literal insideWord text =
      (Category.literal.pattern.first? insideWord text).getD 0 := by
  rw [Category.pattern, first?_either, first?_either, first?_either]
  cases text with
  | nil => cases insideWord <;> rfl
  | cons x rest =>
    have hnumber := number_eq_first insideWord (x :: rest)
    rw [quotedText_eq_first, quotedText_eq_first, quotedText_eq_first, Lexeme.literal]
    -- The first character leaves one choice: a quote its own kind of text, any other a number.
    by_cases hquote : isQuote x
    · have hzero := number_quote insideWord rest hquote
      rw [hzero] at hnumber
      have hquotes := hquote
      simp only [isQuote, Bool.or_eq_true, decide_eq_true_eq] at hquotes
      rw [if_pos hquote]
      obtain (rfl | rfl) | rfl := hquotes <;> cases Lexeme.quoted _ rest <;> simp [← hnumber]
    · have hquotes := hquote
      simp only [isQuote, Bool.or_eq_true, decide_eq_true_eq, not_or] at hquotes
      rw [if_neg hquote, if_neg fun h => hquotes.1.1 h.1.symm, if_neg fun h => hquotes.1.2 h.1.symm,
        if_neg fun h => hquotes.2 h.1.symm, Option.none_or, Option.none_or, Option.none_or]
      exact hnumber

/-- The lengths of lexemes are those of the matches of the patterns. -/
theorem lexemeLength_eq_first (c : Category) (insideWord : Bool) (text : List Char) :
    c.lexemeLength insideWord text = (c.pattern.first? insideWord text).getD 0 := by
  cases c with
  | keyword => exact keyword_eq_first
  | operator => exact operator_eq_first
  | literal => exact literal_eq_first
  | bracket => exact bracket_eq_first
  | identifier => exact identifier_eq_first

def tokensFrom (c : Category) (insideWord : Bool) (offset : Nat) (text : List Char) : List Token :=
  (c.scan #[] insideWord offset 0 text).toList

theorem scan_covered (c : Category) (found : Array Token) (insideWord : Bool) (offset covered : Nat)
    (text : List Char) :
    c.scan found insideWord offset covered text =
      c.scan found (insideAfter insideWord (text.take covered))
        (offset + byteLength (text.take covered)) 0 (text.drop covered) := by
  induction covered generalizing insideWord offset text with
  | zero => rfl
  | succ n ih =>
    cases text with
    | nil => rfl
    | cons x rest =>
      rw [scan, ih, List.take_succ_cons, List.drop_succ_cons, insideAfter, byteLength_cons,
        Nat.add_assoc]

variable {c : Category} {offset : Nat} {x : Char} {rest : List Char}

theorem tokensFrom_skip (h : c.lexemeLength insideWord (x :: rest) = 0) :
    c.tokensFrom insideWord offset (x :: rest) =
      c.tokensFrom (isWordChar x) (offset + x.utf8Size) rest := by
  rw [tokensFrom, scan, h]
  rfl

theorem tokensFrom_take {n : Nat} (h : c.lexemeLength insideWord (x :: rest) = n + 1) :
    c.tokensFrom insideWord offset (x :: rest) =
      Token.ofLexeme c offset (x :: rest.take n) ::
        c.tokensFrom (insideAfter insideWord (x :: rest.take n))
          (offset + byteLength (x :: rest.take n)) (rest.drop n) := by
  rw [tokensFrom, scan, h]
  dsimp only
  rw [toList_scan, scan_covered, List.take_succ_cons, byteLength_cons, ← Nat.add_assoc]
  rfl

theorem tokensFrom_eq_findAll (c : Category) (insideWord : Bool) (offset : Nat)
    (text : List Char) :
    c.tokensFrom insideWord offset text =
      (c.pattern.findAll insideWord offset text).map fun m => Token.ofLexeme c m.1 m.2 := by
  -- The cases of the search: the end of the text, a match, an empty match and no match.
  fun_induction Pattern.findAll c.pattern insideWord offset text with
  | case1 => rfl
  | case2 insideWord offset x rest n hfirst found ih =>
    have hlength : c.lexemeLength insideWord (x :: rest) = n + 1 := by
      rw [lexemeLength_eq_first, hfirst, Option.getD_some]
    rw [tokensFrom_take hlength, List.map_cons, ih]
  | case3 insideWord offset x rest hfirst ih =>
    have hlength : c.lexemeLength insideWord (x :: rest) = 0 := by
      rw [lexemeLength_eq_first, hfirst, Option.getD_some]
    rw [tokensFrom_skip hlength, ih]
  | case4 insideWord offset x rest hfirst ih =>
    have hlength : c.lexemeLength insideWord (x :: rest) = 0 := by
      rw [lexemeLength_eq_first, hfirst, Option.getD_none]
    rw [tokensFrom_skip hlength, ih]

/-- The candidates of a kind are the matches of its pattern, one behind the other. -/
theorem candidates_eq_findAll (c : Category) (text : List Char) :
    c.candidates text =
      (c.pattern.findAll false 0 text).map fun m => Token.ofLexeme c m.1 m.2 :=
  tokensFrom_eq_findAll c false 0 text

end Category
end Gloss
