import Gloss.Proofs.Greedy
import Gloss.Proofs.OnePass

namespace Gloss

variable {c : Category} {insideWord : Bool} {offset : Nat} {x : Char} {rest : List Char}

namespace Category

def begins (c : Category) (x : Char) : Bool :=
  match c with
  | .keyword | .identifier => CharClass.nameStart.has x
  | .operator => CharClass.operator.has x
  | .bracket => CharClass.bracket.has x
  | .literal => isQuote x || CharClass.digit.has x

/-- Whether the tokens of a kind are words. Two such kinds can begin with the same characters. -/
def isWordKind (c : Category) : Bool := c = .keyword || c = .identifier

/-- Apart from words, no two kinds begin with the same character. -/
theorem not_begins {k : Category} (hk : k.begins x) (hne : c ≠ k)
    (hword : c.isWordKind = false ∨ k.isWordKind = false) : c.begins x = false := by
  have hquote := @classes_of_quote x
  have hoperator := @classes_of_operator x
  have hbracket := @classes_of_bracket x
  have hdigit := @not_nameStart_of_digit x
  have hname := @CharClass.has_word_of_has_nameStart x
  have hnumber := @CharClass.has_word_of_has_digit x
  apply Bool.eq_false_iff.mpr
  intro hc
  cases c <;> cases k <;> simp only [begins, Bool.or_eq_true] at hc hk <;> grind [isWordKind]

theorem nameStart_of_spelling {word : List Char}
    (h : (Keyword.ofSpelling? (String.ofList (x :: word))).isSome) : CharClass.nameStart.has x := by
  obtain ⟨k, hk⟩ := Option.isSome_iff_exists.mp h
  have hspelling : x :: word = k.spelling.toList := by
    rw [← Keyword.ofSpelling?_eq_some_iff.mp hk, String.toList_ofList]
  have hstart : k.spelling.toList.head?.any CharClass.nameStart.has := by cases k <;> decide
  rw [← hspelling] at hstart
  exact hstart

theorem lexemeLength_of_not_begins (h : c.begins x = false) :
    c.lexemeLength insideWord (x :: rest) = 0 := by
  cases c with
  | keyword =>
    -- Every reserved word begins like a name.
    rw [lexemeLength, Lexeme.keyword, Lexeme.word, List.takeWhile_cons]
    cases insideWord <;> cases isWordChar x <;> try rfl
    exact if_neg fun hsome => Bool.eq_false_iff.mp h (nameStart_of_spelling hsome)
  | identifier =>
    rw [lexemeLength, Lexeme.identifier, Lexeme.word, List.takeWhile_cons]
    cases insideWord <;> cases isWordChar x <;> try rfl
    exact if_neg (Bool.eq_false_iff.mp h)
  | operator =>
    have hnil := List.takeWhile_cons_of_neg (l := rest) (Bool.eq_false_iff.mp h)
    exact congrArg List.length hnil
  | bracket => exact if_neg (Bool.eq_false_iff.mp h)
  | literal =>
    obtain ⟨hquote, hdigit⟩ := Bool.or_eq_false_iff.mp h
    rw [lexemeLength, Lexeme.literal, hquote, if_neg Bool.false_ne_true, Lexeme.number,
      List.takeWhile_cons_of_neg (Bool.eq_false_iff.mp hdigit)]
    cases insideWord <;> rfl

/-- No token begins in the middle of a word. -/
theorem lexemeLength_inside (hx : isWordChar x) : c.lexemeLength true (x :: rest) = 0 := by
  obtain ⟨hquote, hoperator, hbracket⟩ := classes_of_word hx
  cases c with
  | keyword => rfl
  | identifier => rfl
  | operator => exact lexemeLength_of_not_begins hoperator
  | bracket => exact lexemeLength_of_not_begins hbracket
  | literal =>
    rw [lexemeLength, Lexeme.literal, hquote]
    rfl

variable {w after : List Char}

/-- Nothing is found where no character can begin a token. -/
theorem tokensFrom_of_not_begins (h : ∀ y ∈ w, c.begins y = false) :
    c.tokensFrom insideWord offset (w ++ after) =
      c.tokensFrom (insideAfter insideWord w) (offset + byteLength w) after := by
  induction w generalizing insideWord offset with
  | nil => rfl
  | cons y w ih =>
    have hy := h y List.mem_cons_self
    rw [List.cons_append, tokensFrom_skip (lexemeLength_of_not_begins hy),
      ih fun z hz => h z (List.mem_cons_of_mem y hz), insideAfter, byteLength_cons, Nat.add_assoc]

/-- Nothing is found in the rest of a word. -/
theorem tokensFrom_of_word (h : ∀ y ∈ w, isWordChar y) :
    c.tokensFrom true offset (w ++ after) =
      c.tokensFrom true (offset + byteLength w) after := by
  induction w generalizing offset with
  | nil => rfl
  | cons y w ih =>
    have hy := h y List.mem_cons_self
    rw [List.cons_append, tokensFrom_skip (lexemeLength_inside hy), hy,
      ih fun z hz => h z (List.mem_cons_of_mem y hz), byteLength_cons, Nat.add_assoc]

/-- Nothing is found in a word that does not begin with a token. -/
theorem tokensFrom_word (hx : isWordChar x) (h : ∀ y ∈ w, isWordChar y)
    (hnone : c.lexemeLength insideWord (x :: (w ++ after)) = 0) :
    c.tokensFrom insideWord offset (x :: (w ++ after)) =
      c.tokensFrom (insideAfter insideWord (x :: w)) (offset + byteLength (x :: w)) after := by
  have hinside : insideAfter insideWord (x :: w) = true := by
    apply insideAfter_of_word
    · intro y hy
      rcases List.mem_cons.mp hy with rfl | hy
      · exact hx
      · exact h y hy
    · exact Or.inr (List.cons_ne_nil x w)
  rw [tokensFrom_skip hnone, hx, tokensFrom_of_word h, hinside, byteLength_cons, Nat.add_assoc]

def holds : Category → Char → Bool
  | .keyword | .identifier => isWordChar
  | .operator => CharClass.operator.has
  | .bracket => CharClass.bracket.has
  | .literal => fun _ => true

/-- Only literals have quotes. -/
theorem holds_of_quote (hx : isQuote x) (hc : c ≠ .literal) : c.holds x = false := by
  obtain ⟨hoperator, hbracket, hword⟩ := classes_of_quote hx
  cases c with
  | keyword => exact hword
  | operator => exact hoperator
  | bracket => exact hbracket
  | identifier => exact hword
  | literal => exact absurd rfl hc

theorem lexemeLength_le (hc : c ≠ .literal) (insideWord : Bool) (text : List Char) :
    c.lexemeLength insideWord text ≤ (text.takeWhile c.holds).length := by
  have hword : (Lexeme.word insideWord text).length ≤ (text.takeWhile isWordChar).length := by
    rw [Lexeme.word]
    cases insideWord
    · exact Nat.le_refl _
    · exact Nat.zero_le _
  -- A reserved word or a name may also be refused as a whole, and then its length is zero.
  cases c with
  | keyword | identifier =>
    unfold lexemeLength Lexeme.keyword Lexeme.identifier
    cases hrun : Lexeme.word insideWord text with
    | nil => exact Nat.zero_le _
    | cons y w =>
      rw [hrun, List.length_cons] at hword
      dsimp only
      split
      · exact hword
      · exact Nat.zero_le _
  | operator => exact Nat.le_refl _
  | bracket =>
    cases text with
    | nil => exact Nat.le_refl _
    | cons y text =>
      rw [lexemeLength, Lexeme.bracket, holds, List.takeWhile_cons, List.head?_cons,
        Option.any_some]
      cases CharClass.bracket.has y
      · exact Nat.le_refl _
      · exact Nat.succ_le_succ (Nat.zero_le _)
  | literal => exact absurd rfl hc

/-- No token reaches over a character that it may not have. -/
theorem tokensFrom_before {y : Char} (hc : c ≠ .literal) (hy : c.holds y = false)
    (insideWord : Bool) (offset : Nat) (w after : List Char) :
    ∃ inner, c.tokensFrom insideWord offset (w ++ y :: after) =
        inner ++ c.tokensFrom (isWordChar y) (offset + byteLength (w ++ [y])) after ∧
      ∀ t ∈ inner, offset ≤ t.span.start ∧ t.span.start < offset + byteLength (w ++ [y]) := by
  -- A token takes several characters at once, so the induction is on how many stand before `y`.
  generalize hn : w.length = n
  induction n using Nat.strongRecOn generalizing w insideWord offset with
  | ind n ih =>
    have hlength := lexemeLength_le hc insideWord (w ++ y :: after)
    have hshort : ((w ++ y :: after).takeWhile c.holds).length ≤ w.length := by
      rw [← Nat.not_lt]
      intro hlt
      have hany := any_drop_of_lt hlt
      rw [List.drop_left] at hany
      exact Bool.eq_false_iff.mp hy hany
    cases w with
    | nil =>
      -- Nothing begins at `y` itself.
      have hnone : c.lexemeLength insideWord (y :: after) = 0 :=
        Nat.le_zero.mp (Nat.le_trans hlength hshort)
      exact ⟨[], by rw [List.nil_append, tokensFrom_skip hnone]; rfl, nofun⟩
    | cons z w =>
      cases hk : c.lexemeLength insideWord (z :: (w ++ y :: after)) with
      | zero =>
        obtain ⟨inner, heq, hinner⟩ := ih w.length (by rw [← hn]; exact Nat.lt_succ_self _)
          (isWordChar z) (offset + z.utf8Size) w rfl
        refine ⟨inner, ?_, ?_⟩
        · rw [List.cons_append, tokensFrom_skip hk, heq, List.cons_append, byteLength_cons,
            Nat.add_assoc]
        · intro t ht
          have hbounds := hinner t ht
          rw [List.cons_append, byteLength_cons]
          omega
      | succ m =>
        -- The token found here ends before `y`.
        have hm : m ≤ w.length := by
          have hle := Nat.le_trans hlength hshort
          rw [List.cons_append, hk, List.length_cons] at hle
          omega
        obtain ⟨inner, heq, hinner⟩ := ih (w.drop m).length
          (by rw [← hn, List.length_drop, List.length_cons]; omega)
          (insideAfter insideWord (z :: w.take m)) (offset + byteLength (z :: w.take m)) (w.drop m)
          rfl
        have hbytes : byteLength (z :: w.take m) + byteLength (w.drop m ++ [y]) =
            byteLength (z :: w ++ [y]) := by
          rw [← byteLength_append, List.cons_append, ← List.append_assoc, List.take_append_drop]
          rfl
        refine ⟨Token.ofLexeme c offset (z :: w.take m) :: inner, ?_, ?_⟩
        · rw [List.cons_append, tokensFrom_take hk, List.take_append_of_le_length hm,
            List.drop_append_of_le_length hm, heq, Nat.add_assoc, hbytes]
          rfl
        · intro t ht
          rcases List.mem_cons.mp ht with rfl | ht
          · refine ⟨Nat.le_refl _, ?_⟩
            have hpos := z.utf8Size_pos
            rw [List.cons_append, byteLength_cons]
            dsimp only [Token.ofLexeme]
            omega
          · have hbounds := hinner t ht
            omega

end Category

open Category OnePass

section Lengths

variable {run digits after : List Char}

theorem takeWhile_digit_of_end {text : List Char}
    (hend : Lexeme.endsWord (text.dropWhile CharClass.digit.has)) :
    text.takeWhile CharClass.digit.has = text.takeWhile isWordChar := by
  have hwords : ∀ y ∈ text.takeWhile CharClass.digit.has, isWordChar y :=
    words_of_digits mem_takeWhile
  have hrun := takeWhile_run hwords (endsWord_iff.mp hend)
  rw [List.takeWhile_append_dropWhile] at hrun
  exact hrun.symm

theorem takeWhile_digit_of_all {text : List Char}
    (hall : (text.takeWhile isWordChar).all CharClass.digit.has) :
    text.takeWhile CharClass.digit.has = text.takeWhile isWordChar := by
  -- Behind the word no digit stands either.
  have hnext : (text.dropWhile isWordChar).head?.any CharClass.digit.has = false := by
    have hend := endsWord_iff.mp (endsWord_dropWhile text)
    rw [Bool.eq_false_iff] at hend ⊢
    intro hdigit
    rw [Option.any_eq_true] at hdigit
    obtain ⟨y, hy, hy'⟩ := hdigit
    apply hend
    rw [hy]
    exact CharClass.has_word_of_has_digit hy'
  have hrun := takeWhile_run (List.all_eq_true.mp hall) hnext
  rw [List.takeWhile_append_dropWhile] at hrun
  exact hrun

/-- The digits at the front end a word exactly if the whole word has digits only. -/
theorem endsWord_digits (text : List Char) :
    Lexeme.endsWord (text.dropWhile CharClass.digit.has) =
      (text.takeWhile isWordChar).all CharClass.digit.has := by
  rw [Bool.eq_iff_iff]
  constructor
  · intro hend
    rw [← takeWhile_digit_of_end hend]
    exact List.all_takeWhile
  · intro hall
    rw [← drop_takeWhile_length, takeWhile_digit_of_all hall, drop_takeWhile_length]
    exact endsWord_dropWhile text

/-- The fraction that is measured is the one that the scanner takes. -/
theorem length_fraction (text : List Char) :
    Lexeme.fraction text = (OnePass.fraction text).length := by
  cases text with
  | nil => rfl
  | cons y text =>
    by_cases hy : y = '.'
    · subst hy
      rw [Lexeme.fraction, OnePass.fraction, drop_takeWhile_length, endsWord_digits]
      cases hall : (text.takeWhile isWordChar).all CharClass.digit.has with
      | false => simp
      | true =>
        rw [takeWhile_digit_of_all hall]
        cases text.takeWhile isWordChar <;> simp
    · rw [Lexeme.fraction, OnePass.fraction]
      · rfl
      · exact fun rest h => hy (List.cons.inj h).1
      · exact fun rest h => hy (List.cons.inj h).1

theorem number_append (hx : CharClass.digit.has x) (hrun : ∀ y ∈ run, isWordChar y)
    (hend : Lexeme.endsWord after) : Lexeme.number false (x :: (run ++ after)) =
      if run.all CharClass.digit.has then run.length + 1 + (OnePass.fraction after).length
      else 0 := by
  have hwords : ∀ y ∈ x :: run, isWordChar y := by
    intro y hy
    rcases List.mem_cons.mp hy with rfl | hy
    · exact CharClass.has_word_of_has_digit hx
    · exact hrun y hy
  have htake := takeWhile_run hwords (endsWord_iff.mp hend)
  have hdrop := dropWhile_run hwords (endsWord_iff.mp hend)
  rw [List.cons_append] at htake hdrop
  rw [Lexeme.number, if_neg Bool.false_ne_true]
  dsimp only
  rw [drop_takeWhile_length, endsWord_digits, htake, List.all_cons, hx, Bool.true_and]
  cases hall : run.all CharClass.digit.has with
  | false => rw [Bool.and_false, if_neg Bool.false_ne_true, if_neg Bool.false_ne_true]
  | true =>
    -- The digits are the whole word, so the fraction is looked for where the word ends.
    have hall' : ((x :: (run ++ after)).takeWhile isWordChar).all CharClass.digit.has := by
      rw [htake, List.all_cons, hx, hall]
      rfl
    have hdigits := takeWhile_digit_of_all hall'
    rw [← drop_takeWhile_length, hdigits, drop_takeWhile_length, htake, hdrop, length_fraction]
    simp

theorem lexemeLength_number (hx : CharClass.digit.has x) (hrun : ∀ y ∈ run, isWordChar y)
    (hend : Lexeme.endsWord after) : Category.literal.lexemeLength false (x :: (run ++ after)) =
      if run.all CharClass.digit.has then run.length + 1 + (OnePass.fraction after).length
      else 0 := by
  obtain ⟨hquote, -⟩ := classes_of_word (CharClass.has_word_of_has_digit hx)
  rw [lexemeLength, Lexeme.literal, hquote, if_neg Bool.false_ne_true, number_append hx hrun hend]

theorem quoted_append {inside : List Char} (hinside : ∀ y ∈ inside, (CharClass.quoted x).has y) :
    Lexeme.quoted x (inside ++ x :: after) = inside.length + 1 := by
  have htake : (inside ++ x :: after).takeWhile (CharClass.quoted x).has = inside := by
    apply takeWhile_run hinside
    simp [CharClass.has]
  rw [Lexeme.quoted, htake]
  simp

/-- A quote without a partner on its line begins no token. -/
theorem quoted_unpaired (hopen : ∀ inside rest, after = inside ++ x :: rest →
    ¬∀ y ∈ inside, (CharClass.quoted x).has y) : Lexeme.quoted x after = 0 := by
  rw [Lexeme.quoted, if_neg]
  intro hnext
  obtain ⟨hlt, hget⟩ := List.getElem?_eq_some_iff.mp hnext
  have hsplit := List.takeWhile_append_dropWhile (p := (CharClass.quoted x).has) (l := after)
  rw [← drop_takeWhile_length, List.drop_eq_getElem_cons hlt, hget] at hsplit
  exact hopen _ _ hsplit.symm mem_takeWhile

end Lengths

section Claims

variable {k : Category} {kind? : Option Category} {more after : List Char} {y : Char} {n : Nat}

/-- The kinds that find a token where a stretch begins: its own kind, and if it is a reserved word
that of names. -/
def Category.Claims (c : Category) (kind? : Option Category) : Prop :=
  kind? = some c ∨ c = .identifier ∧ kind? = some .keyword

theorem begins_of_quote (hy : isQuote y) : Category.literal.begins y :=
  Bool.or_eq_true_iff.mpr (Or.inl hy)

theorem begins_of_digit (hy : CharClass.digit.has y) : Category.literal.begins y :=
  Bool.or_eq_true_iff.mpr (Or.inr hy)

theorem eq_of_claims (h : c.Claims (some k)) (hk : k.isWordKind = false) : c = k := by
  rcases h with heq | ⟨-, heq⟩
  · exact (Option.some.inj heq).symm
  · rw [Option.some.inj heq] at hk
    cases hk

/-- What only one kind begins with is claimed by that kind alone. -/
theorem lexemeLength_sole (c : Category) (hk : k.begins x) (hword : k.isWordKind = false)
    (hlength : k.lexemeLength insideWord (x :: rest) = n) :
    (c.Claims (some k) ∧ c.lexemeLength insideWord (x :: rest) = n) ∨
      (¬c.Claims (some k) ∧ c.lexemeLength insideWord (x :: rest) = 0) := by
  by_cases hc : c = k
  · subst hc
    exact Or.inl ⟨Or.inl rfl, hlength⟩
  · exact Or.inr ⟨fun hclaims => hc (eq_of_claims hclaims hword),
      lexemeLength_of_not_begins (not_begins hk hc (Or.inr hword))⟩

theorem wordKind_cases (word : List Char) :
    wordKind word = .keyword ∨ wordKind word = .identifier := by
  rw [wordKind]
  split
  · exact Or.inl rfl
  · exact Or.inr rfl

theorem not_claims_none (c : Category) : ¬c.Claims none := by
  rintro (heq | ⟨-, heq⟩)
  · cases heq
  · cases heq

/-- A word that does not begin with a digit is claimed as a name, and as a reserved word if it is
one. -/
theorem lexemeLength_name (c : Category) {run : List Char} (hx : CharClass.nameStart.has x)
    (hrun : ∀ y ∈ run, isWordChar y) (hend : Lexeme.endsWord after) :
    (c.Claims (some (wordKind (x :: run))) ∧
        c.lexemeLength false (x :: (run ++ after)) = run.length + 1) ∨
      (¬c.Claims (some (wordKind (x :: run))) ∧
        c.lexemeLength false (x :: (run ++ after)) = 0) := by
  have hword : isWordChar x := CharClass.has_word_of_has_nameStart hx
  have htake : Lexeme.word false (x :: (run ++ after)) = x :: run := by
    rw [Lexeme.word, if_neg Bool.false_ne_true, List.takeWhile_cons_of_pos hword,
      takeWhile_run hrun (endsWord_iff.mp hend)]
  have hkind := wordKind_cases (x :: run)
  -- Only the two kinds of words begin like this; which of them finds the word depends on the table.
  cases hc : c.isWordKind with
  | false =>
    have hne : c ≠ .identifier := by
      rintro rfl
      exact absurd hc (by decide)
    refine Or.inr ⟨?_, lexemeLength_of_not_begins (not_begins (k := .identifier) hx hne
      (Or.inl hc))⟩
    rintro (heq | ⟨heq, -⟩)
    · rw [← Option.some.inj heq] at hc
      rcases hkind with h | h
      · rw [h] at hc
        cases hc
      · rw [h] at hc
        cases hc
    · exact hne heq
  | true =>
    simp only [isWordKind, Bool.or_eq_true, decide_eq_true_eq] at hc
    rcases hc with rfl | rfl
    · -- As a reserved word it is found exactly if it is one.
      have hkeyword : Category.keyword.lexemeLength false (x :: (run ++ after)) =
          if (Keyword.ofSpelling? (String.ofList (x :: run))).isSome then run.length + 1
          else 0 := by
        rw [lexemeLength, Lexeme.keyword, htake]
      rw [hkeyword, wordKind]
      by_cases hspelled : (Keyword.ofSpelling? (String.ofList (x :: run))).isSome
      · rw [if_pos hspelled, if_pos hspelled]
        exact Or.inl ⟨Or.inl rfl, rfl⟩
      · rw [if_neg hspelled, if_neg hspelled]
        refine Or.inr ⟨?_, rfl⟩
        rintro (heq | ⟨heq, -⟩)
        · cases heq
        · cases heq
    · rw [lexemeLength, Lexeme.identifier, htake]
      refine Or.inl ⟨?_, if_pos hx⟩
      rcases hkind with h | h
      · exact Or.inr ⟨rfl, congrArg some h⟩
      · exact Or.inl (congrArg some h)

/-- Where a stretch begins, a kind finds the whole stretch or nothing. -/
theorem lexemeLength_stretch (c : Category) (h : Stretch x more after kind?)
    (hedge : insideWord = true → isWordChar x = false) :
    (c.Claims kind? ∧ c.lexemeLength insideWord (x :: (more ++ after)) = more.length + 1) ∨
      (¬c.Claims kind? ∧ c.lexemeLength insideWord (x :: (more ++ after)) = 0) := by
  -- The scanner is never within a word where one begins.
  have houtside (hword : isWordChar x) : insideWord = false := by
    cases insideWord with
    | false => rfl
    | true => exact absurd hword (Bool.eq_false_iff.mp (hedge rfl))
  cases h with
  | @quoted inside _ hquote hinside =>
    apply lexemeLength_sole c (begins_of_quote hquote) rfl
    rw [List.append_assoc, List.singleton_append, lexemeLength, Lexeme.literal, if_pos hquote,
      quoted_append hinside, List.length_append]
    rfl
  | unpaired hquote hopen =>
    refine Or.inr ⟨not_claims_none c, ?_⟩
    by_cases hc : c = .literal
    · rw [hc, List.nil_append, lexemeLength, Lexeme.literal, if_pos hquote,
        quoted_unpaired hopen]
    · exact lexemeLength_of_not_begins (not_begins (begins_of_quote hquote) hc (Or.inr rfl))
  | operator hx hrun hend =>
    have hall : ∀ y ∈ x :: more, CharClass.operator.has y := List.forall_mem_cons.mpr ⟨hx, hrun⟩
    have htake := takeWhile_run hall hend
    exact lexemeLength_sole c (k := .operator) hx rfl (congrArg List.length htake)
  | bracket hx => exact lexemeLength_sole c (k := .bracket) hx rfl (if_pos hx)
  | name hx hrun hend =>
    rw [houtside (CharClass.has_word_of_has_nameStart hx)]
    exact lexemeLength_name c hx hrun hend
  | number hx hrun hend hpoint =>
    rw [houtside (CharClass.has_word_of_has_digit hx)]
    apply lexemeLength_sole c (begins_of_digit hx) rfl
    rw [lexemeLength_number hx (words_of_digits hrun) hend, if_pos (List.all_eq_true.mpr hrun),
      hpoint]
    rfl
  | decimal hx hrun hne hdigits hend =>
    rw [houtside (CharClass.has_word_of_has_digit hx)]
    apply lexemeLength_sole c (begins_of_digit hx) rfl
    rw [List.append_assoc, List.cons_append, lexemeLength_number hx (words_of_digits hrun) rfl,
      if_pos (List.all_eq_true.mpr hrun), fraction_decimal hne hdigits (endsWord_iff.mp hend),
      List.length_append]
    omega
  | glued hx hrun hmixed hend =>
    rw [houtside (CharClass.has_word_of_has_digit hx)]
    refine Or.inr ⟨not_claims_none c, ?_⟩
    -- A word that begins with a digit but has other characters too is no number.
    by_cases hc : c = .literal
    · rw [hc, lexemeLength_number hx hrun hend,
        if_neg fun hall => hmixed (List.all_eq_true.mp hall)]
    · exact lexemeLength_of_not_begins (not_begins (begins_of_digit hx) hc (Or.inr rfl))
  | other hquote hoperator hbracket hword =>
    refine Or.inr ⟨not_claims_none c, lexemeLength_of_not_begins ?_⟩
    have hname := not_nameStart_of_not_word hword
    have hdigit := not_digit_of_not_word hword
    cases c with
    | keyword => exact hname
    | operator => exact hoperator
    | bracket => exact hbracket
    | identifier => exact hname
    | literal => exact Bool.or_eq_false_iff.mpr ⟨hquote, hdigit⟩

end Claims
end Gloss
