import Gloss.Proofs.Reporting

namespace Gloss

open OnePass

/-- Writes a text at an offset of another one. At no offset of the text, and in the middle of a
character, nothing is written. -/
def insertAt (source : String) (offset : Nat) (inserted : String) : String :=
  match cutAfter? [] offset source.toList with
  | some (before, after) => String.ofList before ++ inserted ++ String.ofList after
  | none => source

def declaration (name : String) : String := "let variable " ++ name

/-- That a check finds nothing wrong before an offset: the text is clean or ends too early, or the
error is at a token from there on. -/
def Report.PassesTo (report : Report) (offset : Nat) : Prop :=
  match report.outcome with
  | .clean => True
  | .syntaxError f => f.kind = .endOfInput ∨
      ∃ t ∈ report.tokens, f.location.span? = some t.span ∧ offset ≤ t.span.start
  | .unknown _ => False

theorem toList_insertAt {source inserted : String} {offset : Nat} {before after : List Char}
    (htext : source.toList = before ++ after) (hoffset : byteLength before = offset) :
    (insertAt source offset inserted).toList = before ++ (inserted.toList ++ after) := by
  have hcut : cutAfter? [] offset source.toList = some (before, after) :=
    cutAfter?_eq_some_iff.mpr ⟨htext, hoffset⟩
  rw [insertAt, hcut]
  simp

/-- A check passes an offset if no error is at a token in front of it. -/
theorem passesTo_of_error {source : String} {offset : Nat}
    (h : ∀ e t, (parse (check source).tokens).error? = some e → e.token? = some t →
      offset ≤ t.span.start) : (check source).PassesTo offset := by
  rw [Report.PassesTo]
  cases houtcome : (check source).outcome with
  | clean => trivial
  | unknown message => exact outcome_ne_unknown source message houtcome
  | syntaxError f =>
    obtain ⟨e, he, rfl⟩ := outcome_eq_syntaxError_iff.mp houtcome
    cases htoken : e.token? with
    | none => exact Or.inl ((SyntaxError.token?_eq_none_iff e).mp htoken)
    | some t =>
      have hspan := span?_ofError source e
      rw [htoken] at hspan
      exact Or.inr ⟨t, mem_of_error he htoken, hspan, h e t he htoken⟩

section Declaration

variable {x : Char} {more after : List Char}

/-- A text that begins with a word can have words written in front of it. -/
theorem replaces_words (hx : CharClass.nameStart.has x)
    (hquotes : ∀ y ∈ x :: more, isQuote y = false) (hafter : after.head?.any isWordChar = true) :
    Replaces (x :: more ++ after) after := by
  have hword : isWordChar x := CharClass.has_word_of_has_nameStart hx
  obtain ⟨-, hoperator, -⟩ := classes_of_word hword
  have hdigit : CharClass.digit.has x = false := by
    rw [Bool.eq_false_iff]
    intro hdigit
    exact Bool.eq_false_iff.mp (not_nameStart_of_digit hdigit) hx
  refine ⟨?_, ?_, ?_⟩
  · intro y hy
    obtain rfl : x = y := Option.some.inj hy
    refine ⟨hoperator, hdigit, ?_⟩
    rintro rfl
    exact absurd hword (by decide)
  · rw [hafter]
    exact hword
  · -- No quote is written, so it is closed only where it was before.
    intro quote hquote hcloses
    rcases hcloses.split with ⟨inside, rest, htext, -⟩ | ⟨-, hcloses⟩
    · have hmem : quote ∈ x :: more := by rw [htext]; simp
      exact absurd hquote (Bool.eq_false_iff.mp (hquotes quote hmem))
    · exact hcloses

theorem exists_scan_word (word : String) (hword : word.toList = x :: more)
    (hx : CharClass.nameStart.has x) (hmore : ∀ y ∈ more, isWordChar y) (offset : Nat)
    (text : List Char) : ∃ t : Token, t.Spells (wordKind word.toList) word ∧
      scan offset (word.toList ++ ' ' :: text) =
        t :: scan (offset + (word.utf8ByteSize + 1)) text := by
  -- The blank ends the word, and is a stretch of its own that is no token.
  have hname : Stretch x more (' ' :: text) (some (wordKind (x :: more))) := .name hx hmore rfl
  have hblank : ∀ y ∈ [' '], y ∈ separators := by
    intro y hy
    rw [List.mem_singleton.mp hy]
    decide
  have hsize : byteLength (x :: more) = word.utf8ByteSize := by rw [← hword, byteLength_toList]
  have hrest : scan (offset + word.utf8ByteSize) (' ' :: text) =
      scan (offset + (word.utf8ByteSize + 1)) text := scan_gap _ text hblank
  refine ⟨Token.ofLexeme (wordKind word.toList) offset word.toList, ⟨rfl, ?_⟩, ?_⟩
  · rw [Token.ofLexeme, String.ofList_toList]
  · rw [hword, List.cons_append, scan_append offset hname, hsize, hrest]
    rfl

/-- The declaration of the hint is read as three tokens, whatever follows. -/
theorem exists_scan_declaration {name : String} (hname : name.toList = x :: more)
    (hx : CharClass.nameStart.has x) (hmore : ∀ y ∈ more, isWordChar y) (offset : Nat)
    (text : List Char) :
    ∃ l v u : Token, l.Spells .keyword "let" ∧ v.Spells .keyword "variable" ∧
      u.Spells (wordKind name.toList) name ∧
      scan offset ((declaration name ++ " ").toList ++ text) =
        l :: v :: u :: scan (offset + (declaration name ++ " ").utf8ByteSize) text := by
  have htext : (declaration name ++ " ").toList ++ text =
      "let".toList ++ ' ' :: ("variable".toList ++ ' ' :: (name.toList ++ ' ' :: text)) := by
    simp [declaration]
  have hsize : offset + (declaration name ++ " ").utf8ByteSize =
      offset + ("let".utf8ByteSize + 1) + ("variable".utf8ByteSize + 1) +
        (name.utf8ByteSize + 1) := by
    have hfront : "let variable ".utf8ByteSize =
        "let".utf8ByteSize + 1 + ("variable".utf8ByteSize + 1) := by decide
    have hblank : " ".utf8ByteSize = 1 := by decide
    rw [declaration, String.utf8ByteSize_append, String.utf8ByteSize_append]
    omega
  -- Each word begins behind the blank of the one before.
  obtain ⟨l, hl, hlet⟩ := exists_scan_word "let" rfl rfl (List.all_eq_true.mp rfl) offset
    ("variable".toList ++ ' ' :: (name.toList ++ ' ' :: text))
  obtain ⟨v, hv, hvariable⟩ := exists_scan_word "variable" rfl rfl (List.all_eq_true.mp rfl)
    (offset + ("let".utf8ByteSize + 1)) (name.toList ++ ' ' :: text)
  obtain ⟨u, hu, hword⟩ := exists_scan_word name hname hx hmore
    (offset + ("let".utf8ByteSize + 1) + ("variable".utf8ByteSize + 1)) text
  refine ⟨l, v, u, hl, hv, hu, ?_⟩
  rw [htext, hsize, hlet, hvariable, hword]

/-- In front of a name, the declaration joins nothing that stood before the name. -/
theorem replaces_declaration {name : String} (hname : name.toList = x :: more)
    (hwords : ∀ y ∈ x :: more, isWordChar y) (text : List Char) :
    Replaces ((declaration name ++ " ").toList ++ x :: (more ++ text)) (x :: (more ++ text)) := by
  have hquotes : ∀ y ∈ (declaration name ++ " ").toList, isQuote y = false := by
    have hfront : "let variable ".toList.all fun y => !isQuote y := by decide
    intro y hy
    rw [declaration, String.toList_append, String.toList_append, hname] at hy
    rcases List.mem_append.mp hy with hy | hy
    · rcases List.mem_append.mp hy with hy | hy
      · have hplain := List.all_eq_true.mp hfront y hy
        rwa [Bool.not_eq_true'] at hplain
      · exact (classes_of_word (hwords y hy)).1
    · rw [List.mem_singleton.mp hy]
      decide
  have hdeclaration : (declaration name ++ " ").toList =
      'l' :: ("et variable ".toList ++ (x :: more ++ [' '])) := by
    simp [declaration, hname]
  rw [hdeclaration] at hquotes ⊢
  exact replaces_words (by decide) hquotes (hwords x List.mem_cons_self)

theorem word_of_stretch (h : Stretch x more after (some .identifier)) :
    CharClass.nameStart.has x ∧ (∀ y ∈ more, isWordChar y) ∧
      wordKind (x :: more) = .identifier := by
  generalize hkind : some Category.identifier = kind? at h
  cases h with
  | name hx hrun _ => exact ⟨hx, hrun, (Option.some.inj hkind).symm⟩
  | _ => cases hkind

/-- Written in front of a name, its declaration adds three tokens and moves those behind it. -/
theorem exists_scan_insert {source : String} {t : Token} {earlier later : List Token}
    (hscan : scan 0 source.toList = earlier ++ t :: later) (ht : t.category = .identifier) :
    ∃ l v u : Token, l.Spells .keyword "let" ∧ v.Spells .keyword "variable" ∧
      u.Spells .identifier t.text ∧
      scan 0 (insertAt source t.span.start (declaration t.text ++ " ")).toList = earlier ++
        l :: v :: u :: (t :: later).map (Token.shift (declaration t.text ++ " ").utf8ByteSize) := by
  -- The name is a stretch behind whole stretches, which stay what they are.
  obtain ⟨front, x, more, after, htext, hstands⟩ := exists_standsAt _ 0 earlier hscan
  have hstretch := hstands.stretch
  rw [ht] at hstretch
  obtain ⟨hx, hmore, hkind⟩ := word_of_stretch hstretch
  have hname : t.text.toList = x :: more := by
    rw [hstands.token, Token.ofLexeme, String.toList_ofList]
  have hwords : ∀ y ∈ x :: more, isWordChar y :=
    List.forall_mem_cons.mpr ⟨CharClass.has_word_of_has_nameStart hx, hmore⟩
  have hstart : byteLength front = t.span.start := by
    rw [hstands.token, Token.ofLexeme, Nat.zero_add]
  have hrest : scan (0 + byteLength front) (x :: (more ++ after)) = t :: later := by
    have hfront := scan_passes hstands.passes
    rw [← htext, hscan] at hfront
    exact (List.append_cancel_left hfront).symm
  obtain ⟨l, v, u, hl, hv, hu, hdeclaration⟩ := exists_scan_declaration hname hx hmore
    (0 + byteLength front) (x :: (more ++ after))
  rw [hname, hkind] at hu
  refine ⟨l, v, u, hl, hv, hu, ?_⟩
  -- What is put in begins with a word, as the name does, so the stretches before it stand.
  have hreplaces := replaces_declaration hname hwords after
  have hpasses := hstands.passes.replace hreplaces
  rw [toList_insertAt htext hstart, scan_passes hpasses, hdeclaration, scan_shift, hrest]

end Declaration

theorem derives_declaration {l v u : Token} (hl : l.Spells .keyword "let")
    (hv : v.Spells .keyword "variable") (hu : u.category = .identifier) (s : NameSet) :
    Derives .statement s [l, v, u] (s.insert u.text) := by
  have hdeclarator : Derives .declarator s [v, u] (s.insert u.text) :=
    .letVariable hv hu .noInitializer .noTerminator
  exact .declaration hl hdeclarator

theorem stop_le_start {text : List Char} {t u : Token} {earlier later : List Token}
    (hscan : scan 0 text = earlier ++ t :: later) (hu : u ∈ later) :
    t.span.stop ≤ u.span.start := by
  have hordered := (scan_ordered text 0).1
  rw [hscan, List.pairwise_append] at hordered
  exact List.rel_of_pairwise_cons hordered.2.1 hu

/-- With the declaration of an undeclared name in front of it, what is wrong is wrong behind the
name, and it is no longer that the name is undeclared. -/
theorem error_insert_declaration {source : String} {t : Token} {e : SyntaxError}
    (h : (parse (check source).tokens).error? = some (.undeclaredVariable t))
    (he : (parse (check (insertAt source t.span.start (declaration t.text ++ " "))).tokens).error? =
      some e) :
    (∀ u, e.token? = some u →
      t.span.stop + (declaration t.text ++ " ").utf8ByteSize ≤ u.span.start) ∧
    ∀ u, e = .undeclaredVariable u → u.text ≠ t.text := by
  obtain ⟨hname, earlier, later, htokens, hlater, herror⟩ := exists_error_behind h
  rw [tokens_check] at htokens
  obtain ⟨l, v, u, hl, hv, hu, hscan⟩ := exists_scan_insert htokens hname
  -- The three tokens declare the name whatever was declared before.
  have hdeclares (s : NameSet) : ∃ s₁, Derives .statement s [l, v, u] s₁ ∧ t.text ∈ s₁ := by
    refine ⟨s.insert u.text, derives_declaration hl hv hu.1 s, ?_⟩
    rw [hu.2]
    exact Std.ExtTreeSet.mem_insert_self
  rw [tokens_check, hscan] at he
  generalize (declaration t.text ++ " ").utf8ByteSize = bytes at he ⊢
  have hbehind : later.map (Token.shift bytes) ≠ [] := by simpa using hlater
  obtain ⟨hplace, hother⟩ := herror _ (t.shift bytes) _ hdeclares hname hbehind e he
  refine ⟨?_, hother⟩
  intro w hw
  -- The token has only been moved, by as much as was written in.
  obtain ⟨w', hw', rfl⟩ := List.mem_map.mp (hplace w hw)
  have hstart := stop_le_start htokens hw'
  exact Nat.add_le_add_right hstart bytes

/-- Written in front of an undeclared name, its declaration takes the check past the name. -/
theorem check_insert_declaration (source : String) (f : Finding) (t : Token)
    (hf : (check source).outcome = .syntaxError f)
    (ht : f.diagnostic.error = .undeclaredVariable t) :
    f.location.span? = some t.span ∧
      f.hint? = some ("declare it first with `" ++ declaration t.text ++ "`") ∧
      let inserted := declaration t.text ++ " "
      let report := check (insertAt source t.span.start inserted)
      report.PassesTo (t.span.stop + inserted.utf8ByteSize) ∧
        ∀ f' u, report.outcome = .syntaxError f' →
          f'.diagnostic.error = .undeclaredVariable u → u.text ≠ t.text := by
  obtain ⟨e, he, rfl⟩ := outcome_eq_syntaxError_iff.mp hf
  obtain rfl : e = .undeclaredVariable t := ht
  have hspan := span?_ofError source (.undeclaredVariable t)
  have hhint : (SyntaxError.undeclaredVariable t).hint? =
      some ("declare it first with `" ++ declaration t.text ++ "`") := by
    rw [SyntaxError.hint?, declaration, ← String.append_assoc]
    rfl
  refine ⟨hspan, hhint, ?_⟩
  intro inserted report
  refine ⟨?_, ?_⟩
  · apply passesTo_of_error
    intro e' u he' hu
    exact (error_insert_declaration he he').1 u hu
  · intro f' u hf' hu
    obtain ⟨e', he', rfl⟩ := outcome_eq_syntaxError_iff.mp hf'
    exact (error_insert_declaration he he').2 u hu

/-- A name in a block, right behind a quote without a partner. -/
theorem check_insert_declaration_open_quote :
    let source := "if(1)\x7b\"x = 2 y = x"
    let fixed := "if(1)\x7b\"let variable x x = 2 y = x"
    ∃ f, (check source).outcome = .syntaxError f ∧ f.location.span? = some ⟨7, 8⟩ ∧
      insertAt source 7 "let variable x " = fixed ∧ (check fixed).PassesTo 23 := by
  intro source fixed
  have herror : (parse (scan 0 source.toList)).error? =
      some (.undeclaredVariable ⟨⟨7, 8⟩, "x", .identifier⟩) := by decide +kernel
  have hf := outcome_of_scan herror
  have hfixed : insertAt source 7 "let variable x " = fixed := by decide
  obtain ⟨hspan, -, hpasses, -⟩ := check_insert_declaration source _ _ hf rfl
  refine ⟨_, hf, hspan, hfixed, ?_⟩
  rw [← hfixed]
  exact hpasses

end Gloss
