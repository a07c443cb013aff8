import Gloss.Proofs.Lockstep
import Gloss.Proofs.Tokenizing
import Gloss.Report

namespace Gloss

open OnePass
open List (Forall₂)

def separators : List Char :=
  ['\t', '\n', '\x0b', '\x0c', '\r', ' ', '\u0085', '\u00a0', '\u1680', '\u2000', '\u2001',
    '\u2002', '\u2003', '\u2004', '\u2005', '\u2006', '\u2007', '\u2008', '\u2009', '\u200a',
    '\u2028', '\u2029', '\u202f', '\u205f', '\u3000', ';', ',']

/-- Writes the texts of tokens in order, before each of them and behind the last one a gap. -/
def layout (gap : Nat → String) (i : Nat) : List Token → String
  | [] => gap i
  | t :: tokens => gap i ++ t.text ++ layout gap (i + 1) tokens

def Token.content (t : Token) : Category × String := (t.category, t.text)

/-- Two outcomes that tell the same: both clean, or the same error at the same token of two lists,
or at the end of both. -/
inductive SameVerdict (tokens tokens' : List Token) : Outcome → Outcome → Prop where
  | clean : SameVerdict tokens tokens' .clean .clean
  | atToken {f f' : Finding} {i : Nat} {t t' : Token} (hkind : f.kind = f'.kind)
      (hmessage : f.message = f'.message) (hhint : f.hint? = f'.hint?)
      (ht : tokens[i]? = some t) (ht' : tokens'[i]? = some t')
      (htoken : f.diagnostic.error.token? = some t) (htoken' : f'.diagnostic.error.token? = some t')
      (hspan : f.location.span? = some t.span) (hspan' : f'.location.span? = some t'.span) :
      SameVerdict tokens tokens' (.syntaxError f) (.syntaxError f')
  | atEnd {f f' : Finding} (hkind : f.kind = f'.kind) (hmessage : f.message = f'.message)
      (hhint : f.hint? = f'.hint?) (hend : f.location.span? = none)
      (hend' : f'.location.span? = none) :
      SameVerdict tokens tokens' (.syntaxError f) (.syntaxError f')

/-- Separators belong to no token and end every token. -/
theorem classes_of_separator {y : Char} (hy : y ∈ separators) : isQuote y = false ∧
    CharClass.operator.has y = false ∧ CharClass.bracket.has y = false ∧ isWordChar y = false ∧
    y ≠ '.' := by
  have hall : separators.all fun y => !isQuote y && !CharClass.operator.has y &&
      !CharClass.bracket.has y && !isWordChar y && y != '.' := by decide
  have h := List.all_eq_true.mp hall y hy
  simpa [and_assoc] using h

def Separated (text : List Char) : Prop := ∀ y ∈ text.head?, y ∈ separators

section Scan

variable {x : Char} {more after text : List Char} {c : Category}

/-- Separators are passed over. -/
theorem scan_gap (offset : Nat) (text : List Char) (hgap : ∀ y ∈ more, y ∈ separators) :
    scan offset (more ++ text) = scan (offset + byteLength more) text := by
  induction more generalizing offset with
  | nil => rfl
  | cons y more ih =>
    obtain ⟨hquote, hoperator, hbracket, hword, -⟩ :=
      classes_of_separator (hgap y List.mem_cons_self)
    have hother : Stretch y [] (more ++ text) none := .other hquote hoperator hbracket hword
    have h := scan_append offset hother
    rw [List.nil_append] at h
    rw [List.cons_append, h, Option.toList_none, List.map_nil, List.nil_append,
      ih _ fun z hz => hgap z (List.mem_cons_of_mem y hz), byteLength_cons, byteLength_cons,
      byteLength_nil, Nat.add_zero, Nat.add_assoc]

theorem Separated.head_any {p : Char → Bool} (h : Separated text)
    (hp : ∀ y ∈ separators, p y = false) : text.head?.any p = false := by
  cases text with
  | nil => rfl
  | cons y text => exact hp y (h y rfl)

/-- A token is found again before a separator. -/
theorem stretch_separated (h : Stretch x more after (some c)) (htext : Separated text) :
    Stretch x more text (some c) := by
  have hend : Lexeme.endsWord text := endsWord_iff.mpr
    (htext.head_any fun y hy => (classes_of_separator hy).2.2.2.1)
  -- A separator ends every run, just as what was there before did.
  cases h with
  | quoted hquote hinside => exact .quoted hquote hinside
  | operator hx hrun _ =>
    exact .operator hx hrun (htext.head_any fun y hy => (classes_of_separator hy).2.1)
  | bracket hx => exact .bracket hx
  | name hx hrun _ => exact .name hx hrun hend
  | number hx hrun _ _ =>
    refine .number hx hrun hend ?_
    cases text with
    | nil => rfl
    | cons y text =>
      have hy := (classes_of_separator (htext y rfl)).2.2.2.2
      rw [fraction]
      intro rest h
      exact hy (List.cons.inj h).1
  | decimal hx hrun hne hdigits _ => exact .decimal hx hrun hne hdigits hend

def Token.Scanned (t : Token) : Prop :=
  ∃ x more after, t.text = String.ofList (x :: more) ∧ Stretch x more after (some t.category)

/-- The text of a token alone is read as this token. -/
theorem scanned_of_mem_scan (text : List Char) : ∀ offset, ∀ t ∈ scan offset text, t.Scanned := by
  induction text using stretch_induction with
  | nil =>
    intro offset t ht
    rw [scan] at ht
    exact absurd ht List.not_mem_nil
  | stretch x more after kind? h ih =>
    intro offset t ht
    rw [scan_append offset h] at ht
    rcases List.mem_append.mp ht with ht | ht
    · obtain ⟨k, hk, rfl⟩ := List.mem_map.mp ht
      rw [Option.mem_toList] at hk
      exact ⟨x, more, after, rfl, hk ▸ h⟩
    · exact ih _ t ht

end Scan

section Layout

variable {gap : Nat → String} {i : Nat} {tokens : List Token}

theorem layout_separated (hgap : ∀ i, ∀ y ∈ (gap i).toList, y ∈ separators)
    (hne : tokens ≠ [] → gap i ≠ "") : Separated (layout gap i tokens).toList := by
  cases tokens with
  | nil =>
    intro y hy
    exact hgap i y (List.mem_of_mem_head? hy)
  | cons t tokens =>
    intro y hy
    have hnil : (gap i).toList ≠ [] := fun hnil =>
      hne (List.cons_ne_nil t tokens) (String.toList_eq_nil_iff.mp hnil)
    rw [layout, String.toList_append, String.toList_append, List.append_assoc,
      List.head?_append_of_ne_nil _ hnil] at hy
    exact hgap i y (List.mem_of_mem_head? hy)

/-- Laying tokens out keeps their contents. -/
theorem scan_layout (hgap : ∀ i, ∀ y ∈ (gap i).toList, y ∈ separators)
    (hscanned : ∀ t ∈ tokens, t.Scanned)
    (hbetween : ∀ j, i < j → j < i + tokens.length → gap j ≠ "") (offset : Nat) :
    (scan offset (layout gap i tokens).toList).map Token.content = tokens.map Token.content := by
  induction tokens generalizing i offset with
  | nil =>
    have h := scan_gap offset [] (hgap i)
    rw [List.append_nil] at h
    rw [layout, h, scan, List.map_nil]
  | cons t tokens ih =>
    obtain ⟨x, more, after, htext, h⟩ := hscanned t List.mem_cons_self
    -- The token is found again, since a gap or the end of the text follows.
    have hrest : Separated (layout gap (i + 1) tokens).toList := by
      apply layout_separated hgap
      intro hne
      have hlength := List.length_pos_iff.mpr hne
      exact hbetween (i + 1) (Nat.lt_succ_self i) (by rw [List.length_cons]; omega)
    have hscan := scan_append (offset + byteLength (gap i).toList) (stretch_separated h hrest)
    rw [layout, String.toList_append, String.toList_append, List.append_assoc, htext,
      String.toList_ofList, scan_gap _ _ (hgap i), List.cons_append, hscan, Option.toList_some,
      List.map_singleton, List.singleton_append, List.map_cons, List.map_cons]
    refine congrArg₂ List.cons ?_ (ih (fun u hu => hscanned u (List.mem_cons_of_mem t hu)) ?_ _)
    · rw [Token.content, Token.content, htext]
      rfl
    · intro j hij hj
      exact hbetween j (by omega) (by rw [List.length_cons]; omega)

def Corresponds (tokens tokens' : List Token) (t t' : Token) : Prop :=
  ∃ i : Nat, tokens[i]? = some t ∧ tokens'[i]? = some t' ∧ t.content = t'.content

/-- A parse cannot tell apart two lists with the same contents. -/
theorem congruence_corresponds (tokens tokens' : List Token) :
    Congruence (Corresponds tokens tokens') Eq where
  category := fun ⟨_, _, _, h⟩ => (Prod.mk.inj h).1
  text := fun ⟨_, _, _, h⟩ _ _ => (Prod.mk.inj h).2
  declared := by
    rintro names names' a b rfl ⟨_, _, _, h⟩ _
    have htext : a.text = b.text := (Prod.mk.inj h).2
    rw [htext]
  declare := by
    rintro names names' a b rfl ⟨_, _, _, h⟩ _
    have htext : a.text = b.text := (Prod.mk.inj h).2
    rw [htext]

theorem forall₂_corresponds {tokens' : List Token}
    (h : tokens'.map Token.content = tokens.map Token.content) :
    Forall₂ (Corresponds tokens tokens') tokens tokens' := by
  have hlength := congrArg List.length h
  rw [List.length_map, List.length_map] at hlength
  apply List.forall₂_of_length_eq_of_get hlength.symm
  intro j hj hj'
  refine ⟨j, List.getElem?_eq_getElem hj, List.getElem?_eq_getElem hj', ?_⟩
  have hget := congrArg (·[j]?) h
  simpa [hj, hj'] using hget.symm

/-- An error's words do not depend on where its token is. -/
theorem words_of_like {R : Token → Token → Prop} {e e' : SyntaxError}
    (hR : ∀ a b, R a b → a.content = b.content) (h : SyntaxError.Like R e e') :
    e.message = e'.message ∧ e.hint? = e'.hint? := by
  have hspan {a b : Token} (h : R a b) : b = { a with span := b.span } := by
    obtain ⟨hcategory, htext⟩ := Prod.mk.inj (hR a b h)
    rw [hcategory, htext]
  cases h with
  | endOfInput => exact ⟨rfl, rfl⟩
  | expectedToken h _ | unknownKeyword h | unexpectedToken h | expectedDeclarator h
    | undeclaredVariable h _ | invalidExpression h =>
    constructor
    · rw [hspan h]
      rfl
    · rw [hspan h]
      rfl

theorem span?_ofError (source : String) (e : SyntaxError) :
    (Location.ofError source e).span? = e.token?.map (·.span) := by
  rw [Location.ofError]
  cases e.token? <;> rfl

/-- Tokens with the same contents get the same verdict. -/
theorem sameVerdict_of_content {source source' : String} {tokens' : List Token}
    (h : tokens'.map Token.content = tokens.map Token.content) :
    SameVerdict tokens tokens' (checkTokens source tokens) (checkTokens source' tokens') := by
  -- The parser sees contents only, so the two errors correspond or there are none.
  have herror := ((congruence_corresponds tokens tokens').parse (forall₂_corresponds h) rfl).error?
  rw [checkTokens, checkTokens]
  revert herror
  generalize (parse tokens).error? = error?
  generalize (parse tokens').error? = error?'
  intro herror
  cases herror with
  | none => exact .clean
  | @some e e' hlike =>
    obtain ⟨hkind, htoken⟩ := hlike.kind_token?
    obtain ⟨hmessage, hhint⟩ := words_of_like (fun _ _ ⟨_, _, _, h⟩ => h) hlike
    generalize ht : e.token? = token? at htoken
    generalize ht' : e'.token? = token?' at htoken
    cases htoken with
    | none =>
      refine .atEnd hkind.symm hmessage hhint ?_ ?_
      · exact (span?_ofError source e).trans (by rw [ht]; rfl)
      · exact (span?_ofError source' e').trans (by rw [ht']; rfl)
    | some hcorresponds =>
      obtain ⟨i, hi, hi', -⟩ := hcorresponds
      refine .atToken hkind.symm hmessage hhint hi hi' ht ht' ?_ ?_
      · exact (span?_ofError source e).trans (by rw [ht]; rfl)
      · exact (span?_ofError source' e').trans (by rw [ht']; rfl)

end Layout

/-- However the tokens of a text are laid out, they are the same tokens with the same verdict. -/
theorem check_layout (source : String) (gap : Nat → String)
    (hgap : ∀ i, ∀ y ∈ (gap i).toList, y ∈ separators)
    (hbetween : ∀ i, 0 < i → i < (tokenize source).length → gap i ≠ "") :
    (tokenize (layout gap 0 (tokenize source))).map Token.content =
        (tokenize source).map Token.content ∧
      SameVerdict (tokenize source) (tokenize (layout gap 0 (tokenize source)))
        (check source).outcome (check (layout gap 0 (tokenize source))).outcome := by
  have htokens : tokenize source = scan 0 source.toList := select_candidates source
  -- The layout is made of scanned tokens, so they are found in it again.
  have hscanned : ∀ t ∈ tokenize source, t.Scanned := by
    rw [htokens]
    exact scanned_of_mem_scan source.toList 0
  have hlayout : tokenize (layout gap 0 (tokenize source)) =
      scan 0 (layout gap 0 (tokenize source)).toList := select_candidates _
  have hcontent : (tokenize (layout gap 0 (tokenize source))).map Token.content =
      (tokenize source).map Token.content := by
    rw [hlayout]
    apply scan_layout hgap hscanned
    intro j hpos hj
    exact hbetween j hpos (by omega)
  exact ⟨hcontent, sameVerdict_of_content hcontent⟩

/-- A block in one line, with a line for each of its tokens. -/
theorem check_layout_lines :
    let source := "if(ready)\x7bx=3.5\x7d"
    let gap := fun i => if i = 0 then "" else ";\n"
    let spread := layout gap 0 (tokenize source)
    (tokenize spread).map Token.content = (tokenize source).map Token.content ∧
      SameVerdict (tokenize source) (tokenize spread) (check source).outcome
        (check spread).outcome := by
  intro source gap spread
  have hall : ";\n".toList.all (· ∈ separators) := by decide
  apply check_layout source gap
  · intro i y hy
    by_cases hi : i = 0
    · rw [hi] at hy
      exact absurd hy List.not_mem_nil
    · rw [show gap i = ";\n" from if_neg hi] at hy
      exact of_decide_eq_true (List.all_eq_true.mp hall y hy)
  · intro i hpos _
    rw [show gap i = ";\n" from if_neg (Nat.ne_of_gt hpos)]
    decide

end Gloss
