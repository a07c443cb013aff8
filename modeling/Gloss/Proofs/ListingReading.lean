import Mathlib.Data.List.Basic
import Gloss.Listing
import Gloss.Proofs.Numerals
import Gloss.Proofs.Positions
import Gloss.Proofs.Runs

namespace Gloss

namespace Quoted

inductive Place where
  /-- Characters that stand for themselves, and the quote that ends the text. -/
  | plain
  /-- What comes behind a backslash. -/
  | escape
  /-- The brace in front of a code point. -/
  | brace
  /-- The digits of a code point, and the brace behind them. -/
  | code (n : Nat)

def unescape? : Char → Option Char
  | '0' => some '\x00'
  | 't' => some '\t'
  | 'n' => some '\n'
  | 'r' => some '\r'
  | '"' => some '"'
  | '\'' => some '\''
  | '\\' => some '\\'
  | _ => none

def read : Place → List Char → Option (List Char)
  | _, [] => none
  | .plain, c :: text =>
    if c = '"' then if text.isEmpty then some [] else none
    else if c = '\\' then read .escape text
    else (read .plain text).map (c :: ·)
  | .escape, c :: text =>
    if c = 'u' then read .brace text
    else do return (← unescape? c) :: (← read .plain text)
  | .brace, c :: text => if c = '\x7b' then read (.code 0) text else none
  | .code n, c :: text =>
    if c = '\x7d' then do return (← Numeral.char? n) :: (← read .plain text)
    else do read (.code (← Numeral.addDigit 16 n c)) text

variable {c : Char} {digits text : List Char} {n m : Nat}

theorem read_code (h : digits.foldlM (Numeral.addDigit 16) n = some m) (text : List Char) :
    read (.code n) (digits ++ text) = read (.code m) text := by
  induction digits generalizing n with
  | nil =>
    obtain rfl : n = m := Option.some.inj h
    rfl
  | cons d digits ih =>
    have hbrace : d ≠ '\x7d' := by
      rintro rfl
      exact Numeral.digit?_ne_none_of_mem h _ List.mem_cons_self (by decide)
    rw [List.foldlM_cons] at h
    obtain ⟨n', hd, hdigits⟩ := Option.bind_eq_some_iff.mp h
    rw [List.cons_append, read, if_neg hbrace, hd]
    exact ih hdigits

theorem read_escape (hu : c ≠ 'u') {d : Char} (h : unescape? c = some d) (text : List Char) :
    read .plain ('\\' :: c :: text) = (read .plain text).map (d :: ·) := by
  rw [read, if_neg (by decide), if_pos rfl, read, if_neg hu, h]
  cases read .plain text <;> rfl

/-- A code point between braces is read as its character. -/
theorem read_codePoint (c : Char) (text : List Char) :
    read .plain ('\\' :: 'u' :: '\x7b' :: (hexDigits c.toNat ++ '\x7d' :: text)) =
      (read .plain text).map (c :: ·) := by
  have hdigits : (hexDigits c.toNat).foldlM (Numeral.addDigit 16) 0 = some c.toNat :=
    Numeral.foldlM_addDigit (by decide) (by decide) c.toNat
  rw [read, if_neg (by decide), if_pos rfl, read, if_pos rfl, read, if_pos rfl, read_code hdigits,
    read, if_pos rfl, Numeral.char?_toNat]
  cases read .plain text <;> rfl

/-- What a character is written as is read as this character. -/
theorem read_encodeChar (c : Char) (text : List Char) :
    read .plain (encodeChar c ++ text) = (read .plain text).map (c :: ·) := by
  unfold encodeChar
  split
  case h_7 hnull htab hfeed hreturn hquote hbackslash =>
    split
    · rw [List.singleton_append, read, if_neg hquote, if_neg hbackslash]
    · rw [List.append_assoc, List.append_assoc]
      exact read_codePoint c text
  all_goals exact read_escape (by decide) rfl text

/-- The escapes of a quoted text lead back to the text. -/
theorem read_encode (text : List Char) :
    read .plain (text.flatMap encodeChar ++ ['"']) = some text := by
  induction text with
  | nil => rfl
  | cons c text ih =>
    rw [List.flatMap_cons, List.append_assoc, read_encodeChar, ih]
    rfl

theorem lineFeed_not_mem_encodeChar (c : Char) : '\n' ∉ encodeChar c := by
  unfold encodeChar
  split
  case h_7 hnull htab hfeed hreturn hquote hbackslash =>
    split
    · intro hmem
      exact hfeed (List.mem_singleton.mp hmem).symm
    · have hdigits : '\n' ∉ hexDigits c.toNat :=
        Numeral.not_mem_toDigits (by decide) (by decide) (by decide)
      simp [hdigits]
  all_goals decide

end Quoted

namespace Token

/-- Reads a token from its line: two offsets with two points between them, the tag of a kind and a
quoted text. -/
def ofLine? (line : List Char) : Option Token := do
  let behindStart ← (line.dropWhile Char.isDigit).dropPrefix? ['.', '.']
  let behindStop ← (behindStart.dropWhile Char.isDigit).dropPrefix? [' ']
  let text ← (behindStop.dropWhile (· ≠ ' ')).dropPrefix? [' ', '"']
  let start ← Numeral.value? 10 (line.takeWhile Char.isDigit)
  let stop ← Numeral.value? 10 (behindStart.takeWhile Char.isDigit)
  let category ← Category.ofTag? (String.ofList (behindStop.takeWhile (· ≠ ' ')))
  return ⟨⟨start, stop⟩, String.ofList (← Quoted.read .plain text), category⟩

theorem toList_line (t : Token) : t.line.toList =
    Nat.toDigits 10 t.span.start ++ (['.', '.'] ++ (Nat.toDigits 10 t.span.stop ++ ([' '] ++
      (t.category.tag.toList ++ ([' ', '"'] ++
        (t.text.toList.flatMap Quoted.encodeChar ++ ['"'])))))) := by
  have hpoints : (toString "..").toList = ['.', '.'] := rfl
  have hblank : (toString " ").toList = [' '] := rfl
  have htag : (toString t.category.tag).toList = t.category.tag.toList := rfl
  simp [line, Quoted.encode, hpoints, hblank, htag]

theorem dropPrefix?_run {p : Char → Bool} {run mark text : List Char} (hrun : ∀ c ∈ run, p c)
    (hend : (mark ++ text).head?.any p = false) :
    ((run ++ (mark ++ text)).dropWhile p).dropPrefix? mark = some text := by
  rw [dropWhile_run hrun hend]
  exact List.dropPrefix?_append_of_beq text BEq.rfl

/-- The line of a token is read as this token. -/
theorem ofLine?_line (t : Token) : ofLine? t.line.toList = some t := by
  have hdigits (n : Nat) : ∀ c ∈ Nat.toDigits 10 n, c.isDigit :=
    fun _ hc => Nat.isDigit_of_mem_toDigits (by decide) (by decide) hc
  have hvalue (n : Nat) : Numeral.value? 10 (Nat.toDigits 10 n) = some n :=
    Numeral.value?_toDigits (by decide) (by decide) n
  have htag : ∀ c ∈ t.category.tag.toList, decide (c ≠ ' ') := by
    rw [← List.all_eq_true]
    cases t.category <;> rfl
  rw [toList_line, ofLine?, dropPrefix?_run (hdigits _) rfl, takeWhile_run (hdigits _) rfl, hvalue]
  simp only [Option.bind_eq_bind, Option.bind_some]
  rw [dropPrefix?_run (hdigits _) rfl, takeWhile_run (hdigits _) rfl, hvalue]
  simp only [Option.bind_some]
  rw [dropPrefix?_run htag rfl, takeWhile_run htag rfl, String.ofList_toList, Category.ofTag?_tag]
  simp only [Option.bind_some]
  rw [Quoted.read_encode]
  simp

theorem lineFeed_not_mem_line (t : Token) : '\n' ∉ t.line.toList := by
  have hdigits (n : Nat) : '\n' ∉ Nat.toDigits 10 n :=
    Numeral.not_mem_toDigits (by decide) (by decide) (by decide)
  have htag : '\n' ∉ t.category.tag.toList := by
    cases t.category <;> decide
  have htext : '\n' ∉ t.text.toList.flatMap Quoted.encodeChar := by
    intro hmem
    obtain ⟨c, -, hc⟩ := List.mem_flatMap.mp hmem
    exact Quoted.lineFeed_not_mem_encodeChar c hc
  rw [toList_line]
  simp [hdigits, htag, htext]

end Token

section Lines

/-- A line feed ends a line that holds none. -/
theorem lines_append {row : List Char} (h : '\n' ∉ row) (text : List Char) :
    lines (row ++ '\n' :: text) = row :: lines text := by
  induction row with
  | nil => exact lines_lineFeed text
  | cons c row ih =>
    obtain ⟨hc, hrow⟩ := not_or.mp (mt List.mem_cons.mpr h)
    rw [List.cons_append, lines_cons (Ne.symm hc), ih hrow]
    rfl

theorem toList_tokenLines (tokens : List Token) :
    (tokenLines tokens).toList = tokens.flatMap fun t => t.line.toList ++ ['\n'] := by
  have hgo (out : String) : (tokens.foldl (fun out t => out ++ t.line ++ "\n") out).toList =
      out.toList ++ tokens.flatMap fun t => t.line.toList ++ ['\n'] := by
    induction tokens generalizing out with
    | nil => exact (List.append_nil _).symm
    | cons t tokens ih =>
      rw [List.foldl_cons, ih]
      simp
  exact hgo ""

/-- The lines of a listing are those of its tokens, and there is nothing behind the last one. -/
theorem lines_tokenLines (tokens : List Token) :
    lines (tokenLines tokens).toList = tokens.map (·.line.toList) ++ [[]] := by
  rw [toList_tokenLines]
  induction tokens with
  | nil => rfl
  | cons t tokens ih =>
    rw [List.flatMap_cons, List.append_assoc, List.singleton_append,
      lines_append t.lineFeed_not_mem_line, ih]
    rfl

/-- The tokens of a listing are those that its lines are read as. -/
theorem filterMap_ofLine? (tokens : List Token) :
    (lines (tokenLines tokens).toList).filterMap Token.ofLine? = tokens := by
  have hread : (Token.ofLine? ∘ fun t : Token => t.line.toList) = some := funext Token.ofLine?_line
  rw [lines_tokenLines, List.filterMap_append, List.filterMap_map, hread, List.filterMap_some]
  exact List.append_nil tokens

end Lines

/-- A listing has one line for each token, which ends with a line feed and leads back to the token.
So the tokens can be read back from it, and there are no others with this listing. -/
theorem tokenLines_readable (tokens : List Token) :
    lines (tokenLines tokens).toList = tokens.map (·.line.toList) ++ [[]] ∧
    tokens.map (fun t => Token.ofLine? t.line.toList) = tokens.map some ∧
    ∀ tokens', tokenLines tokens' = tokenLines tokens ↔ tokens' = tokens := by
  refine ⟨lines_tokenLines tokens, ?_, fun tokens' => ⟨fun h => ?_, congrArg tokenLines⟩⟩
  · exact List.map_congr_left fun t _ => t.ofLine?_line
  · rw [← filterMap_ofLine? tokens', h, filterMap_ofLine?]

/-- Offsets out of order and of twenty digits; a line feed, quotes, a backslash and an accent. -/
example : tokenLines [⟨⟨18446744073709551615, 0⟩, "a\n\"\\\'", .literal⟩,
    ⟨⟨3, 4⟩, "e\u0301\x00", .identifier⟩] =
      "18446744073709551615..0 literal \"a\\n\\\"\\\\'\"\n" ++
        "3..4 identifier \"e\\u\x7b301\x7d\\0\"\n" := by
  decide +kernel

end Gloss
