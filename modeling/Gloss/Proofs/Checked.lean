import Gloss.Coloring
import Gloss.Report
import Gloss.Proofs.PositionOrder

/-! On a machine with words of 64 bits, sums that do not fit a word, differences below zero, slices
that are no part of a text and entries that a table lacks are faults. -/
namespace Gloss

inductive MachineFault where
  /-- A difference below zero. -/
  | underflow
  /-- A sum or product that does not fit a word. -/
  | overflow
  /-- A slice with an end outside the text or inside a character, or with its ends out of order. -/
  | noSlice
  /-- An entry that is not in its table. -/
  | noEntry

namespace MachineFault

def message : MachineFault → String
  | underflow => "difference below zero"
  | overflow => "number too large"
  | noSlice => "slice not in the text"
  | noEntry => "entry not in the table"

end MachineFault

/-- What has gone well is taken over by what comes next. -/
@[simp]
theorem ok_bind {α β : Type} (a : α) (f : α → Except MachineFault β) :
    (Except.ok a >>= f) = f a := rfl

namespace Word

def size : Nat := UInt64.size

def add (a b : Nat) : Except MachineFault Nat :=
  if a + b < size then .ok (a + b) else .error .overflow

def sub (a b : Nat) : Except MachineFault Nat := if b ≤ a then .ok (a - b) else .error .underflow

def mul (a b : Nat) : Except MachineFault Nat :=
  if a * b < size then .ok (a * b) else .error .overflow

variable {a b : Nat}

theorem add_eq (h : a + b < size) : add a b = .ok (a + b) := if_pos h

theorem sub_eq (h : b ≤ a) : sub a b = .ok (a - b) := if_pos h

theorem mul_eq (h : a * b < size) : mul a b = .ok (a * b) := if_pos h

end Word

def entry {α : Type} [DecidableEq α] (table : List α) (x : α) : Except MachineFault α :=
  match table.find? (· = x) with
  | some found => .ok found
  | none => .error .noEntry

theorem entry_eq {α : Type} [DecidableEq α] {table : List α} {x : α} (h : x ∈ table) :
    entry table x = .ok x := by
  rw [entry]
  cases hfound : table.find? (· = x) with
  | none =>
    have hnot := List.find?_eq_none.mp hfound x h
    simp at hnot
  | some y =>
    have heq := List.find?_some hfound
    simp only [decide_eq_true_eq] at heq
    simp only [heq]

section Slices

def slice? (source : String) (start stop : Nat) : Option String := do
  guard (start ≤ stop)
  let (_, rest) ← cutAfter? [] start source.toList
  let (text, _) ← cutAfter? [] (stop - start) rest
  return String.ofList text

def slice (source : String) (start stop : Nat) : Except MachineFault String :=
  match slice? source start stop with
  | some text => .ok text
  | none => .error .noSlice

variable {source text : String} {start stop : Nat} {t : Token}

/-- A slice starts and stops where the text can be cut between two characters. -/
theorem slice?_eq_some_iff : slice? source start stop = some text ↔ ∃ before after,
    source.toList = before ++ (text.toList ++ after) ∧ byteLength before = start ∧
      byteLength (before ++ text.toList) = stop := by
  simp only [slice?, Option.bind_eq_bind, Option.bind_eq_some_iff, Option.guard_eq_some',
    cutAfter?_eq_some_iff, Prod.exists, Option.pure_def, Option.some.injEq, byteLength_append]
  constructor
  · rintro ⟨-, hle, before, _, ⟨hsource, hstart⟩, chars, after, ⟨rfl, hchars⟩, rfl⟩
    rw [String.toList_ofList]
    exact ⟨before, after, hsource, hstart, by omega⟩
  · rintro ⟨before, after, hsource, hstart, hstop⟩
    exact ⟨(), by omega, before, text.toList ++ after, ⟨hsource, hstart⟩, text.toList, after,
      ⟨rfl, by omega⟩, String.ofList_toList⟩

theorem slice_eq {before middle after : List Char}
    (h : source.toList = before ++ (middle ++ after)) :
    slice source (byteLength before) (byteLength (before ++ middle)) =
      .ok (String.ofList middle) := by
  have hslice : slice? source (byteLength before) (byteLength (before ++ middle)) =
      some (String.ofList middle) := by
    rw [slice?_eq_some_iff, String.toList_ofList]
    exact ⟨before, after, h, rfl, rfl⟩
  rw [slice, hslice]

/-- A token is a slice of a text exactly if the text has the token's text at its span. -/
theorem slice?_span_iff : slice? source t.span.start t.span.stop = some t.text ↔
    t.IsSlice source := by
  rw [slice?_eq_some_iff]
  constructor
  · rintro ⟨before, after, hsource, hstart, hstop⟩
    refine ⟨String.ofList before, String.ofList after, ?_, ?_⟩
    · apply String.toList_injective
      rw [hsource, String.toList_append, String.toList_append, String.toList_ofList,
        String.toList_ofList, List.append_assoc]
    · rw [String.utf8ByteSize_append, utf8ByteSize_ofList, ← byteLength_toList t.text,
        ← byteLength_append, hstart, hstop]
  · rintro ⟨before, after, rfl, hspan⟩
    refine ⟨before.toList, after.toList, ?_, ?_, ?_⟩
    · rw [String.toList_append, String.toList_append, List.append_assoc]
    · rw [byteLength_toList, hspan]
    · rw [← String.toList_append, byteLength_toList, hspan]

end Slices

namespace Position

/-- Goes over the characters in front of an offset. Counts the lines, and keeps where the last of
them starts; the text begins at `here`. -/
def findLine (offset line lineStart here : Nat) : List Char → Except MachineFault (Nat × Nat)
  | [] => .ok (line, lineStart)
  | c :: text =>
    if offset ≤ here then .ok (line, lineStart)
    else if c = '\n' then do
      findLine offset (← Word.add line 1) (← Word.add here 1) (here + c.utf8Size) text
    else findLine offset line lineStart (here + c.utf8Size) text

/-- The position of an offset on the line that starts at `lineStart`. Inside a character the bytes
count instead of the characters. -/
def onLine (source : String) (offset line lineStart : Nat) : Except MachineFault Position := do
  let bytes ← Word.sub offset lineStart
  let count := ((slice? source lineStart offset).map (·.length)).getD bytes
  return ⟨line, ← Word.add count 1⟩

def find (source : String) (offset : Nat) : Except MachineFault Position := do
  let offset := min offset source.utf8ByteSize
  let (line, lineStart) ← findLine offset 1 0 0 source.toList
  onLine source offset line lineStart

section Find

variable {source : String} {front current text : List Char} {c : Char} {offset line left : Nat}

/-- Between two characters of a line the column is one more than the characters in front of it. -/
theorem onLine_eq (hsize : source.utf8ByteSize + 1 < Word.size)
    (hsource : source.toList = front ++ (current ++ text)) :
    onLine source (byteLength (front ++ current)) line (byteLength front) =
      .ok ⟨line, current.length + 1⟩ := by
  have hslice : slice? source (byteLength front) (byteLength (front ++ current)) =
      some (String.ofList current) := by
    rw [slice?_eq_some_iff, String.toList_ofList]
    exact ⟨front, text, hsource, rfl, rfl⟩
  have htotal : byteLength front + (byteLength current + byteLength text) =
      source.utf8ByteSize := by
    rw [← byteLength_append, ← byteLength_append, ← hsource, byteLength_toList]
  have hlength := length_le_byteLength current
  have hsub : Word.sub (byteLength (front ++ current)) (byteLength front) =
      .ok (byteLength (front ++ current) - byteLength front) :=
    Word.sub_eq (by rw [byteLength_append]; omega)
  have hadd : Word.add current.length 1 = .ok (current.length + 1) := Word.add_eq (by omega)
  rw [onLine, hsub, hslice]
  simp only [ok_bind, Option.map_some, Option.getD_some, String.length_ofList, hadd]
  rfl

/-- Inside a character there is no boundary, so there is no slice up to there. -/
theorem slice?_inside (hsource : source.toList = front ++ (current ++ c :: text)) (hpos : 0 < left)
    (hleft : left < c.utf8Size) :
    slice? source (byteLength front) (byteLength (front ++ current) + left) = none := by
  rw [Option.eq_none_iff_forall_ne_some]
  intro piece hpiece
  obtain ⟨before, after, htext, -, hstop⟩ := slice?_eq_some_iff.mp hpiece
  -- The slice would end behind `current`, but not with a part of the next character.
  have hsplit : (front ++ current) ++ c :: text = (before ++ piece.toList) ++ after := by
    rw [List.append_assoc, List.append_assoc, ← hsource, htext]
  obtain ⟨mid, hmid, hrest⟩ := Segment.exists_append_of_byteLength_le hsplit (by omega)
  rw [hmid, byteLength_append] at hstop
  cases mid with
  | nil =>
    rw [byteLength_nil] at hstop
    omega
  | cons d mid =>
    rw [List.cons_append] at hrest
    obtain ⟨rfl, -⟩ := List.cons.inj hrest
    rw [byteLength_cons] at hstop
    omega

/-- In the middle of a character the bytes of the line are counted instead. -/
theorem onLine_inside (hsize : source.utf8ByteSize + 1 < Word.size)
    (hsource : source.toList = front ++ (current ++ c :: text)) (hpos : 0 < left)
    (hleft : left < c.utf8Size) :
    onLine source (byteLength (front ++ current) + left) line (byteLength front) =
      .ok ⟨line, byteLength current + left + 1⟩ := by
  have htotal : byteLength front + (byteLength current + (c.utf8Size + byteLength text)) =
      source.utf8ByteSize := by
    rw [← byteLength_cons, ← byteLength_append, ← byteLength_append, ← hsource, byteLength_toList]
  have hbytes : byteLength (front ++ current) + left - byteLength front =
      byteLength current + left := by
    rw [byteLength_append]
    omega
  have hsub : Word.sub (byteLength (front ++ current) + left) (byteLength front) =
      .ok (byteLength current + left) := by
    rw [Word.sub_eq (by rw [byteLength_append]; omega), hbytes]
  have hadd : Word.add (byteLength current + left) 1 = .ok (byteLength current + left + 1) :=
    Word.add_eq (by omega)
  rw [onLine, hsub, slice?_inside hsource hpos hleft]
  simp only [ok_bind, Option.map_none, Option.getD_none, hadd]
  rfl

theorem findLine_done {lineStart here : Nat} (h : offset ≤ here) :
    findLine offset line lineStart here text = .ok (line, lineStart) := by
  cases text with
  | nil => rfl
  | cons c text => exact if_pos h

/-- The position is found by a walk through the text. Behind the lines `front` and the part
`current` of a line, `text` is still to be gone through. -/
theorem findLine_eq (front current text : List Char) (line : Nat)
    (hsize : source.utf8ByteSize + 1 < Word.size)
    (hoffset : offset ≤ source.utf8ByteSize) (hsource : source.toList = front ++ (current ++ text))
    (hhere : byteLength (front ++ current) ≤ offset) (hline : line ≤ byteLength front + 1) :
    (findLine offset line (byteLength front) (byteLength (front ++ current)) text >>=
      fun (line, lineStart) => onLine source offset line lineStart) =
      .ok (walk line current.length (byteLength current)
        (offset - byteLength (front ++ current)) text) := by
  -- `front` holds the lines passed and `current` the characters passed on this one; what the
  -- machine counts are their lengths in bytes, which the source bounds.
  induction text generalizing front current line with
  | nil =>
    have htotal : byteLength (front ++ current) = source.utf8ByteSize := by
      rw [← byteLength_toList, hsource, List.append_nil]
    obtain rfl : offset = byteLength (front ++ current) := by omega
    rw [findLine, ok_bind, Nat.sub_self, walk_here]
    exact onLine_eq hsize hsource
  | cons c text ih =>
    have hsplit : source.toList = front ++ (current ++ [c]) ++ text := by
      rw [hsource, List.append_assoc, List.append_assoc, List.singleton_append]
    have hnext : byteLength (front ++ (current ++ [c])) =
        byteLength (front ++ current) + c.utf8Size := by
      rw [← List.append_assoc, byteLength_append _ [c]]
      rfl
    have htotal : byteLength (front ++ (current ++ [c])) + byteLength text =
        source.utf8ByteSize := by
      rw [← byteLength_append, ← hsplit, byteLength_toList]
    have hpos := c.utf8Size_pos
    obtain ⟨left, rfl⟩ := Nat.exists_eq_add_of_le hhere
    rw [Nat.add_sub_cancel_left]
    by_cases hzero : left = 0
    · subst hzero
      rw [Nat.add_zero, findLine_done (Nat.le_refl _), ok_bind, walk_here]
      exact onLine_eq hsize hsource
    · rw [findLine, if_neg (by omega)]
      split
      case isTrue hc =>
        -- The next line starts behind the line feed.
        subst hc
        have hone : '\n'.utf8Size = 1 := by decide
        have hfront : byteLength front ≤ byteLength (front ++ current) := by
          rw [byteLength_append]
          omega
        have hline' : Word.add line 1 = .ok (line + 1) := Word.add_eq (by omega)
        have hstart : Word.add (byteLength (front ++ current)) 1 =
            .ok (byteLength (front ++ (current ++ ['\n']))) := by
          rw [Word.add_eq (by omega), hnext, hone]
        have hrest := ih (front ++ (current ++ ['\n'])) [] (line + 1) hsplit
          (by rw [List.append_nil]; omega) (by omega)
        rw [List.append_nil] at hrest
        obtain ⟨rest, rfl⟩ : ∃ rest, left = 1 + rest := Nat.exists_eq_add_of_le (by omega)
        rw [hline', ok_bind, hstart, ok_bind, ← hnext, hrest, walk_lineFeed]
        congr 2
        omega
      case isFalse hc =>
        by_cases hinside : left < c.utf8Size
        · -- Inside a character the walk ends, and the line is the last one.
          rw [findLine_done (by omega), ok_bind, walk, if_neg hzero, if_pos hinside]
          exact onLine_inside hsize hsource (by omega) hinside
        · obtain ⟨rest, rfl⟩ : ∃ rest, left = c.utf8Size + rest :=
            Nat.exists_eq_add_of_le (by omega)
          have hrest := ih front (current ++ [c]) line
            (by rw [hsplit, List.append_assoc]) (by omega) hline
          rw [← hnext, hrest, walk_cons hc, List.length_append, byteLength_append]
          congr 2
          omega

/-- No offset meets a fault. -/
theorem find_eq (hsize : source.utf8ByteSize + 1 < Word.size) (offset : Nat) :
    find source offset = .ok (ofOffset source offset) := by
  have hfind := findLine_eq [] [] source.toList 1 hsize
    (Nat.min_le_right offset source.utf8ByteSize) rfl (Nat.zero_le _) (Nat.le_refl 1)
  rw [find]
  refine hfind.trans ?_
  rw [ofOffset]
  rcases Nat.le_total offset source.utf8ByteSize with hle | hle
  · rw [Nat.min_eq_left hle]
    rfl
  · rw [Nat.min_eq_right hle, walk_beyond _ 1 0 0 (by rw [byteLength_toList]; exact hle),
      byteLength_toList]
    rfl

end Find
end Position

section Errors

def Category.findTag (c : Category) : Except MachineFault String := do
  return (← entry Category.all c).tag

def Expectation.compose (e : Expectation) : Except MachineFault String := do
  let kind ← e.category.findTag
  match e.text with
  | some text => return kind ++ " '" ++ text ++ "'"
  | none => return kind

def Wanted.compose : Wanted → Except MachineFault String
  | .token e => e.compose
  | .phrase text => .ok text

def SyntaxError.compose : SyntaxError → Except MachineFault String
  | .expectedToken wanted found => do
    if found.category ≠ wanted.category then
      let wantedKind ← wanted.category.findTag
      let foundKind ← found.category.findTag
      return "Expected " ++ wantedKind ++ ", found " ++ foundKind ++ " '" ++ found.text ++ "'"
    else
      return "Expected '" ++ wanted.text.getD "" ++ "', found '" ++ found.text ++ "'"
  | .endOfInput wanted => do
    return "Expected " ++ (← wanted.compose) ++ ", but reached end of input"
  | e => .ok e.message

def Span.mark (s : Span) : Except MachineFault Label := do
  let length ← if s.stop < s.start then pure 0 else Word.sub s.stop s.start
  return ⟨s.start, length⟩

namespace Diagnostic

def build (e : SyntaxError) : Except MachineFault Diagnostic := do
  let _message ← e.compose
  let label ← match e.token? with
    | some t => some <$> t.span.mark
    | none => pure none
  return ⟨e, e.hint?, label⟩

def pointTo (d : Diagnostic) (offset : Nat) : Except MachineFault Diagnostic := do
  if d.error.token? = none then return { d with label := some (← (Span.point offset).mark) }
  else return d

end Diagnostic

def Finding.find (source : String) (d : Diagnostic) : Except MachineFault Finding := do
  match d.error.token? with
  | some t => return ⟨d, .token t.span (← Position.find source t.span.start)⟩
  | none =>
    let offset := source.utf8ByteSize
    return ⟨d, .endOfInput offset (← Position.find source offset)⟩

theorem Category.findTag_eq (c : Category) : c.findTag = .ok c.tag := by
  rw [findTag, entry_eq c.mem_all]
  rfl

theorem Expectation.compose_eq (e : Expectation) : e.compose = .ok e.describe := by
  rw [compose, describe, Category.findTag_eq, ok_bind]
  cases e.text with
  | none => rfl
  | some text => rfl

theorem Wanted.compose_eq (w : Wanted) : w.compose = .ok w.describe := by
  cases w with
  | token e => exact e.compose_eq
  | phrase text => rfl

/-- Every kind has a name, so every message can be put together. -/
theorem SyntaxError.compose_eq (e : SyntaxError) : e.compose = .ok e.message := by
  cases e with
  | expectedToken wanted found =>
    by_cases hkinds : found.category ≠ wanted.category
    · have hmessage : message (.expectedToken wanted found) = "Expected " ++ wanted.category.tag ++
          ", found " ++ found.category.tag ++ " '" ++ found.text ++ "'" := if_pos hkinds
      rw [hmessage, compose, if_pos hkinds, Category.findTag_eq, Category.findTag_eq]
      rfl
    · have hmessage : message (.expectedToken wanted found) =
          "Expected '" ++ wanted.text.getD "" ++ "', found '" ++ found.text ++ "'" := if_neg hkinds
      rw [hmessage, compose, if_neg hkinds]
      rfl
  | endOfInput wanted =>
    have hmessage : message (.endOfInput wanted) =
        "Expected " ++ wanted.describe ++ ", but reached end of input" := rfl
    rw [hmessage, compose, Wanted.compose_eq]
    rfl
  | unknownKeyword _ | unexpectedToken _ | expectedDeclarator _ | undeclaredVariable _
  | invalidExpression _ => rfl

/-- Spans that end before they start are labelled too. -/
theorem Span.mark_eq (s : Span) : s.mark = .ok s.label := by
  rw [mark, label, length]
  split
  · next hlt =>
    rw [Nat.sub_eq_zero_of_le (Nat.le_of_lt hlt)]
    rfl
  · next hle =>
    rw [Word.sub_eq (Nat.le_of_not_lt hle)]
    rfl

namespace Diagnostic

theorem build_eq (e : SyntaxError) : build e = .ok (ofError e) := by
  rw [build, ofError, e.compose_eq, ok_bind]
  cases e.token? with
  | none => rfl
  | some t =>
    dsimp only
    rw [t.span.mark_eq]
    rfl

theorem pointTo_eq (d : Diagnostic) (offset : Nat) :
    d.pointTo offset = .ok (d.withEndOfInput offset) := by
  rw [pointTo, withEndOfInput, Span.mark_eq]
  split <;> rfl

end Diagnostic

theorem Finding.find_eq {source : String} (hsize : source.utf8ByteSize + 1 < Word.size)
    (d : Diagnostic) : find source d = .ok (ofDiagnostic source d) := by
  rw [find, ofDiagnostic, Location.ofError]
  cases d.error.token? with
  | none =>
    dsimp only
    rw [Position.find_eq hsize]
    rfl
  | some t =>
    dsimp only
    rw [Position.find_eq hsize]
    rfl

end Errors
end Gloss
