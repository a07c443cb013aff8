import Gloss.Position
import Gloss.Text

namespace Gloss

def lines (text : List Char) : List (List Char) := text.splitOn '\n'

/-- The offset that is reached in a text by going to the line of a position and passing the
characters in front of its column: the bytes of the lines before, each with its line feed, and of
those characters. There is none if the text has no such line, or the line ends before. -/
def Position.offset? (source : String) : Position → Option Nat
  | ⟨n + 1, k + 1⟩ =>
    match (lines source.toList)[n]? with
    | some line =>
      if k ≤ line.length then
        some (byteLength (((lines source.toList).take n).flatMap (· ++ ['\n']) ++ line.take k))
      else none
    | none => none
  | _ => none

theorem lines_lineFeed (text : List Char) : lines ('\n' :: text) = [] :: lines text := by
  rw [lines, List.splitOn_cons_eq_if_modifyHead]
  rfl

theorem lines_cons {c : Char} (hc : c ≠ '\n') (text : List Char) :
    lines (c :: text) = (lines text).modifyHead (c :: ·) := by
  rw [lines, List.splitOn_cons_eq_if_modifyHead, beq_false_of_ne hc]
  rfl

theorem exists_first_line (text : List Char) : ∃ line more, lines text = line :: more :=
  List.exists_cons_of_ne_nil (List.splitOn_ne_nil '\n' text)

namespace Position

theorem walk_here (line characters bytes : Nat) (text : List Char) :
    walk line characters bytes 0 text = ⟨line, characters + 1⟩ := by
  cases text <;> rfl

theorem walk_lineFeed (line characters bytes left : Nat) (text : List Char) :
    walk line characters bytes (1 + left) ('\n' :: text) = walk (line + 1) 0 0 left text := by
  have hsize : '\n'.utf8Size = 1 := by decide
  rw [walk, if_neg (by omega), hsize, if_neg (by omega), if_pos rfl, Nat.add_sub_cancel_left]

theorem walk_cons {c : Char} (hc : c ≠ '\n') (line characters bytes left : Nat)
    (text : List Char) : walk line characters bytes (c.utf8Size + left) (c :: text) =
      walk line (characters + 1) (bytes + c.utf8Size) left text := by
  have hpos := c.utf8Size_pos
  rw [walk, if_neg (by omega), if_neg (by omega), if_neg hc, Nat.add_sub_cancel_left]

end Position

/-- A cut in a text stands behind some of its lines and the front of one more. The walk to it counts
the lines, and the characters and the bytes of the front, and goes on from there. -/
theorem exists_lines_cut (before after : List Char) : ∃ passed front rest more,
    lines (before ++ after) = passed ++ (front ++ rest) :: more ∧ lines after = rest :: more ∧
    before = passed.flatMap (· ++ ['\n']) ++ front ∧
    ∀ line characters bytes left,
      Position.walk line characters bytes (byteLength before + left) (before ++ after) =
        Position.walk (line + passed.length)
          ((if passed = [] then characters else 0) + front.length)
          ((if passed = [] then bytes else 0) + byteLength front) left after := by
  -- A character in front belongs to the first line, or ends it.
  induction before with
  | nil =>
    obtain ⟨rest, more, hlines⟩ := exists_first_line after
    refine ⟨[], [], rest, more, hlines, hlines, rfl, fun line characters bytes left => ?_⟩
    rw [byteLength_nil, Nat.zero_add]
    rfl
  | cons c before ih =>
    obtain ⟨passed, front, rest, more, hlines, hafter, hbefore, hwalk⟩ := ih
    by_cases hc : c = '\n'
    · -- The line feed ends the first line; the walk begins anew behind it.
      subst hc
      have hsize : byteLength ('\n' :: before) = 1 + byteLength before := rfl
      refine ⟨[] :: passed, front, rest, more, ?_, hafter, ?_, ?_⟩
      · rw [List.cons_append, lines_lineFeed, hlines, List.cons_append]
      · exact congrArg ('\n' :: ·) hbefore
      · intro line characters bytes left
        rw [List.cons_append, hsize, Nat.add_assoc, Position.walk_lineFeed, hwalk]
        simp only [ite_self, List.length_cons, reduceCtorEq, if_false]
        rw [Nat.add_assoc, Nat.add_comm 1]
    · -- The character stands in front of the first line, whether or not the cut is in that line.
      have hcut := lines_cons hc (before ++ after)
      rw [hlines] at hcut
      cases passed with
      | nil =>
        refine ⟨[], c :: front, rest, more, hcut, hafter, congrArg (c :: ·) hbefore, ?_⟩
        intro line characters bytes left
        rw [List.cons_append, byteLength_cons, Nat.add_assoc, Position.walk_cons hc, hwalk,
          if_pos rfl, if_pos rfl, if_pos rfl, if_pos rfl, List.length_cons, byteLength_cons,
          Nat.add_right_comm characters, Nat.add_assoc characters, Nat.add_assoc bytes]
      | cons first passed =>
        refine ⟨(c :: first) :: passed, front, rest, more, hcut, hafter,
          congrArg (c :: ·) hbefore, ?_⟩
        intro line characters bytes left
        rw [List.cons_append, byteLength_cons, Nat.add_assoc, Position.walk_cons hc, hwalk,
          if_neg (List.cons_ne_nil _ _), if_neg (List.cons_ne_nil _ _),
          if_neg (List.cons_ne_nil _ _), if_neg (List.cons_ne_nil _ _)]
        rfl

/-- The position of a cut has the number of its line, and counts the characters before it there. -/
theorem exists_line_ofOffset {source : String} {before after : List Char}
    (h : source.toList = before ++ after) : ∃ passed front rest more,
    lines source.toList = passed ++ (front ++ rest) :: more ∧ lines after = rest :: more ∧
    before = passed.flatMap (· ++ ['\n']) ++ front ∧
    ∀ left, Position.ofOffset source (byteLength before + left) =
      Position.walk (passed.length + 1) front.length (byteLength front) left after := by
  obtain ⟨passed, front, rest, more, hlines, hafter, hbefore, hwalk⟩ :=
    exists_lines_cut before after
  refine ⟨passed, front, rest, more, by rw [h, hlines], hafter, hbefore, fun left => ?_⟩
  rw [Position.ofOffset, h, hwalk, ite_self, Nat.zero_add, Nat.zero_add, Nat.add_comm 1]

/-- The start of a line, and the bytes of the front of it. -/
theorem offset?_line {source : String} {passed more : List (List Char)} {front rest : List Char}
    (h : lines source.toList = passed ++ (front ++ rest) :: more) :
    (⟨passed.length + 1, front.length + 1⟩ : Position).offset? source =
      some (byteLength (passed.flatMap (· ++ ['\n']) ++ front)) := by
  have hline : (lines source.toList)[passed.length]? = some (front ++ rest) := by
    rw [h]
    simp
  have htake : (lines source.toList).take passed.length = passed := by
    rw [h, List.take_left]
  have hlong : front.length ≤ (front ++ rest).length := by simp
  rw [Position.offset?, hline]
  dsimp only
  rw [if_pos hlong, htake, List.take_left]

/-- The position of a place between two characters leads back to the place. -/
theorem offset?_ofOffset {source : String} {before after : List Char}
    (h : source.toList = before ++ after) :
    (Position.ofOffset source (byteLength before)).offset? source = some (byteLength before) := by
  obtain ⟨passed, front, rest, more, hlines, -, hbefore, hwalk⟩ := exists_line_ofOffset h
  have hposition := hwalk 0
  rw [Nat.add_zero, Position.walk_here] at hposition
  rw [hposition, offset?_line hlines, hbefore]

end Gloss
