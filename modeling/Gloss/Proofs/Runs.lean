import Gloss.Lexeme

namespace Gloss

variable {p : Char → Bool} {run text : List Char} {n : Nat}

theorem mem_takeWhile : ∀ y ∈ text.takeWhile p, p y := by
  have hall := List.all_takeWhile (p := p) (l := text)
  exact List.all_eq_true.mp hall

theorem drop_takeWhile_length : text.drop (text.takeWhile p).length = text.dropWhile p := by
  have h := congrArg (List.drop (text.takeWhile p).length)
    (List.takeWhile_append_dropWhile (p := p) (l := text))
  rw [List.drop_left] at h
  exact h.symm

theorem take_takeWhile_length : text.take (text.takeWhile p).length = text.takeWhile p :=
  (List.prefix_iff_eq_take.mp (List.takeWhile_prefix p)).symm

/-- Behind a run there is no character of its class. -/
theorem any_drop_takeWhile : (text.drop (text.takeWhile p).length).head?.any p = false := by
  rw [drop_takeWhile_length]
  have h := List.head?_dropWhile_not p text
  cases hx : (text.dropWhile p).head? with
  | none => rfl
  | some x =>
    rw [hx] at h
    simpa using h

/-- Inside a run there is a character of its class at every place. -/
theorem any_drop_of_lt (h : n < (text.takeWhile p).length) : (text.drop n).head?.any p = true := by
  have hget : text[n]? = (text.takeWhile p)[n]? := by
    rw [← List.takeWhile_append_dropWhile (p := p) (l := text), List.getElem?_append_left h,
      List.takeWhile_append_dropWhile]
  rw [List.head?_drop, hget, List.getElem?_eq_getElem h, Option.any_some]
  exact mem_takeWhile _ (List.getElem_mem h)

theorem takeWhile_run (hrun : ∀ y ∈ run, p y) (hend : text.head?.any p = false) :
    (run ++ text).takeWhile p = run := by
  have hnil : text.takeWhile p = [] := by
    cases text with
    | nil => rfl
    | cons y text => exact List.takeWhile_cons_of_neg (Bool.eq_false_iff.mp hend)
  rw [List.takeWhile_append_of_pos hrun, hnil, List.append_nil]

theorem dropWhile_run (hrun : ∀ y ∈ run, p y) (hend : text.head?.any p = false) :
    (run ++ text).dropWhile p = text := by
  rw [← drop_takeWhile_length, takeWhile_run hrun hend, List.drop_left]

theorem endsWord_iff : Lexeme.endsWord text ↔ text.head?.any isWordChar = false := by
  rw [Lexeme.endsWord, Bool.not_eq_true']

theorem endsWord_dropWhile (text : List Char) :
    Lexeme.endsWord (text.dropWhile isWordChar) := by
  rw [endsWord_iff, ← drop_takeWhile_length]
  exact any_drop_takeWhile

end Gloss
