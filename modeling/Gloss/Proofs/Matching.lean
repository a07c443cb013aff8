import Gloss.Pattern
import Gloss.Proofs.Runs
import Gloss.Text

namespace Gloss

def insideAfter (insideWord : Bool) : List Char → Bool
  | [] => insideWord
  | x :: text => insideAfter (isWordChar x) text

namespace Pattern

/-- The lengths that a pattern matches at the front of a text, the preferred ones first. -/
@[grind =]
def lengths (insideWord : Bool) (text : List Char) : Pattern → List Nat
  | literal word => if word.toList.isPrefixOf text then [word.toList.length] else []
  | one c => if text.head?.any c.has then [1] else []
  | star c => (List.range ((text.takeWhile c.has).length + 1)).reverse
  | plus c => (List.range (text.takeWhile c.has).length).reverse.map (· + 1)
  | wordEdge => if insideWord != text.head?.any isWordChar then [0] else []
  | seq p q => (p.lengths insideWord text).flatMap fun n =>
      (q.lengths (insideAfter insideWord (text.take n)) (text.drop n)).map (n + ·)
  | either p q => p.lengths insideWord text ++ q.lengths insideWord text
  | group p => p.lengths insideWord text
  | optional p => p.lengths insideWord text ++ [0]

def first? (p : Pattern) (insideWord : Bool) (text : List Char) : Option Nat :=
  (p.lengths insideWord text).head?

/-- The matches in a text from left to right, each with its offset. A search goes on behind the
match before; an empty match is dropped, and the search goes on one character further. -/
def findAll (p : Pattern) (insideWord : Bool) (offset : Nat) (text : List Char) :
    List (Nat × List Char) :=
  match text with
  | [] => []
  | x :: rest =>
    match p.first? insideWord (x :: rest) with
    | some (n + 1) =>
      let found := x :: rest.take n
      (offset, found) :: p.findAll (insideAfter insideWord found) (offset + byteLength found)
        (rest.drop n)
    | some 0 | none => p.findAll (isWordChar x) (offset + x.utf8Size) rest
termination_by text.length

end Pattern

theorem findSome?_range_reverse {β : Type} {f : Nat → Option β} {k : Nat}
    (h : ∀ n, n < k → f n = none) : (List.range (k + 1)).reverse.findSome? f = f k := by
  rw [List.range_succ, List.reverse_append, List.reverse_singleton, List.singleton_append,
    List.findSome?_cons]
  cases hk : f k with
  | some b => rfl
  | none =>
    rw [List.findSome?_eq_none_iff]
    intro n hn
    rw [List.mem_reverse, List.mem_range] at hn
    exact h n hn

theorem findSome?_flatMap {α β γ : Type} {f : α → List β} {g : β → Option γ} {l : List α} :
    (l.flatMap f).findSome? g = l.findSome? fun a => (f a).findSome? g := by
  induction l with
  | nil => rfl
  | cons a l ih =>
    rw [List.flatMap_cons, List.findSome?_append, List.findSome?_cons, ih]
    cases (f a).findSome? g <;> rfl

section InsideAfter

variable {a b : List Char} {insideWord : Bool}

theorem insideAfter_append :
    insideAfter insideWord (a ++ b) = insideAfter (insideAfter insideWord a) b := by
  induction a generalizing insideWord with
  | nil => rfl
  | cons x a ih => exact ih

theorem insideAfter_of_word (h : ∀ x ∈ a, isWordChar x) (ha : insideWord = true ∨ a ≠ []) :
    insideAfter insideWord a = true := by
  induction a generalizing insideWord with
  | nil => exact ha.resolve_right fun hne => hne rfl
  | cons x a ih =>
    rw [insideAfter]
    exact ih (fun y hy => h y (List.mem_cons_of_mem x hy)) (Or.inl (h x List.mem_cons_self))

theorem insideAfter_of_not_word (h : ∀ x ∈ a, isWordChar x = false)
    (ha : insideWord = false ∨ a ≠ []) : insideAfter insideWord a = false := by
  induction a generalizing insideWord with
  | nil => exact ha.resolve_right fun hne => hne rfl
  | cons x a ih =>
    rw [insideAfter]
    exact ih (fun y hy => h y (List.mem_cons_of_mem x hy)) (Or.inl (h x List.mem_cons_self))

/-- Behind a run of word characters the place is inside a word. -/
theorem insideAfter_run {p : Char → Bool} (insideWord : Bool) (text : List Char)
    (hp : ∀ x, p x → isWordChar x)
    (h : insideWord = true ∨ (text.takeWhile p).length ≠ 0) :
    insideAfter insideWord (text.takeWhile p) = true := by
  apply insideAfter_of_word
  · intro x hx
    exact hp x (mem_takeWhile x hx)
  · exact h.imp_right fun hne hnil => hne (congrArg List.length hnil)

theorem insideAfter_take_run {p : Char → Bool} {text : List Char} {n : Nat}
    (hp : ∀ x, p x → isWordChar x) (hn : n ≤ (text.takeWhile p).length)
    (h : insideWord = true ∨ 0 < n) : insideAfter insideWord (text.take n) = true := by
  have hsplit := List.takeWhile_append_dropWhile (p := p) (l := text)
  have htake : text.take n = (text.takeWhile p).take n :=
    (congrArg (List.take n) hsplit).symm.trans (List.take_append_of_le_length hn)
  -- A part of the run is a run itself.
  rw [htake]
  apply insideAfter_of_word
  · intro x hx
    exact hp x (mem_takeWhile x (List.mem_of_mem_take hx))
  · refine h.imp_right fun hpos hnil => ?_
    have hlength := congrArg List.length hnil
    rw [List.length_take, List.length_nil] at hlength
    omega

end InsideAfter

namespace Pattern

variable {p q r : Pattern} {c : CharClass} {insideWord : Bool} {x : Char} {text rest : List Char}

theorem first?_seq : (seq p q).first? insideWord text =
    (p.lengths insideWord text).findSome? fun n =>
      (q.first? (insideAfter insideWord (text.take n)) (text.drop n)).map (n + ·) := by
  simp only [first?, lengths, List.head?_flatMap, List.head?_map]

theorem first?_either : (either p q).first? insideWord text =
    (p.first? insideWord text).or (q.first? insideWord text) :=
  List.head?_append

theorem first?_optional_seq : (seq (optional p) q).first? insideWord text =
    ((seq p q).first? insideWord text).or (q.first? insideWord text) := by
  rw [first?_seq, first?_seq, lengths, List.findSome?_append]
  simp [insideAfter]

theorem first?_seq_assoc :
    (seq (seq p q) r).first? insideWord text = (seq p (seq q r)).first? insideWord text := by
  simp only [first?, lengths, List.flatMap_assoc, List.flatMap_map, List.map_flatMap,
    List.map_map, List.take_add, insideAfter_append, List.drop_drop]
  -- Both sides go through the lengths of the three parts in one order, and add them up.
  congr
  funext n
  congr
  funext m
  congr
  funext k
  exact Nat.add_assoc n m k

/-- Inside a word no pattern matches that begins at the edge of a word with a word character. -/
theorem first?_word (h : text.head?.any isWordChar = false → q.first? insideWord text = none) :
    (seq wordEdge q).first? insideWord text =
      if insideWord then none else q.first? insideWord text := by
  rw [first?_seq, lengths]
  -- With a word character ahead there is an edge exactly if none has been passed.
  cases hx : text.head?.any isWordChar with
  | false => cases insideWord <;> simp [h hx, insideAfter]
  | true => cases insideWord <;> simp [insideAfter]

theorem first?_one_seq : (seq (one c) q).first? insideWord (x :: rest) =
    if c.has x then (q.first? (isWordChar x) rest).map (1 + ·) else none := by
  rw [first?_seq, lengths, List.head?_cons, Option.any_some]
  cases c.has x <;> simp [insideAfter]

theorem first?_literal_seq {word : String} (h : word.toList = [x]) (y : Char) :
    (seq (literal word) q).first? insideWord (y :: rest) =
      if x = y then (q.first? (isWordChar x) rest).map (1 + ·) else none := by
  rw [first?_seq, lengths, h]
  by_cases hxy : x = y
  · simp [hxy, insideAfter]
  · simp [hxy]

/-- At the end of a repetition that prefers more: the longest, if nothing shorter goes on. -/
theorem first?_star_seq (h : ∀ n, n < (text.takeWhile c.has).length →
      q.first? (insideAfter insideWord (text.take n)) (text.drop n) = none) :
    (seq (star c) q).first? insideWord text =
      (q.first? (insideAfter insideWord (text.takeWhile c.has)) (text.dropWhile c.has)).map
        ((text.takeWhile c.has).length + ·) := by
  rw [first?_seq, lengths, findSome?_range_reverse, drop_takeWhile_length]
  · rw [take_takeWhile_length]
  · -- Where the repetition stops earlier, nothing goes on.
    intro n hn
    rw [h n hn]
    rfl

/-- A run of one class is taken whole if what follows could match behind no shorter part of it. -/
theorem first?_plus_seq (h : ∀ n, 0 < n → n < (text.takeWhile c.has).length →
      q.first? (insideAfter insideWord (text.take n)) (text.drop n) = none) :
    (seq (plus c) q).first? insideWord text =
      if (text.takeWhile c.has).length = 0 then none
      else (q.first? (insideAfter insideWord (text.takeWhile c.has)) (text.dropWhile c.has)).map
        ((text.takeWhile c.has).length + ·) := by
  rw [first?_seq, lengths, List.findSome?_map]
  -- The longest run is tried first, and all shorter ones fail by hypothesis.
  cases hk : (text.takeWhile c.has).length with
  | zero => rfl
  | succ k =>
    rw [findSome?_range_reverse, if_neg (Nat.succ_ne_zero k), Function.comp_apply, ← hk,
      drop_takeWhile_length]
    · rw [take_takeWhile_length]
    · intro n hn
      rw [Function.comp_apply, h (n + 1) (Nat.succ_pos n) (by omega)]
      rfl

theorem first?_wordEdge : wordEdge.first? true text =
    if Lexeme.endsWord text then some 0 else none := by
  rw [first?, lengths, Lexeme.endsWord]
  cases text.head?.any isWordChar <;> rfl

end Pattern

end Gloss
