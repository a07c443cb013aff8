/-! The likeness of two words is the mean of three shares: the common characters in the first word,
those in the second, and those of the common characters that stand in the same order. -/
namespace Gloss.Similarity

/-- Marks the first free place among those from `low` to `high` that holds a character. The places
of `word` are counted from `place` on, and the marked ones are not free. -/
def claim (c : Char) (low high : Nat) (place : Nat) :
    List (Char × Bool) → Option (List (Char × Bool))
  | [] => none
  | (d, marked) :: word =>
    if low ≤ place && place ≤ high && d = c && !marked then some ((d, true) :: word)
    else (claim c low high (place + 1) word).map ((d, marked) :: ·)

/-- The characters of `first` that have a partner in `second`, and `second` with the partners
marked. A partner is at most `window` places away; `place` counts the places of `first`. -/
def pair (window place : Nat) (second : List (Char × Bool)) :
    List Char → List Char × List (Char × Bool)
  | [] => ([], second)
  | c :: first =>
    match claim c (place - window) (place + window) 0 second with
    | some second =>
      let (common, second) := pair window (place + 1) second first
      (c :: common, second)
    | none => pair window (place + 1) second first

def window (m n : Nat) : Nat := max m n / 2 - 1

/-- Whether two words are alike to seven tenths or more. -/
def isAlike (first second : String) : Bool :=
  let m := first.length
  let n := second.length
  let (common, marked) := pair (window m n) 0 (second.toList.map (·, false)) first.toList
  let partners := (marked.filter (·.2)).map (·.1)
  let shared := common.length
  let moved := ((common.zip partners).filter fun (c, d) => c ≠ d).length / 2
  -- The mean of the shares is compared with 7 / 10, after multiplying by all denominators.
  shared ≠ 0 &&
    21 * (m * n * shared)
      ≤ 10 * (shared * shared * n + shared * shared * m + (shared - moved) * (m * n))

end Gloss.Similarity
