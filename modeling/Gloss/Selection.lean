import Gloss.Token

namespace Gloss.Selection

/-- The order of choice: an earlier start goes first, and at one start the later end. -/
def precedes (a b : Token) : Bool :=
  a.span.start < b.span.start || (a.span.start = b.span.start && b.span.stop ≤ a.span.stop)

/-- Takes each token in turn that does not start before `edge`, the end of the last one taken. -/
def keep (kept : Array Token) (edge : Nat) : List Token → Array Token
  | [] => kept
  | t :: rest =>
    if edge ≤ t.span.start then keep (kept.push t) t.span.stop rest else keep kept edge rest

/-- What is kept comes after what was kept before. -/
theorem toList_keep (kept : Array Token) (edge : Nat) (tokens : List Token) :
    (keep kept edge tokens).toList = kept.toList ++ (keep #[] edge tokens).toList := by
  induction tokens generalizing kept edge with
  | nil => simp [keep]
  | cons t rest ih =>
    rw [keep, keep]
    split
    · rw [ih (kept.push t), ih (Array.push #[] t)]; simp
    · exact ih ..

theorem precedes_total (a b : Token) : (precedes a b || precedes b a) = true := by
  simp only [precedes, Bool.or_eq_true, Bool.and_eq_true, decide_eq_true_eq]; omega

theorem precedes_trans (a b c : Token) : precedes a b → precedes b c → precedes a c := by
  simp only [precedes, Bool.or_eq_true, Bool.and_eq_true, decide_eq_true_eq]; omega

end Selection

def select (tokens : List Token) : List Token :=
  (Selection.keep #[] 0 (tokens.mergeSort Selection.precedes)).toList

end Gloss
