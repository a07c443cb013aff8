namespace Gloss

/-- The texts that a finite type is written with. Every entry has one, and no two entries share a
text, so each is found by its own. -/
structure Lexicon (α : Type) where
  entries : List α
  spelling : α → String
  complete : ∀ x, x ∈ entries
  distinct : ∀ x ∈ entries, ∀ y ∈ entries, spelling x = spelling y → x = y

namespace Lexicon

variable {α : Type} (l : Lexicon α) {s : String} {x y : α}

def ofSpelling? (s : String) : Option α := l.entries.find? (l.spelling · == s)

theorem spelling_inj : l.spelling x = l.spelling y ↔ x = y :=
  ⟨l.distinct x (l.complete x) y (l.complete y), congrArg l.spelling⟩

/-- An entry is found by its text and by no other. -/
theorem ofSpelling?_eq_some_iff : l.ofSpelling? s = some x ↔ s = l.spelling x := by
  constructor
  · intro h
    have hfound := List.find?_some h
    exact (beq_iff_eq.mp hfound).symm
  · rintro rfl
    rw [ofSpelling?]
    cases h : l.entries.find? (l.spelling · == l.spelling x) with
    | none => simpa using List.find?_eq_none.mp h x (l.complete x)
    | some y =>
      -- What is found first has the same text, and so it is the same entry.
      have hfound := List.find?_some h
      exact congrArg some (l.spelling_inj.mp (beq_iff_eq.mp hfound))

theorem ofSpelling?_spelling (x : α) : l.ofSpelling? (l.spelling x) = some x :=
  l.ofSpelling?_eq_some_iff.mpr rfl

end Lexicon
end Gloss
