import Gloss.Character

namespace Gloss

variable {x : Char}

theorem classes_of_quote (h : isQuote x) :
    CharClass.operator.has x = false ∧ CharClass.bracket.has x = false ∧ isWordChar x = false := by
  simp only [isQuote, Bool.or_eq_true, decide_eq_true_eq] at h
  obtain (rfl | rfl) | rfl := h <;> decide

theorem classes_of_operator (h : CharClass.operator.has x) :
    isQuote x = false ∧ CharClass.bracket.has x = false ∧ isWordChar x = false := by
  simp only [CharClass.has, Bool.or_eq_true, decide_eq_true_eq] at h
  obtain ((((((rfl | rfl) | rfl) | rfl) | rfl) | rfl) | rfl) | rfl := h <;> decide

theorem classes_of_bracket (h : CharClass.bracket.has x) :
    isQuote x = false ∧ CharClass.operator.has x = false ∧ isWordChar x = false := by
  simp only [CharClass.has, Bool.or_eq_true, decide_eq_true_eq] at h
  obtain ((((rfl | rfl) | rfl) | rfl) | rfl) | rfl := h <;> decide

theorem classes_of_word (h : isWordChar x) :
    isQuote x = false ∧ CharClass.operator.has x = false ∧ CharClass.bracket.has x = false := by
  refine ⟨?_, ?_, ?_⟩ <;> apply Bool.eq_false_iff.mpr <;> intro hx
  · exact absurd h (Bool.eq_false_iff.mp (classes_of_quote hx).2.2)
  · exact absurd h (Bool.eq_false_iff.mp (classes_of_operator hx).2.2)
  · exact absurd h (Bool.eq_false_iff.mp (classes_of_bracket hx).2.2)

theorem not_nameStart_of_digit (h : CharClass.digit.has x) : CharClass.nameStart.has x = false := by
  have hdigit : x.val ≤ '9'.val := by
    have hbounds : (x.val ≥ '0'.val && x.val ≤ '9'.val) = true := h
    exact of_decide_eq_true (Bool.and_eq_true_iff.mp hbounds).2
  -- Digits come before letters and the underscore.
  have habove (y : Char) (hy : '9'.val.toNat < y.val.toNat) : ¬y.val ≤ x.val := by
    rw [UInt32.le_iff_toNat_le] at hdigit ⊢
    omega
  have hupper : x.isUpper = false :=
    decide_eq_false fun hbounds => habove 'A' (by decide) hbounds.1
  have hlower : x.isLower = false :=
    Bool.and_eq_false_iff.mpr (Or.inl (decide_eq_false (habove 'a' (by decide))))
  have hunderscore : x ≠ '_' := by
    rintro rfl
    exact habove '_' (by decide) (Nat.le_refl _)
  exact Bool.or_eq_false_iff.mpr
    ⟨Bool.or_eq_false_iff.mpr ⟨hupper, hlower⟩, decide_eq_false hunderscore⟩

theorem not_nameStart_of_not_word (h : isWordChar x = false) : CharClass.nameStart.has x = false :=
  Bool.eq_false_iff.mpr fun hx =>
    Bool.eq_false_iff.mp h (CharClass.has_word_of_has_nameStart hx)

theorem not_digit_of_not_word (h : isWordChar x = false) : CharClass.digit.has x = false :=
  Bool.eq_false_iff.mpr fun hx => Bool.eq_false_iff.mp h (CharClass.has_word_of_has_digit hx)

theorem words_of_digits {run : List Char} (h : ∀ y ∈ run, CharClass.digit.has y) :
    ∀ y ∈ run, isWordChar y := by
  intro y hy
  exact CharClass.has_word_of_has_digit (h y hy)

theorem digit_or_nameStart (h : isWordChar x) :
    CharClass.digit.has x ∨ CharClass.nameStart.has x := by
  simp only [isWordChar, CharClass.has, Char.isAlphanum, Bool.or_eq_true] at h ⊢
  exact h.elim (fun h => h.elim (fun h => Or.inr (Or.inl h)) Or.inl) fun h => Or.inr (Or.inr h)

end Gloss
