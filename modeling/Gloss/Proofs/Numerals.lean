namespace Gloss.Numeral

def digit? (c : Char) : Option Nat :=
  if '0' ≤ c ∧ c ≤ '9' then some (c.toNat - '0'.toNat)
  else if 'a' ≤ c ∧ c ≤ 'f' then some (c.toNat - 'a'.toNat + 10)
  else if 'A' ≤ c ∧ c ≤ 'F' then some (c.toNat - 'A'.toNat + 10)
  else none

def addDigit (base n : Nat) (c : Char) : Option Nat :=
  match digit? c with
  | some d => if d < base then some (base * n + d) else none
  | none => none

def value? (base : Nat) (digits : List Char) : Option Nat :=
  if digits.isEmpty then none else digits.foldlM (addDigit base) 0

def char? (n : Nat) : Option Char := if (Char.ofNat n).toNat = n then some (Char.ofNat n) else none

variable {base n m : Nat} {c : Char} {digits : List Char}

theorem char?_toNat (c : Char) : char? c.toNat = some c := by
  rw [char?, Char.ofNat_toNat, if_pos rfl]

theorem digit?_digitChar {d : Nat} (h : d < 16) : digit? (Nat.digitChar d) = some d := by
  have hall : ∀ d < 16, digit? (Nat.digitChar d) = some d := by decide
  exact hall d h

theorem addDigit_digitChar {d : Nat} (hd : d < base) (hbase : base ≤ 16) :
    addDigit base n (Nat.digitChar d) = some (base * n + d) := by
  rw [addDigit, digit?_digitChar (Nat.lt_of_lt_of_le hd hbase)]
  exact if_pos hd

theorem addDigit_eq_none (h : digit? c = none) : addDigit base n c = none := by
  rw [addDigit, h]

/-- The digits of a number to a base between two and sixteen lead to the number. -/
theorem foldlM_addDigit (hlow : 1 < base) (hhigh : base ≤ 16) (n : Nat) :
    (Nat.toDigits base n).foldlM (addDigit base) 0 = some n := by
  induction n using Nat.strongRecOn with
  | ind n ih =>
    by_cases hn : n < base
    · rw [Nat.toDigits_of_lt_base hn, List.foldlM_cons, addDigit_digitChar hn hhigh]
      simp
    · have hmod : n % base < base := Nat.mod_lt n (Nat.zero_lt_of_lt hlow)
      have hdiv : n / base < n := Nat.div_lt_self (by omega) hlow
      rw [Nat.toDigits_of_base_le hlow (Nat.le_of_not_lt hn), List.foldlM_append, ih _ hdiv]
      rw [Option.bind_eq_bind, Option.bind_some, List.foldlM_cons, addDigit_digitChar hmod hhigh,
        Nat.div_add_mod]
      rfl

theorem value?_toDigits (hlow : 1 < base) (hhigh : base ≤ 16) (n : Nat) :
    value? base (Nat.toDigits base n) = some n := by
  rw [value?, if_neg (by simp [Nat.toDigits_ne_nil]), foldlM_addDigit hlow hhigh]

/-- What is not a digit cannot be passed. -/
theorem digit?_ne_none_of_mem (h : digits.foldlM (addDigit base) n = some m) :
    ∀ c ∈ digits, digit? c ≠ none := by
  induction digits generalizing n with
  | nil => exact fun c hc => absurd hc List.not_mem_nil
  | cons d digits ih =>
    rw [List.foldlM_cons] at h
    obtain ⟨n', hd, hdigits⟩ := Option.bind_eq_some_iff.mp h
    rintro c hc hnone
    rcases List.mem_cons.mp hc with rfl | hc
    · rw [addDigit_eq_none hnone] at hd
      cases hd
    · exact ih hdigits c hc hnone

theorem not_mem_toDigits (hlow : 1 < base) (hhigh : base ≤ 16) (h : digit? c = none) :
    c ∉ Nat.toDigits base n :=
  fun hmem => digit?_ne_none_of_mem (foldlM_addDigit hlow hhigh n) c hmem h

end Gloss.Numeral
