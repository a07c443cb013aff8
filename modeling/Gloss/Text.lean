namespace Gloss

def byteLength (text : List Char) : Nat := text.foldr (·.utf8Size + ·) 0

@[simp]
theorem byteLength_nil : byteLength [] = 0 := rfl

@[simp]
theorem byteLength_cons (c : Char) (text : List Char) :
    byteLength (c :: text) = c.utf8Size + byteLength text := rfl

@[simp]
theorem byteLength_append (a b : List Char) :
    byteLength (a ++ b) = byteLength a + byteLength b := by
  induction a with
  | nil => rw [List.nil_append, byteLength_nil, Nat.zero_add]
  | cons c a ih => rw [List.cons_append, byteLength_cons, byteLength_cons, ih, Nat.add_assoc]

theorem utf8ByteSize_ofList (text : List Char) :
    (String.ofList text).utf8ByteSize = byteLength text := by
  induction text with
  | nil => simp [String.ofList_nil]
  | cons c text ih =>
    have split : String.ofList (c :: text) = String.ofList [c] ++ String.ofList text := by
      rw [← String.ofList_append]; rfl
    have one : (String.ofList [c]).utf8ByteSize = c.utf8Size := by
      rw [← String.singleton_eq_ofList, String.utf8ByteSize_singleton]
    rw [split, String.utf8ByteSize_append, one, ih, byteLength_cons]

@[simp]
theorem byteLength_toList (s : String) : byteLength s.toList = s.utf8ByteSize := by
  rw [← utf8ByteSize_ofList, String.ofList_toList]

theorem byteLength_eq_zero_iff {text : List Char} : byteLength text = 0 ↔ text = [] := by
  cases text with
  | nil => simp
  | cons c text => have := c.utf8Size_pos; simp; omega

/-- No character takes less than a byte. -/
theorem length_le_byteLength (text : List Char) : text.length ≤ byteLength text := by
  induction text with
  | nil => exact Nat.le_refl 0
  | cons c text ih =>
    have hpos := c.utf8Size_pos
    rw [List.length_cons, byteLength_cons]
    omega

/-- Cuts a text behind its first `bytes` bytes; none in the middle of a character or beyond the
end. The characters in `taken` are put in front, last first. -/
def cutAfter? (taken : List Char) (bytes : Nat) (text : List Char) :
    Option (List Char × List Char) :=
  match text with
  | [] => if bytes = 0 then some (taken.reverse, []) else none
  | c :: rest =>
    if bytes = 0 then some (taken.reverse, text)
    else if bytes < c.utf8Size then none
    else cutAfter? (c :: taken) (bytes - c.utf8Size) rest

theorem cutAfter?_byteLength (taken a b : List Char) :
    cutAfter? taken (byteLength a) (a ++ b) = some (taken.reverse ++ a, b) := by
  induction a generalizing taken with
  | nil => cases b <;> simp [cutAfter?]
  | cons c a ih =>
    have := c.utf8Size_pos
    rw [List.cons_append, cutAfter?, if_neg (by rw [byteLength_cons]; omega),
      if_neg (by rw [byteLength_cons]; omega), byteLength_cons, Nat.add_sub_cancel_left, ih]
    simp

/-- A text is cut into two parts exactly if they join to it and the first has the right length. -/
theorem cutAfter?_eq_some_iff {bytes : Nat} {text a b : List Char} :
    cutAfter? [] bytes text = some (a, b) ↔ text = a ++ b ∧ byteLength a = bytes := by
  refine ⟨fun h => ?_, fun ⟨joined, length⟩ => ?_⟩
  · suffices general : ∀ taken a, cutAfter? taken bytes text = some (a, b) →
        ∃ front, a = taken.reverse ++ front ∧ text = front ++ b ∧ byteLength front = bytes by
      obtain ⟨front, rfl, joined, length⟩ := general [] a h
      exact ⟨joined, length⟩
    clear h a
    intro taken a h
    induction text generalizing taken bytes with
    | nil =>
      rw [cutAfter?] at h
      split at h
      · next zero =>
        obtain ⟨rfl, rfl⟩ := Prod.mk.inj (Option.some.inj h)
        exact ⟨[], by simp, rfl, zero.symm⟩
      · exact absurd h nofun
    | cons c rest ih =>
      rw [cutAfter?] at h
      split at h
      · next zero =>
        obtain ⟨rfl, rfl⟩ := Prod.mk.inj (Option.some.inj h)
        exact ⟨[], by simp, rfl, zero.symm⟩
      · split at h
        · exact absurd h nofun
        · obtain ⟨front, rfl, rfl, length⟩ := ih _ h
          exact ⟨c :: front, by simp, rfl, by rw [byteLength_cons]; omega⟩
  · rw [joined, ← length, cutAfter?_byteLength]; rfl

end Gloss
