import Gloss.Proofs.Choice

namespace Gloss

def Category.rank (c : Category) : Nat := Category.all.idxOf c

namespace Selection

/-- One token keeps another from being chosen. -/
structure Beats (s t : Token) : Prop where
  overlaps : t.span.start < s.span.stop
  first : precedes s t
  higher : precedes t s → s.category.rank < t.category.rank

def Sorted (a b : Token) : Prop :=
  precedes a b ∧ (precedes b a → a.category.rank ≤ b.category.rank)

theorem Beats.not_sorted {s t : Token} (h : Beats s t) : ¬Sorted t s := by
  intro hsorted
  have hlower := hsorted.2 h.first
  have hhigher := h.higher hsorted.1
  omega

theorem start_le_of_precedes {a b : Token} (h : precedes a b) : a.span.start ≤ b.span.start := by
  simp only [precedes, Bool.or_eq_true, Bool.and_eq_true, decide_eq_true_eq] at h
  omega

/-- Sorting leaves tokens with one span in their order. -/
theorem sorted_mergeSort {tokens : List Token}
    (h : tokens.Pairwise fun a b => a.category.rank ≤ b.category.rank) :
    (tokens.mergeSort precedes).Pairwise Sorted :=
  pairwise_mergeSort_of_tied precedes_trans precedes_total (h.imp fun hrank _ _ => hrank)

/-- The first of sorted tokens, once it is chosen, stands first among the chosen. -/
theorem head_eq {s t : Token} {chosen rest : List Token} (hfirst : ∀ x ∈ rest, Sorted t x)
    (hs : s ∈ t :: rest) (hchosen : t ∈ s :: chosen)
    (hbelow : ∀ x ∈ chosen, s.span.stop ≤ x.span.start) (hwide : s.span.start < s.span.stop) :
    s = t := by
  rcases List.mem_cons.mp hchosen with heq | hlater
  · exact heq.symm
  · rcases List.mem_cons.mp hs with heq | hs
    · exact heq
    · have hstart := start_le_of_precedes (hfirst s hs).1
      have hstop := hbelow t hlater
      omega

/-- Going through sorted tokens, exactly those are taken that beat the others. -/
theorem toList_keep_eq {tokens chosen : List Token} {edge : Nat} (hsorted : tokens.Pairwise Sorted)
    (hdisjoint : chosen.Pairwise fun a b => a.span.stop ≤ b.span.start)
    (hwide : ∀ s ∈ chosen, s.span.start < s.span.stop)
    (hedge : ∀ s ∈ chosen, edge ≤ s.span.start)
    (hmem : ∀ s ∈ chosen, s ∈ tokens)
    (hrest : ∀ t ∈ tokens, t ∈ chosen ∨ t.span.start < edge ∨ ∃ s ∈ chosen, Beats s t) :
    (keep #[] edge tokens).toList = chosen := by
  -- The chosen tokens are found in sorted order: the head is the next one, or is passed over.
  induction tokens generalizing chosen edge with
  | nil =>
    cases chosen with
    | nil => rfl
    | cons s chosen => exact absurd (hmem s List.mem_cons_self) List.not_mem_nil
  | cons t rest ih =>
    obtain ⟨hfirst, hsorted'⟩ := List.pairwise_cons.mp hsorted
    rw [keep]
    by_cases hbehind : edge ≤ t.span.start
    · rw [if_pos hbehind, toList_keep]
      -- What beats the first token would have to come later in sorted order.
      have hchosen : t ∈ chosen := by
        rcases hrest t List.mem_cons_self with hin | hbefore | ⟨s, hs, hbeats⟩
        · exact hin
        · omega
        · rcases List.mem_cons.mp (hmem s hs) with rfl | hlater
          · exact absurd (hbeats.higher hbeats.first) (Nat.lt_irrefl _)
          · exact absurd (hfirst s hlater) hbeats.not_sorted
      cases chosen with
      | nil => exact absurd hchosen List.not_mem_nil
      | cons s chosen =>
        obtain ⟨hbelow, hdisjoint'⟩ := List.pairwise_cons.mp hdisjoint
        have hswide := hwide s List.mem_cons_self
        obtain rfl : s = t := head_eq hfirst (hmem s List.mem_cons_self) hchosen hbelow hswide
        rw [ih hsorted' hdisjoint' (fun x hx => hwide x (List.mem_cons_of_mem s hx)) hbelow]
        · rfl
        · -- The other chosen tokens begin behind this one.
          intro x hx
          have hstart := hbelow x hx
          rcases List.mem_cons.mp (hmem x (List.mem_cons_of_mem s hx)) with rfl | hin
          · omega
          · exact hin
        · -- What this one beats begins before the new edge.
          intro x hx
          rcases hrest x (List.mem_cons_of_mem s hx) with hin | hbefore | ⟨s', hs', hbeats⟩
          · rcases List.mem_cons.mp hin with rfl | hin
            · exact Or.inr (Or.inl hswide)
            · exact Or.inl hin
          · exact Or.inr (Or.inl (by omega))
          · rcases List.mem_cons.mp hs' with rfl | hs'
            · exact Or.inr (Or.inl hbeats.overlaps)
            · exact Or.inr (Or.inr ⟨s', hs', hbeats⟩)
    · -- No chosen token begins before the edge, so this one is not chosen.
      rw [if_neg hbehind]
      apply ih hsorted' hdisjoint hwide hedge
      · intro s hs
        rcases List.mem_cons.mp (hmem s hs) with rfl | hin
        · exact absurd (hedge s hs) hbehind
        · exact hin
      · intro x hx
        exact hrest x (List.mem_cons_of_mem t hx)

end Selection

open Selection

/-- Of tokens listed by priority those are chosen that are disjoint and beat all the others. -/
theorem select_eq {tokens chosen : List Token}
    (hrank : tokens.Pairwise fun a b => a.category.rank ≤ b.category.rank)
    (hdisjoint : chosen.Pairwise fun a b => a.span.stop ≤ b.span.start)
    (hwide : ∀ s ∈ chosen, s.span.start < s.span.stop)
    (hmem : ∀ s ∈ chosen, s ∈ tokens)
    (hrest : ∀ t ∈ tokens, t ∈ chosen ∨ ∃ s ∈ chosen, Beats s t) : select tokens = chosen := by
  apply toList_keep_eq (sorted_mergeSort hrank) hdisjoint hwide (fun s _ => Nat.zero_le _)
  · intro s hs
    exact List.mem_mergeSort.mpr (hmem s hs)
  · intro t ht
    exact (hrest t (List.mem_mergeSort.mp ht)).imp_right Or.inr

end Gloss
