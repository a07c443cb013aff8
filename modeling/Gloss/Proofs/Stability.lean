import Mathlib.Data.List.Sort
import Gloss.Proofs.Choice

/-! Tokens that are sorted are told by what they are at each span, so only tokens with one span have
to be in their order. -/
namespace Gloss

namespace Selection

section Entries

variable {tokens : List Token} {entries left chosen : List (Token × Nat)}

theorem GoesBefore.antisymm : Std.Antisymm GoesBefore :=
  ⟨fun _ _ h hback => absurd hback h.asymm⟩

theorem nodup_of_goesBefore (h : entries.Pairwise GoesBefore) : entries.Nodup := by
  apply h.imp
  rintro a b hab rfl
  exact hab.asymm hab

/-- Entries in the order of choice stand in the order of their indices at each span. -/
theorem tied_of_goesBefore (h : entries.Pairwise GoesBefore) :
    entries.Pairwise fun a b => a.1.span = b.1.span → a.2 < b.2 := by
  apply h.imp
  intro a b hab hspan
  rw [GoesBefore, hspan] at hab
  omega

theorem tied_of_sublist (h : left.Sublist tokens.zipIdx) :
    left.Pairwise fun a b => a.1.span = b.1.span → a.2 < b.2 := by
  have hindices : (tokens.zipIdx.map Prod.snd).Pairwise (· < ·) := by
    rw [List.zipIdx_map_snd]
    exact List.pairwise_lt_range' 1
  apply ((List.pairwise_map.mp hindices).sublist h).imp
  intro a b hlt _
  exact hlt

/-- Tokens that go before each other in the order of choice have one span. -/
theorem span_eq_of_precedes {a b : Token} (h : precedes a b) (hback : precedes b a) :
    a.span = b.span := by
  simp only [precedes, Bool.or_eq_true, Bool.and_eq_true, decide_eq_true_eq] at h hback
  have hstart : a.span.start = b.span.start := by omega
  have hstop : a.span.stop = b.span.stop := by omega
  calc a.span = ⟨a.span.start, a.span.stop⟩ := rfl
    _ = ⟨b.span.start, b.span.stop⟩ := by rw [hstart, hstop]

/-- Sorted by their tokens, entries are in the order of choice. -/
theorem goesBefore_mergeSort
    (htied : left.Pairwise fun a b => a.1.span = b.1.span → a.2 < b.2) :
    (left.mergeSort fun a b => precedes a.1 b.1).Pairwise GoesBefore := by
  have hsorted : (left.mergeSort fun a b => precedes a.1 b.1).Pairwise fun a b =>
      precedes a.1 b.1 ∧ (precedes b.1 a.1 → a.2 < b.2) := by
    apply pairwise_mergeSort_of_tied
    · exact fun a b c => precedes_trans a.1 b.1 c.1
    · exact fun a b => precedes_total a.1 b.1
    · apply htied.imp
      intro a b hindex hle hback
      exact hindex (span_eq_of_precedes hle hback)
  exact hsorted.imp goesBefore_iff.mpr

/-- A choice is one among fewer entries too, if all that are chosen are still there. -/
theorem IsChoice.of_subset (h : IsChoice entries chosen) (hentries : entries.Pairwise GoesBefore)
    (hleft : left.Pairwise GoesBefore) (hsubset : left ⊆ entries) (hkept : chosen ⊆ left) :
    IsChoice left chosen := by
  have hchosen : chosen.Pairwise GoesBefore := hentries.sublist h.sublist
  have hsubperm : chosen.Subperm left := List.subperm_of_subset (nodup_of_goesBefore hchosen) hkept
  have := GoesBefore.antisymm
  refine ⟨List.sublist_of_subperm_of_pairwise hsubperm hchosen hleft, h.disjoint, ?_⟩
  intro d hd hnot
  exact h.covers d (hsubset hd) hnot

/-- What is chosen among tokens is chosen among any of them, as long as all the chosen ones are
there and those with one span are in their order. -/
theorem select_of_isChoice (h : IsChoice (inOrder tokens) chosen) (hsubset : left ⊆ tokens.zipIdx)
    (htied : left.Pairwise fun a b => a.1.span = b.1.span → a.2 < b.2) (hkept : chosen ⊆ left) :
    select (left.map Prod.fst) = chosen.map Prod.fst := by
  have hsorted := goesBefore_mergeSort htied
  have hmap : (left.mergeSort fun a b => precedes a.1 b.1).map Prod.fst =
      (left.map Prod.fst).mergeSort precedes := List.map_mergeSort fun _ _ _ _ => rfl
  have hperm : (left.mergeSort fun a b => precedes a.1 b.1).Perm left := List.mergeSort_perm _ _
  have hchoice : IsChoice (left.mergeSort fun a b => precedes a.1 b.1) chosen := by
    apply h.of_subset (inOrder_goesBefore tokens) hsorted
    · intro a ha
      exact (inOrder_perm tokens).mem_iff.mpr (hsubset (hperm.subset ha))
    · intro k hk
      exact hperm.mem_iff.mpr (hkept hk)
  -- The choice that is made there is the only one.
  obtain ⟨other, hother, hkeep⟩ := exists_choiceFrom hsorted 0
  have heq : other = chosen := (isChoiceFrom_zero.mpr hchoice).unique hsorted hother
  calc select (left.map Prod.fst)
    _ = (keep #[] 0 ((left.mergeSort fun a b => precedes a.1 b.1).map Prod.fst)).toList := by
        rw [select, hmap]
    _ = other.map Prod.fst := hkeep
    _ = chosen.map Prod.fst := by rw [heq]

end Entries

section Spans

variable {tokens other : List Token}

/-- Sorting leaves the tokens at one span as they are. -/
theorem filter_span_mergeSort (tokens : List Token) (s : Span) :
    (tokens.mergeSort precedes).filter (·.span = s) = tokens.filter (·.span = s) := by
  have htied : (tokens.filter (·.span = s)).Pairwise fun a b => precedes a b := by
    apply List.pairwise_of_forall_mem_list
    intro a ha b hb
    simp only [List.mem_filter, decide_eq_true_eq] at ha hb
    simp [precedes, ha.2, hb.2]
  have hsublist : (tokens.filter (·.span = s)).Sublist (tokens.mergeSort precedes) :=
    List.sublist_mergeSort precedes_trans precedes_total htied List.filter_sublist
  have hfilter := hsublist.filter (·.span = s)
  rw [List.filter_filter] at hfilter
  simp only [Bool.and_self] at hfilter
  -- A sublist with as many tokens is the whole list.
  have hlength := ((List.mergeSort_perm tokens precedes).filter (·.span = s)).length_eq
  exact (hfilter.eq_of_length hlength.symm).symm

theorem mem_iff_of_filter_span
    (h : ∀ s : Span, other.filter (·.span = s) = tokens.filter (·.span = s)) (t : Token) :
    t ∈ other ↔ t ∈ tokens := by
  have hfilter : t ∈ other.filter (·.span = t.span) ↔ t ∈ tokens.filter (·.span = t.span) := by
    rw [h t.span]
  simpa using hfilter

theorem filter_span_of_cons {x : Token}
    (h : ∀ s : Span, (x :: other).filter (·.span = s) = (x :: tokens).filter (·.span = s))
    (s : Span) : other.filter (·.span = s) = tokens.filter (·.span = s) := by
  have hs := h s
  by_cases hx : x.span = s
  · rw [List.filter_cons_of_pos (by simp [hx]), List.filter_cons_of_pos (by simp [hx])] at hs
    exact (List.cons.inj hs).2
  · rwa [List.filter_cons_of_neg (by simp [hx]), List.filter_cons_of_neg (by simp [hx])] at hs

/-- Sorted tokens are told by what they are at each span. -/
theorem eq_of_filter_span (htokens : tokens.Pairwise fun a b => precedes a b)
    (hother : other.Pairwise fun a b => precedes a b)
    (h : ∀ s : Span, other.filter (·.span = s) = tokens.filter (·.span = s)) : other = tokens := by
  have hmem := mem_iff_of_filter_span h
  induction tokens generalizing other with
  | nil =>
    apply List.eq_nil_iff_forall_not_mem.mpr
    intro t ht
    exact List.not_mem_nil ((hmem t).mp ht)
  | cons x tokens ih =>
    cases other with
    | nil => exact absurd ((hmem x).mpr List.mem_cons_self) List.not_mem_nil
    | cons y other =>
      obtain ⟨hx, htokens'⟩ := List.pairwise_cons.mp htokens
      obtain ⟨hy, hother'⟩ := List.pairwise_cons.mp hother
      -- Each head stands in the other list, so the two are tied.
      have hspan : y.span = x.span := by
        rcases List.mem_cons.mp ((hmem y).mp List.mem_cons_self) with heq | hyin
        · rw [heq]
        rcases List.mem_cons.mp ((hmem x).mpr List.mem_cons_self) with heq | hxin
        · rw [heq]
        exact span_eq_of_precedes (hy x hxin) (hx y hyin)
      -- So they are the first ones at their span, which are the same in both lists.
      have hheads := h x.span
      rw [List.filter_cons_of_pos (by simp [hspan]), List.filter_cons_of_pos (by simp)] at hheads
      obtain ⟨rfl, -⟩ := List.cons.inj hheads
      have htails := filter_span_of_cons h
      rw [ih htokens' hother' htails (mem_iff_of_filter_span htails)]

/-- Only the order of tokens with one span matters. -/
theorem select_congr (h : ∀ s : Span, other.filter (·.span = s) = tokens.filter (·.span = s)) :
    select other = select tokens := by
  have hsorted (l : List Token) : (l.mergeSort precedes).Pairwise fun a b => precedes a b :=
    List.pairwise_mergeSort precedes_trans precedes_total l
  have heq : other.mergeSort precedes = tokens.mergeSort precedes := by
    apply eq_of_filter_span (hsorted tokens) (hsorted other)
    intro s
    rw [filter_span_mergeSort, filter_span_mergeSort, h s]
  rw [select, select, heq]

theorem filter_span_comm {a b : List Token} (h : ∀ t ∈ a, ∀ u ∈ b, t.span ≠ u.span) (s : Span) :
    a.filter (·.span = s) ++ b.filter (·.span = s) =
      b.filter (·.span = s) ++ a.filter (·.span = s) := by
  -- At one of the two there is nothing with the span.
  by_cases ha : a.filter (·.span = s) = []
  · rw [ha, List.append_nil, List.nil_append]
  · obtain ⟨t, ht⟩ := List.exists_mem_of_ne_nil _ ha
    simp only [List.mem_filter, decide_eq_true_eq] at ht
    have hb : b.filter (·.span = s) = [] := by
      apply List.filter_eq_nil_iff.mpr
      intro u hu hspan
      simp only [decide_eq_true_eq] at hspan
      exact h t ht.1 u hu (ht.2.trans hspan.symm)
    rw [hb, List.append_nil, List.nil_append]

/-- Lists that have no span in common can be put together in any order, as far as one span goes. -/
theorem filter_span_flatten {lists order : List (List Token)} (hperm : order.Perm lists)
    (h : lists.Pairwise fun a b => ∀ t ∈ a, ∀ u ∈ b, t.span ≠ u.span) (s : Span) :
    order.flatten.filter (·.span = s) = lists.flatten.filter (·.span = s) := by
  have hsymm : ∀ {a b : List Token}, (∀ t ∈ a, ∀ u ∈ b, t.span ≠ u.span) →
      ∀ t ∈ b, ∀ u ∈ a, t.span ≠ u.span := fun hab t ht u hu => (hab u hu t ht).symm
  -- Only the blocks move, and two that change places have no span in common.
  induction hperm with
  | nil => rfl
  | cons a _ ih =>
    rw [List.flatten_cons, List.flatten_cons, List.filter_append, List.filter_append,
      ih (List.pairwise_cons.mp h).2]
  | swap a b rest =>
    have hab : ∀ t ∈ a, ∀ u ∈ b, t.span ≠ u.span := (List.pairwise_cons.mp h).1 b List.mem_cons_self
    simp only [List.flatten_cons, List.filter_append, ← List.append_assoc]
    rw [filter_span_comm hab]
  | trans _ hperm ihleft ihright =>
    rw [ihleft ((hperm.pairwise_iff hsymm).mpr h), ihright h]

end Spans

end Selection

open Selection

/-- Choosing again among the chosen tokens changes nothing. Any of the tokens that are not chosen
may be missing, and the tokens may come in any other order that keeps those with one span in theirs:
the same ones are chosen. So lists of tokens that have no span in common may come in any order. -/
theorem select_stable (tokens : List Token) :
    select (select tokens) = select tokens ∧
    (∃ chosen, IsChoice (inOrder tokens) chosen ∧ select tokens = chosen.map Prod.fst ∧
      ∀ left : List (Token × Nat), left.Sublist tokens.zipIdx → chosen ⊆ left →
        select (left.map Prod.fst) = select tokens) ∧
    (∀ other : List Token, (∀ s : Span, other.filter (·.span = s) = tokens.filter (·.span = s)) →
      select other = select tokens) ∧
    ∀ lists order : List (List Token), lists.flatten = tokens → order.Perm lists →
      (lists.Pairwise fun a b => ∀ t ∈ a, ∀ u ∈ b, t.span ≠ u.span) →
        select order.flatten = select tokens := by
  -- All four parts follow from the one choice among the candidates in order.
  have hsorted := inOrder_goesBefore tokens
  obtain ⟨chosen, hchosen, hkeep⟩ := exists_choiceFrom hsorted 0
  have hchoice : IsChoice (inOrder tokens) chosen := isChoiceFrom_zero.mp hchosen
  have hselect : select tokens = chosen.map Prod.fst := by rw [select, ← map_fst_inOrder, hkeep]
  have hfrom : chosen ⊆ tokens.zipIdx := fun k hk =>
    (inOrder_perm tokens).subset (hchoice.sublist.subset hk)
  have htied := tied_of_goesBefore (hsorted.sublist hchoice.sublist)
  refine ⟨?_, ⟨chosen, hchoice, hselect, ?_⟩, ?_, ?_⟩
  · -- The chosen tokens are those that are left when all others are taken away.
    rw [hselect]
    exact select_of_isChoice hchoice hfrom htied (List.Subset.refl chosen)
  · intro left hleft hkept
    rw [hselect]
    exact select_of_isChoice hchoice hleft.subset (tied_of_sublist hleft) hkept
  · intro other hother
    exact select_congr hother
  · intro lists order hlists hperm hspans
    apply select_congr
    intro s
    rw [← hlists]
    exact filter_span_flatten hperm hspans s

end Gloss
