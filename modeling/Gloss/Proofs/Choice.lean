import Mathlib.Data.List.Pairwise
import Gloss.Selection

namespace Gloss

namespace Selection

/-- A token with its index goes before another one: it starts first, at one start it ends later, and
with one span it came first. -/
def GoesBefore (a b : Token × Nat) : Prop :=
  a.1.span.start < b.1.span.start ∨ a.1.span.start = b.1.span.start ∧
    (b.1.span.stop < a.1.span.stop ∨ b.1.span.stop = a.1.span.stop ∧ a.2 < b.2)

structure Covers (k d : Token × Nat) : Prop where
  before : GoesBefore k d
  start : k.1.span.start ≤ d.1.span.start
  overlaps : d.1.span.start < k.1.span.stop
  longer : k.1.span.start = d.1.span.start → d.1.span.stop ≤ k.1.span.stop

/-- Tokens of a list that are disjoint and cover all others. -/
structure IsChoice (entries chosen : List (Token × Nat)) : Prop where
  sublist : chosen.Sublist entries
  disjoint : chosen.Pairwise fun a b => a.1.span.stop ≤ b.1.span.start
  covers : ∀ d ∈ entries, d ∉ chosen → ∃ k ∈ chosen, Covers k d

/-- A choice among tokens of which those that start before `edge` are taken away. -/
structure IsChoiceFrom (edge : Nat) (entries chosen : List (Token × Nat)) : Prop where
  sublist : chosen.Sublist entries
  disjoint : chosen.Pairwise fun a b => a.1.span.stop ≤ b.1.span.start
  behind : ∀ k ∈ chosen, edge ≤ k.1.span.start
  covers : ∀ d ∈ entries, d ∉ chosen → d.1.span.start < edge ∨ ∃ k ∈ chosen, Covers k d

section Order

variable {a b : Token × Nat}

theorem GoesBefore.start_le (h : GoesBefore a b) : a.1.span.start ≤ b.1.span.start := by
  rw [GoesBefore] at h
  omega

theorem GoesBefore.stop_le (h : GoesBefore a b) (hstart : a.1.span.start = b.1.span.start) :
    b.1.span.stop ≤ a.1.span.stop := by
  rw [GoesBefore] at h
  omega

theorem GoesBefore.asymm (h : GoesBefore a b) : ¬GoesBefore b a := by
  rw [GoesBefore] at h ⊢
  omega

/-- The order of choice, with the index to decide between tokens that have one span. -/
theorem goesBefore_iff : GoesBefore a b ↔ precedes a.1 b.1 ∧ (precedes b.1 a.1 → a.2 < b.2) := by
  simp only [GoesBefore, precedes, Bool.or_eq_true, Bool.and_eq_true, decide_eq_true_eq]
  omega

/-- What goes before a token and reaches over its start covers it. -/
theorem GoesBefore.covers (h : GoesBefore a b) (hoverlaps : b.1.span.start < a.1.span.stop) :
    Covers a b :=
  ⟨h, h.start_le, hoverlaps, h.stop_le⟩

end Order

section Choice

variable {edge : Nat} {t : Token × Nat} {rest chosen entries other : List (Token × Nat)}

theorem isChoiceFrom_zero : IsChoiceFrom 0 entries chosen ↔ IsChoice entries chosen := by
  constructor
  · intro h
    refine ⟨h.sublist, h.disjoint, fun d hd hnot => ?_⟩
    rcases h.covers d hd hnot with hbefore | hcovered
    · exact absurd hbefore (Nat.not_lt_zero _)
    · exact hcovered
  · intro h
    refine ⟨h.sublist, h.disjoint, fun _ _ => Nat.zero_le _, fun d hd hnot => ?_⟩
    exact Or.inr (h.covers d hd hnot)

/-- The first token is chosen if it starts at the edge or behind it, and the choice among the others
goes on from its end. -/
theorem isChoiceFrom_cons_of_le (hfirst : ∀ d ∈ rest, GoesBefore t d)
    (hle : edge ≤ t.1.span.start) : IsChoiceFrom edge (t :: rest) chosen ↔
      ∃ later, chosen = t :: later ∧ IsChoiceFrom t.1.span.stop rest later := by
  have hfresh : t ∉ rest := fun hmem => (hfirst t hmem).asymm (hfirst t hmem)
  constructor
  · intro h
    -- Nothing that is left goes before the first token, so nothing could cover it.
    have hmem : t ∈ chosen := by
      by_contra hnot
      rcases h.covers t List.mem_cons_self hnot with hbefore | ⟨k, hk, hcovers⟩
      · omega
      · rcases List.mem_cons.mp (h.sublist.subset hk) with rfl | hin
        · exact hnot hk
        · exact (hfirst k hin).asymm hcovers.before
    rcases List.sublist_cons_iff.mp h.sublist with hskip | ⟨later, rfl, hsublist⟩
    · exact absurd (hskip.subset hmem) hfresh
    obtain ⟨hbehind, hdisjoint⟩ := List.pairwise_cons.mp h.disjoint
    refine ⟨later, rfl, hsublist, hdisjoint, hbehind, fun d hd hnot => ?_⟩
    have hstart := (hfirst d hd).start_le
    have hne : d ≠ t := fun heq => hfresh (heq ▸ hd)
    have hleft : d ∉ t :: later := List.not_mem_cons_of_ne_of_not_mem hne hnot
    rcases h.covers d (List.mem_cons_of_mem t hd) hleft with hbefore | ⟨k, hk, hcovers⟩
    · omega
    · rcases List.mem_cons.mp hk with rfl | hk
      · exact Or.inl hcovers.overlaps
      · exact Or.inr ⟨k, hk, hcovers⟩
  · rintro ⟨later, rfl, h⟩
    -- What starts before the end of the first token is covered by it.
    refine ⟨h.sublist.cons_cons t, List.pairwise_cons.mpr ⟨h.behind, h.disjoint⟩, ?_, ?_⟩
    · intro k hk
      rcases List.mem_cons.mp hk with rfl | hk
      · exact hle
      · exact Nat.le_trans hle (hfirst k (h.sublist.subset hk)).start_le
    · intro d hd hnot
      obtain ⟨hne, hleft⟩ := not_or.mp (List.mem_cons.not.mp hnot)
      have hin : d ∈ rest := (List.mem_cons.mp hd).resolve_left hne
      rcases h.covers d hin hleft with hbefore | ⟨k, hk, hcovers⟩
      · exact Or.inr ⟨t, List.mem_cons_self, (hfirst d hin).covers hbefore⟩
      · exact Or.inr ⟨k, List.mem_cons_of_mem t hk, hcovers⟩

/-- A first token that starts before the edge is left out. -/
theorem isChoiceFrom_cons_of_lt (hlt : t.1.span.start < edge) :
    IsChoiceFrom edge (t :: rest) chosen ↔ IsChoiceFrom edge rest chosen := by
  -- An entry before the edge is neither chosen nor in need of cover.
  constructor
  · intro h
    have hnot : t ∉ chosen := by
      intro hmem
      have hle := h.behind t hmem
      omega
    have hsublist : chosen.Sublist rest := by
      rcases List.sublist_cons_iff.mp h.sublist with hskip | ⟨later, rfl, -⟩
      · exact hskip
      · exact absurd List.mem_cons_self hnot
    exact ⟨hsublist, h.disjoint, h.behind, fun d hd => h.covers d (List.mem_cons_of_mem t hd)⟩
  · intro h
    refine ⟨h.sublist.cons t, h.disjoint, h.behind, fun d hd hleft => ?_⟩
    rcases List.mem_cons.mp hd with rfl | hd
    · exact Or.inl hlt
    · exact h.covers d hd hleft

/-- Going through tokens in order makes a choice among them. -/
theorem exists_choiceFrom (hsorted : entries.Pairwise GoesBefore) (edge : Nat) :
    ∃ chosen, IsChoiceFrom edge entries chosen ∧
      (keep #[] edge (entries.map Prod.fst)).toList = chosen.map Prod.fst := by
  -- What is kept moves the edge to its end; what is passed over leaves it.
  induction entries generalizing edge with
  | nil => exact ⟨[], ⟨.slnil, .nil, List.forall_mem_nil _, nofun⟩, rfl⟩
  | cons t rest ih =>
    obtain ⟨hfirst, hrest⟩ := List.pairwise_cons.mp hsorted
    rw [List.map_cons, keep]
    by_cases hle : edge ≤ t.1.span.start
    · obtain ⟨later, hlater, hkeep⟩ := ih hrest t.1.span.stop
      refine ⟨t :: later, (isChoiceFrom_cons_of_le hfirst hle).mpr ⟨later, rfl, hlater⟩, ?_⟩
      rw [if_pos hle, toList_keep, hkeep]
      rfl
    · obtain ⟨chosen, hchosen, hkeep⟩ := ih hrest edge
      have hlt : t.1.span.start < edge := by omega
      refine ⟨chosen, (isChoiceFrom_cons_of_lt hlt).mpr hchosen, ?_⟩
      rw [if_neg hle, hkeep]

/-- Among tokens in order there are no two choices. -/
theorem IsChoiceFrom.unique (hsorted : entries.Pairwise GoesBefore)
    (h : IsChoiceFrom edge entries chosen) (h' : IsChoiceFrom edge entries other) :
    other = chosen := by
  -- The edge decides about the first token, and both choices go on with the same edge.
  induction entries generalizing edge chosen other with
  | nil => rw [List.sublist_nil.mp h.sublist, List.sublist_nil.mp h'.sublist]
  | cons t rest ih =>
    obtain ⟨hfirst, hrest⟩ := List.pairwise_cons.mp hsorted
    by_cases hle : edge ≤ t.1.span.start
    · obtain ⟨later, rfl, hlater⟩ := (isChoiceFrom_cons_of_le hfirst hle).mp h
      obtain ⟨later', rfl, hlater'⟩ := (isChoiceFrom_cons_of_le hfirst hle).mp h'
      rw [ih hrest hlater hlater']
    · have hlt : t.1.span.start < edge := by omega
      exact ih hrest ((isChoiceFrom_cons_of_lt hlt).mp h) ((isChoiceFrom_cons_of_lt hlt).mp h')

/-- Of tokens with one span, which is not empty, only the first may be chosen. -/
theorem IsChoice.not_mem_of_span_eq (h : IsChoice entries chosen) {a b : Token × Nat}
    (ha : a ∈ entries) (hspan : a.1.span = b.1.span) (hwide : a.1.span.start < a.1.span.stop)
    (hab : a.2 < b.2) : b ∉ chosen := by
  intro hb
  have hbefore : GoesBefore a b := by
    rw [GoesBefore, hspan]
    omega
  -- The first one is chosen itself, or another token is that covers it.
  have hother : ∃ k ∈ chosen, k ≠ b ∧ k.1.span.start ≤ a.1.span.start ∧
      a.1.span.start < k.1.span.stop := by
    by_cases hmem : a ∈ chosen
    · exact ⟨a, hmem, fun heq => Nat.ne_of_lt hab (congrArg Prod.snd heq), Nat.le_refl _, hwide⟩
    · obtain ⟨k, hk, hcovers⟩ := h.covers a ha hmem
      refine ⟨k, hk, ?_, hcovers.start, hcovers.overlaps⟩
      rintro rfl
      exact hbefore.asymm hcovers.before
  obtain ⟨k, hk, hne, hstart, hstop⟩ := hother
  -- Two tokens that are chosen are apart, whichever of them stands first.
  have hapart : k.1.span.stop ≤ b.1.span.start ∨ b.1.span.stop ≤ k.1.span.start := by
    have hsymm : Std.Symm fun a b : Token × Nat =>
      a.1.span.stop ≤ b.1.span.start ∨ b.1.span.stop ≤ a.1.span.start := ⟨fun _ _ => Or.symm⟩
    have hpairwise : chosen.Pairwise fun a b =>
        a.1.span.stop ≤ b.1.span.start ∨ b.1.span.stop ≤ a.1.span.start := h.disjoint.imp Or.inl
    exact hpairwise.forall hk hb hne
  rw [hspan] at hstart hstop hwide
  omega

end Choice

section Stable

variable {α : Type} {le : α → α → Bool}

/-- A stable sort puts entries that are tied in the order of their indices. -/
theorem pairwise_mergeSort_zipIdx (htrans : ∀ a b c, le a b → le b c → le a c)
    (htotal : ∀ a b, (le a b || le b a) = true) (l : List α) :
    (l.zipIdx.mergeSort (List.zipIdxLE le)).Pairwise fun a b =>
      le a.1 b.1 ∧ (le b.1 a.1 → a.2 < b.2) := by
  have hordered : (l.zipIdx.mergeSort (List.zipIdxLE le)).Pairwise fun a b =>
      List.zipIdxLE le a b :=
    List.pairwise_mergeSort (List.zipIdxLE_trans htrans) (List.zipIdxLE_total htotal) l.zipIdx
  -- The sort only puts smaller indices first; that they differ makes it strict.
  have hindices : ((l.zipIdx.mergeSort (List.zipIdxLE le)).map Prod.snd).Nodup := by
    rw [((List.mergeSort_perm l.zipIdx _).map Prod.snd).nodup_iff, List.zipIdx_map_snd]
    exact List.nodup_range'
  apply (hordered.and (List.pairwise_map.mp hindices)).imp
  rintro a b ⟨hle, hne⟩
  simp only [List.zipIdxLE, Bool.if_false_right, Bool.and_eq_true, Bool.decide_eq_true] at hle
  refine ⟨hle.1, fun hback => ?_⟩
  have hindex : a.2 ≤ b.2 := by simpa [hback] using hle.2
  omega

/-- Sorting keeps what holds of each two entries of a list that are tied. -/
theorem pairwise_mergeSort_of_tied {R : α → α → Prop} (htrans : ∀ a b c, le a b → le b c → le a c)
    (htotal : ∀ a b, (le a b || le b a) = true) {l : List α}
    (h : l.Pairwise fun a b => le a b → le b a → R a b) :
    (l.mergeSort le).Pairwise fun a b => le a b ∧ (le b a → R a b) := by
  rw [← List.mergeSort_zipIdx, List.pairwise_map]
  apply (pairwise_mergeSort_zipIdx htrans htotal l).imp_of_mem
  rintro a b ha hb ⟨hle, htie⟩
  rw [List.mem_mergeSort] at ha hb
  obtain ⟨hi, hga⟩ := List.mem_zipIdx' ha
  obtain ⟨hj, hgb⟩ := List.mem_zipIdx' hb
  refine ⟨hle, fun hback => ?_⟩
  have hindices := List.pairwise_iff_getElem.mp h a.2 b.2 hi hj (htie hback)
  rw [← hga, ← hgb] at hindices
  exact hindices hle hback

end Stable

def inOrder (tokens : List Token) : List (Token × Nat) :=
  tokens.zipIdx.mergeSort (List.zipIdxLE precedes)

theorem inOrder_perm (tokens : List Token) : (inOrder tokens).Perm tokens.zipIdx :=
  List.mergeSort_perm _ _

theorem map_fst_inOrder (tokens : List Token) :
    (inOrder tokens).map Prod.fst = tokens.mergeSort precedes :=
  List.mergeSort_zipIdx

/-- The indices break every tie, so the order is strict. -/
theorem inOrder_goesBefore (tokens : List Token) : (inOrder tokens).Pairwise GoesBefore :=
  (pairwise_mergeSort_zipIdx precedes_trans precedes_total tokens).imp goesBefore_iff.mpr

end Selection

open Selection

/-- The tokens of a list have one order by start, length and place. In this order there is exactly
one choice of tokens that are disjoint and cover all others, and these remain when overlaps are
resolved. Of tokens with one span, which is not empty, only the first can remain. -/
theorem select_is_only_choice (tokens : List Token) :
    ∃ sorted chosen : List (Token × Nat), sorted.Perm tokens.zipIdx ∧
      sorted.Pairwise GoesBefore ∧ IsChoice sorted chosen ∧
      (∀ other, IsChoice sorted other → other = chosen) ∧
      select tokens = chosen.map Prod.fst ∧
      ∀ a ∈ tokens.zipIdx, ∀ b ∈ tokens.zipIdx, a.1.span = b.1.span →
        a.1.span.start < a.1.span.stop → a.2 < b.2 → b ∉ chosen := by
  have hsorted := inOrder_goesBefore tokens
  obtain ⟨chosen, hchosen, hkeep⟩ := exists_choiceFrom hsorted 0
  have hchoice : IsChoice (inOrder tokens) chosen := isChoiceFrom_zero.mp hchosen
  -- The witnesses are the candidates in order, with their indices, and those that are kept.
  refine ⟨inOrder tokens, chosen, inOrder_perm tokens, hsorted, hchoice, ?_, ?_, ?_⟩
  · intro other hother
    exact hchosen.unique hsorted (isChoiceFrom_zero.mpr hother)
  · rw [select, ← map_fst_inOrder, hkeep]
  · intro a ha b _ hspan hwide hindex
    have hmem : a ∈ inOrder tokens := (inOrder_perm tokens).mem_iff.mpr ha
    exact hchoice.not_mem_of_span_eq hmem hspan hwide hindex

end Gloss
