import Gloss.Proofs.Coverage

namespace Gloss

open Category OnePass Selection

def Span.Inside (s u : Span) : Prop := u.start < s.start ∧ s.stop < u.stop

/-- How two candidates can lie: apart, at one place as a reserved word and a name, or one in the
other, which is a quoted text. No literal lies in a quoted text. -/
inductive Token.Laminar (t u : Token) : Prop where
  | apart (hspan : t.span.Apart u.span)
  | twins (hspan : t.span = u.span) (htext : t.text = u.text)
      (hkinds : t.category = .keyword ∧ u.category = .identifier ∨
        t.category = .identifier ∧ u.category = .keyword)
  | around (hquotation : t.IsQuotation) (hother : u.category ≠ .literal)
      (hinside : u.span.Inside t.span)
  | within (hquotation : u.IsQuotation) (hother : t.category ≠ .literal)
      (hinside : t.span.Inside u.span)

theorem Token.Laminar.symm {t u : Token} (h : t.Laminar u) : u.Laminar t := by
  cases h with
  | apart hspan => exact .apart (Or.symm hspan)
  | twins hspan htext hkinds =>
    exact .twins hspan.symm htext.symm (hkinds.symm.imp And.symm And.symm)
  | around hquotation hother hinside => exact .within hquotation hother hinside
  | within hquotation hother hinside => exact .around hquotation hother hinside

/-- A kind finds the stretch `x :: more` of kind `k` behind `before`. -/
structure Found (c k : Category) (before : List Char) (x : Char) (more after : List Char) :
    Prop where
  stretch : Stretch x more after (some k)
  claims : c.Claims (some k)
  edge : insideAfter false before = true → isWordChar x = false

/-- How a kind goes over a text that follows `passed`, and which tokens it finds. -/
inductive Findings (c : Category) : List Char → List Char → List Token → Prop where
  | done {passed} : Findings c passed [] []
  | skip {passed x rest tokens} (hrest : Findings c (passed ++ [x]) rest tokens) :
      Findings c passed (x :: rest) tokens
  | take {k passed x more after tokens} (hfound : Found c k passed x more after)
      (hrest : Findings c (passed ++ x :: more) after tokens) :
      Findings c passed (x :: (more ++ after))
        (Token.ofLexeme c (byteLength passed) (x :: more) :: tokens)

section Findings

variable {c : Category} {passed text : List Char} {tokens : List Token} {t : Token}

/-- What a kind finds at a place is nothing, or a whole stretch that it claims. -/
theorem lexemeLength_cases (c : Category) (passed : List Char) (x : Char) (rest : List Char) :
    c.lexemeLength (insideAfter false passed) (x :: rest) = 0 ∨
      ∃ k more after, rest = more ++ after ∧ Found c k passed x more after ∧
        c.lexemeLength (insideAfter false passed) (x :: rest) = more.length + 1 := by
  by_cases hedge : insideAfter false passed = true → isWordChar x = false
  · obtain ⟨more, after, kind?, rfl, h⟩ := exists_stretch x rest
    rcases lexemeLength_stretch c h hedge with ⟨hclaims, hlength⟩ | ⟨-, hnone⟩
    · cases kind? with
      | none => exact absurd hclaims (not_claims_none c)
      | some k => exact Or.inr ⟨k, more, after, rfl, ⟨h, hclaims, hedge⟩, hlength⟩
    · exact Or.inl hnone
  · -- Within a word nothing begins.
    rw [Classical.not_imp, Bool.not_eq_false] at hedge
    rw [hedge.1]
    exact Or.inl (lexemeLength_inside hedge.2)

/-- A kind goes over a text stretch by stretch, and each token it finds is one. -/
theorem findings (c : Category) (passed text : List Char) :
    Findings c passed text (c.tokensFrom (insideAfter false passed) (byteLength passed) text) := by
  generalize hn : text.length = n
  induction n using Nat.strongRecOn generalizing passed text with
  | ind n ih =>
    cases text with
    | nil => exact .done
    | cons x rest =>
      -- The scan goes on behind what it finds, or behind one character.
      have hgo (w after : List Char) (hlt : after.length < n) : Findings c (passed ++ x :: w) after
          (c.tokensFrom (insideAfter (insideAfter false passed) (x :: w))
            (byteLength passed + byteLength (x :: w)) after) := by
        rw [← insideAfter_append, ← byteLength_append]
        exact ih after.length hlt (passed ++ x :: w) after rfl
      rw [List.length_cons] at hn
      rcases lexemeLength_cases c passed x rest with hnone | ⟨k, more, after, rfl, hfound, hlength⟩
      · rw [tokensFrom_skip hnone]
        exact .skip (hgo [] rest (by omega))
      · rw [tokensFrom_take hlength, List.take_left, List.drop_left]
        rw [List.length_append] at hn
        exact .take hfound (hgo more after (by omega))

theorem Findings.exists_found (h : Findings c passed text tokens) (ht : t ∈ tokens) :
    ∃ k before x more after, passed ++ text = before ++ x :: (more ++ after) ∧
      Found c k before x more after ∧ byteLength passed ≤ byteLength before ∧
      t = Token.ofLexeme c (byteLength before) (x :: more) := by
  -- What was passed grows by the skipped character or by the token taken.
  induction h with
  | done => exact absurd ht List.not_mem_nil
  | @skip passed x rest tokens hrest ih =>
    obtain ⟨k, before, y, more, after, htext, hfound, hle, ht⟩ := ih ht
    rw [List.append_assoc, List.singleton_append] at htext
    rw [byteLength_append] at hle
    exact ⟨k, before, y, more, after, htext, hfound, by omega, ht⟩
  | @take k passed x more after tokens hfound hrest ih =>
    rcases List.mem_cons.mp ht with rfl | ht
    · exact ⟨k, passed, x, more, after, rfl, hfound, Nat.le_refl _, rfl⟩
    · obtain ⟨k', before, y, more', after', htext, hfound', hle, ht⟩ := ih ht
      rw [List.append_assoc, List.cons_append] at htext
      rw [byteLength_append] at hle
      exact ⟨k', before, y, more', after', htext, hfound', by omega, ht⟩

/-- The tokens of one kind follow each other. -/
theorem Findings.ordered (h : Findings c passed text tokens) :
    tokens.Pairwise fun t u => t.span.stop ≤ u.span.start := by
  induction h with
  | done => exact List.Pairwise.nil
  | skip hrest ih => exact ih
  | @take k passed x more after tokens hfound hrest ih =>
    refine List.pairwise_cons.mpr ⟨?_, ih⟩
    intro u hu
    obtain ⟨-, before, -, -, -, -, -, hle, rfl⟩ := hrest.exists_found hu
    rw [byteLength_append] at hle
    exact hle

theorem exists_found_of_mem {source : String} (ht : t ∈ candidates source) :
    ∃ k before x more after, source.toList = before ++ x :: (more ++ after) ∧
      Found t.category k before x more after ∧
      t = Token.ofLexeme t.category (byteLength before) (x :: more) := by
  obtain ⟨c, -, ht⟩ := List.mem_flatMap.mp ht
  obtain ⟨k, before, x, more, after, htext, hfound, -, heq⟩ :=
    (findings c [] source.toList).exists_found ht
  rw [category_of_mem_candidates ht]
  exact ⟨k, before, x, more, after, htext, hfound, heq⟩

end Findings

section Pairs

variable {c k c' k' : Category} {before mid inner more after more' after' : List Char} {x y : Char}

theorem Found.begins (h : Found c k before x more after) : c.begins x := by
  have hk : k.begins x := by
    cases h.stretch with
    | quoted hquote _ => exact begins_of_quote hquote
    | operator hx _ _ => exact hx
    | bracket hx => exact hx
    | name hx _ _ =>
      rcases wordKind_cases (x :: more) with hkind | hkind
      · rw [hkind]
        exact hx
      · rw [hkind]
        exact hx
    | number hx _ _ _ => exact begins_of_digit hx
    | decimal hx _ _ _ _ => exact begins_of_digit hx
  rcases h.claims with hkind | ⟨rfl, hkind⟩
  · rw [← Option.some.inj hkind]
    exact hk
  · rw [Option.some.inj hkind] at hk
    exact hk

/-- Only literals have characters of other kinds in them. -/
theorem Found.holds (h : Found c k before x more after) (hc : c ≠ .literal) :
    ∀ z ∈ x :: more, c.holds z := by
  have hword (hkind : k = .keyword ∨ k = .identifier) : c.holds = isWordChar := by
    rcases h.claims with heq | ⟨rfl, -⟩
    · rw [← Option.some.inj heq]
      rcases hkind with rfl | rfl
      · rfl
      · rfl
    · rfl
  cases h.stretch with
  | quoted | number | decimal => exact absurd (eq_of_claims h.claims rfl) hc
  | operator hx hrun _ =>
    rw [eq_of_claims h.claims rfl]
    exact List.forall_mem_cons.mpr ⟨hx, hrun⟩
  | bracket hx =>
    rw [eq_of_claims h.claims rfl]
    exact List.forall_mem_cons.mpr ⟨hx, List.forall_mem_nil _⟩
  | name hx hrun _ =>
    rw [hword (wordKind_cases _)]
    exact List.forall_mem_cons.mpr ⟨CharClass.has_word_of_has_nameStart hx, hrun⟩

theorem twins_of_claims (h : c.Claims (some k)) (h' : c'.Claims (some k)) (hne : c ≠ c') :
    c = .keyword ∧ c' = .identifier ∨ c = .identifier ∧ c' = .keyword := by
  rcases h with heq | ⟨hc, heq⟩
  · rcases h' with heq' | ⟨hc', heq'⟩
    · exact absurd (Option.some.inj (heq.symm.trans heq')) hne
    · exact Or.inl ⟨Option.some.inj (heq.symm.trans heq'), hc'⟩
  · rcases h' with heq' | ⟨hc', -⟩
    · exact Or.inr ⟨hc, Option.some.inj (heq'.symm.trans heq)⟩
    · exact absurd (hc.trans hc'.symm) hne

/-- What two kinds find at one place is one word. -/
theorem Found.same_place (h : Found c k before x more after)
    (h' : Found c' k' before y more' after')
    (htext : x :: (more ++ after) = y :: (more' ++ after')) (hne : c ≠ c') :
    x :: more = y :: more' ∧
      (c = .keyword ∧ c' = .identifier ∨ c = .identifier ∧ c' = .keyword) := by
  obtain ⟨rfl, hrest⟩ := List.cons.inj htext
  -- What begins at a place depends on nothing but the text from there on.
  have hsame : (some k, more) = (some k', more') := by
    rw [← stretch_append h.stretch, hrest, stretch_append h'.stretch]
  obtain ⟨hkind, rfl⟩ := Prod.mk.inj hsame
  refine ⟨rfl, twins_of_claims h.claims ?_ hne⟩
  rw [hkind]
  exact h'.claims

/-- Only in a quoted text can another kind find something that begins within a stretch. -/
theorem Found.quote_of_within (h : Found c k before x more after)
    (h' : Found c' k' (before ++ mid) y more' after') (hmid : mid ≠ [])
    (hsplit : x :: more = mid ++ y :: inner) (hne : c ≠ c') :
    isQuote x ∧ ∃ inside, more = inside ++ [x] := by
  have hy : y ∈ x :: more := by
    rw [hsplit]
    exact List.mem_append_right _ List.mem_cons_self
  have hother (hk : k.isWordKind = false) (hbegins : k.begins y) : False := by
    have hc : c = k := eq_of_claims h.claims hk
    have hnone : c'.begins y = false := not_begins hbegins (hc ▸ hne.symm) (Or.inr hk)
    rw [h'.begins] at hnone
    cases hnone
  -- In a stretch without quotes no token of another category begins behind the first character.
  cases h.stretch with
  | quoted hquote _ => exact ⟨hquote, _, rfl⟩
  | operator hx hrun _ =>
    have hall : ∀ z ∈ x :: more, CharClass.operator.has z := List.forall_mem_cons.mpr ⟨hx, hrun⟩
    exact (hother rfl (hall y hy)).elim
  | bracket hx =>
    obtain rfl : y = x := List.mem_singleton.mp hy
    exact (hother rfl hx).elim
  | name hx hrun _ =>
    -- The place is within the word.
    exfalso
    have hall : ∀ z ∈ x :: more, isWordChar z :=
      List.forall_mem_cons.mpr ⟨CharClass.has_word_of_has_nameStart hx, hrun⟩
    have hinside : insideAfter false (before ++ mid) = true := by
      rw [insideAfter_append]
      apply insideAfter_of_word
      · intro z hz
        exact hall z (by rw [hsplit]; exact List.mem_append_left _ hz)
      · exact Or.inr hmid
    have hword := h'.edge hinside
    rw [hall y hy] at hword
    cases hword
  | number hx hrun _ _ =>
    have hall : ∀ z ∈ x :: more, CharClass.digit.has z := List.forall_mem_cons.mpr ⟨hx, hrun⟩
    exact (hother rfl (begins_of_digit (hall y hy))).elim
  | @decimal run digits _ hx hrun _ hdigits _ =>
    exfalso
    rcases List.mem_append.mp (show y ∈ (x :: run) ++ '.' :: digits from hy) with hy | hy
    · have hall : ∀ z ∈ x :: run, CharClass.digit.has z := List.forall_mem_cons.mpr ⟨hx, hrun⟩
      exact hother rfl (begins_of_digit (hall y hy))
    · rcases List.mem_cons.mp hy with rfl | hy
      · have hpoint : c'.begins '.' = false := by cases c' <;> decide
        rw [h'.begins] at hpoint
        cases hpoint
      · exact hother rfl (begins_of_digit (hdigits y hy))

/-- What another kind finds in a quoted text ends before the closing quote. -/
theorem Found.exists_behind (h' : Found c' k' (before ++ mid) y more' after') (hx : isQuote x)
    (hc' : c' ≠ .literal) (hlast : (x :: more).getLast? = some x)
    (hsplit : x :: more = mid ++ y :: inner) (htail : inner ++ after = more' ++ after') :
    ∃ behind, inner = more' ++ behind ∧ behind ≠ [] := by
  -- The token inside cannot hold a quote, since it is no quotation.
  have houter : x ∉ y :: more' := by
    intro hmem
    have hholds := h'.holds hc' x hmem
    rw [holds_of_quote hx hc'] at hholds
    cases hholds
  have hinner : x ∈ y :: inner := by
    rw [hsplit, List.getLast?_append_of_ne_nil _ (List.cons_ne_nil y inner)] at hlast
    exact List.mem_of_getLast? hlast
  rcases List.append_eq_append_iff.mp htail with ⟨beyond, hbeyond, -⟩ | ⟨behind, hbehind, -⟩
  · -- It would have the closing quote in it.
    exfalso
    apply houter
    rw [hbeyond, ← List.cons_append]
    exact List.mem_append_left beyond hinner
  · refine ⟨behind, hbehind, ?_⟩
    rintro rfl
    rw [hbehind, List.append_nil] at hinner
    exact houter hinner

/-- Of two tokens of different kinds the one that begins first does not end in the other. -/
theorem Found.laminar_behind (h : Found c k before x more after)
    (h' : Found c' k' (before ++ mid) y more' after')
    (htext : x :: (more ++ after) = mid ++ y :: (more' ++ after')) (hne : c ≠ c') :
    (Token.ofLexeme c (byteLength before) (x :: more)).Laminar
      (Token.ofLexeme c' (byteLength (before ++ mid)) (y :: more')) := by
  by_cases hmid : mid = []
  · subst hmid
    rw [List.append_nil] at h'
    obtain ⟨hsame, hkinds⟩ := h.same_place h' htext hne
    rw [List.append_nil, hsame]
    exact .twins rfl rfl hkinds
  -- They are apart if the first ends before the other one begins.
  have happart (hlate : byteLength (x :: more) ≤ byteLength mid) :
      (Token.ofLexeme c (byteLength before) (x :: more)).Laminar
        (Token.ofLexeme c' (byteLength (before ++ mid)) (y :: more')) := by
    apply Token.Laminar.apart
    left
    rw [byteLength_append]
    exact Nat.add_le_add_left hlate _
  rw [← List.cons_append] at htext
  rcases List.append_eq_append_iff.mp htext with ⟨gap, rfl, -⟩ | ⟨inner, hinner, hrest⟩
  · apply happart
    rw [byteLength_append]
    exact Nat.le_add_right _ _
  cases inner with
  | nil =>
    rw [List.append_nil] at hinner
    exact happart (Nat.le_of_eq (congrArg byteLength hinner))
  | cons z inner =>
    obtain ⟨rfl, htail⟩ := List.cons.inj hrest
    obtain ⟨hx, inside, hmore⟩ := h.quote_of_within h' hmid hinner hne
    have hc : c = .literal := eq_of_claims (literal_of_quote h.stretch hx ▸ h.claims) rfl
    have hlast : (x :: more).getLast? = some x := by
      rw [hmore, ← List.cons_append, List.getLast?_concat]
    obtain ⟨behind, rfl, hbehind⟩ :=
      h'.exists_behind hx (hc ▸ hne.symm) hlast hinner htail.symm
    -- There is room before it and behind it.
    have hbefore : byteLength mid ≠ 0 := mt byteLength_eq_zero_iff.mp hmid
    have hafter : byteLength behind ≠ 0 := mt byteLength_eq_zero_iff.mp hbehind
    apply Token.Laminar.around
    · exact ⟨hc, by rw [Token.ofLexeme, String.toList_ofList]; exact hx⟩
    · exact hc ▸ hne.symm
    · constructor
      · show byteLength before < byteLength (before ++ mid)
        rw [byteLength_append]
        omega
      · show byteLength (before ++ mid) + byteLength (y :: more') <
          byteLength before + byteLength (x :: more)
        rw [hinner, ← List.cons_append, byteLength_append, byteLength_append, byteLength_append]
        omega

end Pairs

section Candidates

variable {source : String} {s t u q : Token}

/-- Candidates of two kinds that overlap are one word, found as a reserved word and as a name, or a
quoted text and what was found in it. -/
theorem laminar_of_mem (ht : t ∈ candidates source) (hu : u ∈ candidates source)
    (hne : t.category ≠ u.category) : t.Laminar u := by
  obtain ⟨k, before, x, more, after, htext, hfound, hteq⟩ := exists_found_of_mem ht
  obtain ⟨k', before', y, more', after', htext', hfound', hueq⟩ := exists_found_of_mem hu
  rw [hteq, hueq]
  rw [htext] at htext'
  -- One of them begins first.
  rcases List.append_eq_append_iff.mp htext' with ⟨mid, rfl, hmid⟩ | ⟨mid, rfl, hmid⟩
  · exact hfound.laminar_behind hfound' hmid hne
  · exact (hfound'.laminar_behind hfound hmid hne.symm).symm

theorem candidates_pairwise (source : String) : (candidates source).Pairwise Token.Laminar := by
  have hall : Category.all.Pairwise (· ≠ ·) := by decide
  have hmem {c : Category} {a : Token} (ha : a ∈ c.candidates source.toList) :
      a ∈ candidates source := List.mem_flatMap.mpr ⟨c, c.mem_all, ha⟩
  apply List.pairwise_flatMap.mpr
  constructor
  · intro c _
    have hordered := (findings c [] source.toList).ordered
    exact hordered.imp fun hstop => .apart (Or.inl hstop)
  · apply hall.imp
    intro c k hne a ha b hb
    apply laminar_of_mem (hmem ha) (hmem hb)
    rw [category_of_mem_candidates ha, category_of_mem_candidates hb]
    exact hne

theorem wide_of_mem (ht : t ∈ candidates source) : t.span.start < t.span.stop := by
  obtain ⟨-, before, x, more, -, -, -, hteq⟩ := exists_found_of_mem ht
  have hpos := x.utf8Size_pos
  rw [hteq]
  dsimp only [Token.ofLexeme]
  rw [byteLength_cons]
  omega

/-- Of words exactly the reserved ones are of the kind of keywords. -/
theorem keyword_iff_of_stretch {x : Char} {more after : List Char} {k : Category}
    (h : Stretch x more after (some k)) (hword : k.isWordKind) :
    k = .keyword ↔ (Keyword.ofSpelling? (String.ofList (x :: more))).isSome := by
  cases h with
  | name hx hrun hend =>
    rw [wordKind]
    split
    · next hspelled => exact iff_of_true rfl hspelled
    · next hspelled => exact iff_of_false (by decide) hspelled
  | _ => cases hword

theorem spelled_of_keyword (ht : t ∈ candidates source) (hkeyword : t.category = .keyword) :
    (Keyword.ofSpelling? t.text).isSome := by
  obtain ⟨k, before, x, more, after, -, hfound, hteq⟩ := exists_found_of_mem ht
  have hk : k = .keyword := by
    rcases hfound.claims with hkind | ⟨-, hkind⟩
    · rw [← hkeyword, Option.some.inj hkind]
    · exact Option.some.inj hkind
  rw [hteq]
  exact (keyword_iff_of_stretch hfound.stretch (hk ▸ rfl)).mp hk

theorem mem_candidates_of_mem_tokenize (ht : t ∈ tokenize source) : t ∈ candidates source := by
  rw [tokenize, select_candidates] at ht
  have hfound := (scan_agrees source.toList false 0 nofun).1 t ht
  exact List.mem_flatMap.mpr ⟨t.category, t.category.mem_all, hfound⟩

theorem not_spelled_of_mem_tokenize (ht : t ∈ tokenize source)
    (hname : t.category = .identifier) : ¬(Keyword.ofSpelling? t.text).isSome := by
  rw [tokenize, select_candidates] at ht
  obtain ⟨x, more, after, htext, hstretch⟩ := scanned_of_mem_scan source.toList 0 t ht
  rw [hname] at hstretch
  rw [htext, ← keyword_iff_of_stretch hstretch rfl]
  exact nofun

/-- What is not chosen is beaten by what is chosen. -/
theorem mem_tokenize_or_beaten (ht : t ∈ candidates source) :
    t ∈ tokenize source ∨ ∃ s ∈ tokenize source, Beats s t := by
  obtain ⟨c, -, ht⟩ := List.mem_flatMap.mp ht
  rw [tokenize, select_candidates]
  exact (scan_agrees source.toList false 0 nofun).2 c t ht

/-- What is beaten is a name that is reserved, or is found in a quoted text. -/
theorem cases_of_beats (hs : s ∈ candidates source) (ht : t ∈ candidates source)
    (h : Beats s t) (hkinds : s.category = .identifier → ¬(Keyword.ofSpelling? s.text).isSome) :
    (s.category = .keyword ∧ t.category = .identifier ∧ t.text = s.text) ∨
      (s.IsQuotation ∧ t.category ≠ .literal ∧ t.span.Inside s.span) := by
  have hoverlaps := h.overlaps
  have hstart := start_le_of_precedes h.first
  have hwide := wide_of_mem ht
  have hlaminar : s.Laminar t := by
    have hsymm : Std.Symm Token.Laminar := ⟨fun _ _ => Token.Laminar.symm⟩
    apply (candidates_pairwise source).forall hs ht
    -- No token beats itself.
    rintro rfl
    exact absurd (h.higher h.first) (Nat.lt_irrefl _)
  cases hlaminar with
  | apart hspan =>
    rw [Span.Apart] at hspan
    omega
  | twins hspan htext hwords =>
    rcases hwords with ⟨hkeyword, hname⟩ | ⟨hname, hkeyword⟩
    · exact Or.inl ⟨hkeyword, hname, htext.symm⟩
    · have hspelled := spelled_of_keyword ht hkeyword
      rw [← htext] at hspelled
      exact absurd hspelled (hkinds hname)
  | around hquotation hother hinside => exact Or.inr ⟨hquotation, hother, hinside⟩
  | within hquotation hother hinside =>
    have hbefore := hinside.1
    omega

theorem mem_tokenize_of_quotation (hq : q ∈ candidates source) (hquotation : q.IsQuotation) :
    q ∈ tokenize source := by
  rcases mem_tokenize_or_beaten hq with hkept | ⟨s, hs, hbeats⟩
  · exact hkept
  · exfalso
    rcases cases_of_beats (mem_candidates_of_mem_tokenize hs) hq hbeats
      (not_spelled_of_mem_tokenize hs) with ⟨-, hname, -⟩ | ⟨-, hother, -⟩
    · rw [hquotation.1] at hname
      cases hname
    · exact hother hquotation.1

theorem not_inside_of_mem_tokenize (ht : t ∈ tokenize source) (hq : q ∈ tokenize source) :
    ¬t.span.Inside q.span := by
  rintro ⟨hstart, hstop⟩
  have hwide := wide_of_mem (mem_candidates_of_mem_tokenize ht)
  have hapart : t.span.Apart q.span := by
    apply apart_of_mem ht hq
    rintro rfl
    exact Nat.lt_irrefl _ hstart
  rw [Span.Apart] at hapart
  omega

/-- A candidate is chosen unless it is in a quoted text or is a name that is reserved. -/
theorem mem_tokenize_iff (ht : t ∈ candidates source) : t ∈ tokenize source ↔
    (∀ q ∈ candidates source, q.IsQuotation → ¬t.span.Inside q.span) ∧
      ¬(t.category = .identifier ∧ (Keyword.ofSpelling? t.text).isSome) := by
  constructor
  · intro hkept
    refine ⟨fun q hq hquotation => ?_, fun ⟨hname, hspelled⟩ => ?_⟩
    · exact not_inside_of_mem_tokenize hkept (mem_tokenize_of_quotation hq hquotation)
    · exact not_spelled_of_mem_tokenize hkept hname hspelled
  · rintro ⟨houtside, hunreserved⟩
    -- What is not kept was beaten, and there are just two ways to beat a candidate.
    rcases mem_tokenize_or_beaten ht with hkept | ⟨s, hs, hbeats⟩
    · exact hkept
    · exfalso
      have hsource := mem_candidates_of_mem_tokenize hs
      rcases cases_of_beats hsource ht hbeats (not_spelled_of_mem_tokenize hs) with
        ⟨hkeyword, hname, htext⟩ | ⟨hquotation, -, hinside⟩
      · exact hunreserved ⟨hname, htext ▸ spelled_of_keyword hsource hkeyword⟩
      · exact houtside s hsource hquotation hinside

end Candidates

/-- Two candidates that overlap are one word, found as a reserved word and as a name, or one lies
in a quoted text which is the other. So a token is lost only as the name of a reserved word or
between two quotes, and the kept ones stand in their order. -/
theorem candidates_laminar (source : String) :
    (candidates source).Pairwise Token.Laminar ∧
      (∀ t ∈ candidates source, t.span.start < t.span.stop ∧
        (t ∈ tokenize source ↔
          (∀ q ∈ candidates source, q.IsQuotation → ¬t.span.Inside q.span) ∧
            ¬(t.category = .identifier ∧ (Keyword.ofSpelling? t.text).isSome))) ∧
      (∀ t ∈ tokenize source, t ∈ candidates source) ∧
      (tokenize source).Pairwise fun t u => t.span.start < u.span.start := by
  refine ⟨candidates_pairwise source, fun t ht => ⟨wide_of_mem ht, mem_tokenize_iff ht⟩,
    fun t => mem_candidates_of_mem_tokenize, ?_⟩
  apply (tokenize_ordered source).imp_of_mem
  intro t u ht _ hstop
  have hwide := wide_of_mem (mem_candidates_of_mem_tokenize ht)
  exact Nat.lt_of_lt_of_le hwide hstop

end Gloss
