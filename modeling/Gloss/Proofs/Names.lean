import Gloss.Proofs.ViablePrefix

namespace Gloss

namespace Goal

variable {g loop : Goal} {gs gs₁ hs rest n : List Goal} {s s₁ : NameSet} {t u : Token}
  {p d ts : List Token} {last : Bool} {e : SyntaxError} {x : String}

section Steps

/-- Only the goal for a new variable declares anything. -/
theorem names_cases (h : g.offer s t last = .reads s₁ n) :
    (g = .newVariable ∧ t.category = .identifier ∧ s₁ = s.insert t.text) ∨
      (g ≠ .newVariable ∧ s₁ = s) := by
  cases readsOn_of_offer h with
  | declares hname => exact Or.inl ⟨rfl, hname, rfl⟩
  | starts => exact Or.inr ⟨by simp, rfl⟩
  | startsOne _ _ hloop =>
    refine Or.inr ⟨?_, rfl⟩
    rintro rfl
    rcases hloop with hloop | hloop <;> cases hloop
  | leaves _ _ hg => exact Or.inr ⟨hg, rfl⟩

/-- Statements are asked for in loops only, not one by one. -/
theorem statement_not_mem_of_reads (h : g.offer s t last = .reads s₁ n) : .statement ∉ n := by
  have hfirst {m : List Goal} (hm : afterFirst t last = .ok m) : .statement ∉ m := by
    rcases of_afterFirst hm with ⟨-, rfl⟩ | ⟨-, rfl⟩ | ⟨-, rfl⟩ | ⟨-, -, rfl⟩ <;> simp [block]
  cases readsOn_of_offer h with
  | declares => exact List.not_mem_nil
  | starts _ hm => exact hfirst hm
  | startsOne _ _ hloop hm =>
    have hnot : .statement ∉ [g] := by rcases hloop with rfl | rfl <;> simp
    exact List.not_mem_append (hfirst hm) hnot
  | leaves _ _ _ hn =>
    intro hmem
    have hplain := List.all_eq_true.mp (plain_of_mem_remainders hn) .statement hmem
    exact absurd hplain Bool.false_ne_true

/-- Of the ways to start a statement, only that by a name leaves a demand for a declared one. -/
theorem of_afterFirst_declared (h : afterFirst t last = .ok n) (hu : .declared u ∈ n) :
    u = t ∧ t.category = .identifier := by
  rcases of_afterFirst h with ⟨-, rfl⟩ | ⟨-, rfl⟩ | ⟨-, rfl⟩ | ⟨hname, -, rfl⟩
  · simp at hu
  · simp [block] at hu
  · simp at hu
  · exact ⟨by simpa using hu, hname⟩

/-- The demand for a declared name is left by a name that starts a statement. -/
theorem of_reads_declared (h : g.offer s t last = .reads s₁ n) (hu : .declared u ∈ n) :
    u = t ∧ t.category = .identifier ∧ (g = .statement ∨ g = .statements ∨ g = .restOfBlock) := by
  cases readsOn_of_offer h with
  | declares => cases hu
  | starts _ hm =>
    obtain ⟨htarget, hname⟩ := of_afterFirst_declared hm hu
    exact ⟨htarget, hname, Or.inl rfl⟩
  | startsOne _ m hloop hm =>
    have hmem : .declared u ∈ m := by
      rcases hloop with rfl | rfl <;> simpa using hu
    obtain ⟨htarget, hname⟩ := of_afterFirst_declared hm hmem
    exact ⟨htarget, hname, Or.inr hloop⟩
  | leaves _ _ _ hn => exact absurd hu (clear_of_plain (plain_of_mem_remainders hn) u)

/-- A goal that can be met without a token leaves one that cannot continue a statement. -/
theorem leaves_of_leaves (h : g.offer s t last = .leaves) (hu : u.continuesStatement = false)
    (last' : Bool) : g.offer s u last' = .leaves := by
  -- Only what may be missing leaves a token, and each of these goals waits for one that continues.
  have hmissing := missing_of_leaves h
  simp only [Token.continuesStatement, Token.binds, Bool.or_eq_false_iff] at hu
  obtain ⟨⟨⟨⟨hassign, hsemicolon⟩, hadditive, hmultiplicative⟩, hbrace⟩, helse⟩ := hu
  cases g with
  | statements => exact absurd h ofExcept_ne_leaves
  | declared target =>
    rw [offer] at h ⊢
    split at h
    · next hdecl => exact if_pos hdecl
    · cases h
  | initializer => rw [offer, hassign]; rfl
  | optionalBlock => rw [offer, hbrace]; rfl
  | alternative => rw [offer, helse]; rfl
  | terminator => rw [offer, hsemicolon]; rfl
  | moreTerms => rw [offer, hadditive]; rfl
  | moreFactors => rw [offer, hmultiplicative]; rfl
  | _ => cases hmissing

end Steps

section Runs

/-- Names stay declared. -/
theorem Reads.names_mono (h : Reads gs s p gs₁ s₁) (hx : x ∈ s) : x ∈ s₁ := by
  induction h with
  | nil => exact hx
  | cons hoffer _ ih =>
    apply ih
    obtain ⟨hs, g, rest, n, rfl, -, hread, -⟩ := of_offerAll_read hoffer
    rcases names_cases hread with ⟨-, -, rfl⟩ | ⟨-, rfl⟩
    · exact Std.ExtTreeSet.mem_insert.mpr (Or.inr hx)
    · exact hx

theorem Reads.statement_not_mem (h : Reads gs s p gs₁ s₁) (hgs : .statement ∉ gs) :
    .statement ∉ gs₁ := by
  induction h with
  | nil => exact hgs
  | cons hoffer _ ih =>
    apply ih
    obtain ⟨hs, g, rest, n, rfl, -, hread, rfl⟩ := of_offerAll_read hoffer
    intro hmem
    rcases List.mem_append.mp hmem with hmem | hmem
    · exact statement_not_mem_of_reads hread hmem
    · exact hgs (List.mem_append_right hs (List.mem_cons_of_mem g hmem))

/-- A demand for a declared name is about a token that was read, if it was not there before. -/
theorem Reads.mem_of_declared (h : Reads gs s p gs₁ s₁) (hu : .declared u ∈ gs₁) :
    u ∈ p ∨ .declared u ∈ gs := by
  induction h with
  | nil => exact Or.inr hu
  | @cons _ _ _ _ _ _ t ts hoffer _ ih =>
    rcases ih hu with hmem | hmem
    · exact Or.inl (List.mem_cons_of_mem t hmem)
    obtain ⟨hs, g, rest, n, rfl, -, hread, rfl⟩ := of_offerAll_read hoffer
    rcases List.mem_append.mp hmem with hmem | hmem
    · obtain ⟨rfl, -⟩ := of_reads_declared hread hmem
      exact Or.inl List.mem_cons_self
    · exact Or.inr (List.mem_append_right hs (List.mem_cons_of_mem g hmem))

/-- An error is about a token that is left when the goals stop, or about a demand of one of them for
a declared name. -/
theorem exists_reads_error (h : (meet gs s ts).error? = some e) : ∃ p gs₁ s₁,
    ts = p ++ (meet gs s ts).unread ∧ Reads gs s p gs₁ s₁ ∧
      ((e.kind ≠ .undeclaredVariable ∧ ∀ u, e.token? = some u → u ∈ (meet gs s ts).unread) ∨
        ∃ u, .declared u ∈ gs₁ ∧ e = .undeclaredVariable u ∧ u.text ∉ s₁) := by
  obtain ⟨p, gs₁, hts, hreads, hhalts⟩ := exists_reads gs s ts
  refine ⟨p, gs₁, _, hts, hreads, ?_⟩
  rw [h] at hhalts
  -- The goals stop at the end of input, or one of them fails on the next token.
  cases hunread : (meet gs s ts).unread with
  | nil =>
    rw [hunread] at hhalts
    obtain ⟨g, hg, hmissing⟩ := List.exists_of_findSome?_eq_some hhalts.symm
    rcases of_missing hmissing with ⟨wanted, rfl⟩ | ⟨u, rfl, he, hdecl⟩
    · exact Or.inl ⟨nofun, nofun⟩
    · exact Or.inr ⟨u, hg, he, hdecl⟩
  | cons t r =>
    rw [hunread] at hhalts
    rcases hhalts with ⟨-, hnone⟩ | ⟨e', hfail, he'⟩
    · cases hnone
    obtain rfl := Option.some.inj he'
    obtain ⟨hs, g, rest, rfl, -, hg⟩ := of_offerAll_failed hfail
    rcases of_offer_fails hg with ⟨htoken, hkind⟩ | ⟨u, rfl, he, hdecl⟩
    · refine Or.inl ⟨hkind, fun u hu => ?_⟩
      obtain rfl : t = u := Option.some.inj (htoken.symm.trans hu)
      exact List.mem_cons_self
    · exact Or.inr ⟨u, List.mem_append_right hs List.mem_cons_self, he, hdecl⟩

/-- No error is about a name that was declared before. -/
theorem undeclared_of_meet (h : (meet gs s ts).error? = some (.undeclaredVariable u)) :
    u.text ∉ s := by
  obtain ⟨p, gs₁, s₁, -, hreads, ⟨hkind, -⟩ | ⟨v, -, hv, hdecl⟩⟩ := exists_reads_error h
  · exact absurd rfl hkind
  · obtain rfl := SyntaxError.undeclaredVariable.inj hv
    intro hmem
    exact hdecl (hreads.names_mono hmem)

theorem mem_of_meet_error (h : (meet gs s ts).error? = some e) (hgs : Clear gs)
    (hu : e.token? = some u) : u ∈ ts := by
  obtain ⟨p, gs₁, s₁, hts, hreads, ⟨-, hmem⟩ | ⟨v, hv, rfl, -⟩⟩ := exists_reads_error h
  · rw [hts]
    exact List.mem_append_right p (hmem u hu)
  · -- The demand was left by a token that was read, for none was there at first.
    obtain rfl : v = u := Option.some.inj hu
    rcases hreads.mem_of_declared hv with hmem | hmem
    · rw [hts]
      exact List.mem_append_left _ hmem
    · exact absurd hmem (hgs v)

/-- An error is about nothing in front of the tokens from which the goals are met, even if it is
about the token read last. -/
theorem le_errorIndex {q : List Token} (h : (meet gs s ts).error? = some e) (hgs : Clear gs) :
    q.length ≤ (meet gs s ts).errorIndex (q ++ ts) := by
  obtain ⟨p, gs₁, s₁, hts, hreads, hcause⟩ := exists_reads_error h
  have hposition : (meet gs s ts).position (q ++ ts) = q.length + p.length := by
    rw [← List.length_append]
    apply position_eq
    rw [List.append_assoc, ← hts]
  -- The index is that of the next token, or one less if the target was read.
  rcases hcause with ⟨hkind, -⟩ | ⟨u, hu, rfl, -⟩
  · rw [errorIndex_eq h, if_neg hkind, hposition]
    omega
  · -- At least the token that left the demand has been read.
    have hread : 0 < p.length := by
      rcases hreads.mem_of_declared hu with hmem | hmem
      · exact List.length_pos_of_mem hmem
      · exact absurd hmem (hgs u)
    have hkind : (SyntaxError.undeclaredVariable u).kind = .undeclaredVariable := rfl
    rw [errorIndex_eq h, if_pos hkind, hposition]
    omega

end Runs

section Targets

/-- Goals that leave a token do not keep it from those behind them. -/
theorem meet_skip (hskip : ∀ g ∈ hs, g.offer s t ts.isEmpty = .leaves) :
    meet (hs ++ gs) s (t :: ts) = meet gs s (t :: ts) := by
  induction hs with
  | nil => rfl
  | cons g hs ih =>
    obtain ⟨hg, hskip⟩ := List.forall_mem_cons.mp hskip
    rw [List.cons_append, meet_leaves hg, ih hskip]

/-- A name that is read as the target of an assignment starts a statement of a loop, and the goals
before the loop leave it. -/
theorem exists_loop (h : Reads [.statements] ∅ p gs s)
    (hread : offerAll s t false gs = .read s₁ (.declared t :: n)) :
    t.category = .identifier ∧ ∃ hs loop rest, gs = hs ++ loop :: rest ∧
      (∀ g ∈ hs, g.offer s t false = .leaves) ∧ (loop = .statements ∨ loop = .restOfBlock) ∧
      Clear rest := by
  have hclear : Clear gs.tail := h.clear_tail clear_start.tail
  have hstatement : .statement ∉ gs := h.statement_not_mem (by simp)
  obtain ⟨hs, g, rest, m, rfl, hskip, hg, hn⟩ := of_offerAll_read hread
  have hrest : Clear rest := hclear.behind
  -- The goals behind make no such demand, so it is the goal itself that left it.
  have hmem : .declared t ∈ m := by
    have hhead : .declared t ∈ m ++ rest := by rw [← hn]; exact List.mem_cons_self
    rcases List.mem_append.mp hhead with hm | hm
    · exact hm
    · exact absurd hm (hrest t)
  obtain ⟨-, hname, rfl | hloop⟩ := of_reads_declared hg hmem
  · exact absurd (List.mem_append_right hs List.mem_cons_self) hstatement
  · exact ⟨hname, hs, g, rest, rfl, hskip, hloop, hrest⟩

/-- A statement is read where a name could start one. -/
theorem meet_statement_before (hd : Derives .statement s d s₁)
    (hskip : ∀ g ∈ hs, g.offer s t last = .leaves)
    (hloop : loop = .statements ∨ loop = .restOfBlock) (hts : Stops Token.continuesStatement ts) :
    meet (hs ++ loop :: rest) s (d ++ ts) = meet (loop :: rest) s₁ ts := by
  obtain ⟨u, d', rfl, hu, -⟩ := hd.exists_head
  have hleaves : ∀ g ∈ hs, g.offer s u (d' ++ ts).isEmpty = .leaves := fun g hg =>
    leaves_of_leaves (hskip g hg) hu _
  have hprogram : Derives .program s (u :: d' ++ []) s₁ := .statements hd .noStatements
  rw [List.append_nil] at hprogram
  rw [List.cons_append, meet_skip hleaves]
  exact meets_of_derives hprogram rest hts loop hloop

theorem offer_loop_name (ht : t.category = .identifier)
    (hloop : loop = .statements ∨ loop = .restOfBlock) : loop.offer s t false =
      .reads s [.declared t, .token (.ofOperator .assign), .expression, .terminator, loop] := by
  rcases hloop with rfl | rfl
  · rw [offer, afterFirst_name ht]
    rfl
  · have hclose : t.isBracket closeBrace = false := Token.isBracket_of_category (by simp [ht])
    rw [offer, hclose, afterFirst_name ht]
    rfl

/-- Behind a statement that declares it, a name that started an assignment is read as its target. -/
theorem exists_meet_target {r : List Token} (h : Reads [.statements] ∅ p gs s)
    (hread : offerAll s t false gs = .read s₁ (.declared t :: n)) {s₂ : NameSet}
    (hd : Derives .statement s d s₂) (hu : u.category = .identifier) (hdecl : u.text ∈ s₂)
    (hr : r ≠ []) : ∃ gs₂, Clear gs₂ ∧ parse (p ++ (d ++ u :: r)) = meet gs₂ s₂ r := by
  obtain ⟨-, hs, loop, rest, rfl, hskip, hloop, hrest⟩ := exists_loop h hread
  have hstops : Stops Token.continuesStatement (u :: r) := stops_cons.mpr
    (Token.continuesStatement_of_category (by simp [hu]) (by simp [hu]) (by simp [hu]))
  have hmore : r.isEmpty = false := by simp [hr]
  have hoffer : loop.offer s₂ u r.isEmpty = .reads s₂
      [.declared u, .token (.ofOperator .assign), .expression, .terminator, loop] := by
    rw [hmore]
    exact offer_loop_name hu hloop
  have hclear : Clear [.token (.ofOperator .assign), .expression, .terminator, loop] := by
    rcases hloop with rfl | rfl <;> simp [Clear]
  refine ⟨_, hclear.append hrest, ?_⟩
  -- The goals before the loop leave the statement as they left the name.
  calc parse (p ++ (d ++ u :: r)) = meet (hs ++ loop :: rest) s (d ++ u :: r) :=
        meet_append h (by simp)
    _ = meet (loop :: rest) s₂ (u :: r) := meet_statement_before hd hskip hloop hstops
    _ = _ := meet_reads hoffer
    _ = _ := meet_declared hdecl

/-- An undeclared name has been read as the target of an assignment, and it was not the last token.
-/
theorem exists_target {tokens : List Token}
    (h : (parse tokens).error? = some (.undeclaredVariable t)) : ∃ p r gs s s₁ n,
      tokens = p ++ t :: r ∧ (parse tokens).errorIndex tokens = p.length ∧ r ≠ [] ∧
        Reads [.statements] ∅ p gs s ∧ offerAll s t false gs = .read s₁ (.declared t :: n) := by
  obtain ⟨p, u, r, gs, s, hreads, rfl, hindex, hu, hrefuses⟩ := exists_refuses h nofun
  obtain rfl : t = u := Option.some.inj hu
  have hr : r ≠ [] := by
    rintro rfl
    -- As the last token, the name would be refused for that.
    have herror : (parse (p ++ [t])).error? = _ := error_of_refuses hreads hrefuses nofun
    rw [h, if_pos ⟨rfl, rfl⟩] at herror
    cases herror
  rcases hrefuses with ⟨hkind, -⟩ | ⟨-, s₁, n, hread, -⟩
  · exact absurd rfl hkind
  · exact ⟨p, r, gs, s, s₁, n, rfl, hindex, hr, hreads, hread⟩

end Targets

end Goal

/-- Where a target is undeclared, a statement that declares it can be put in front: what is wrong
then is wrong behind the target, and is never that the name is undeclared. -/
theorem exists_error_behind {tokens : List Token} {t : Token}
    (h : (parse tokens).error? = some (.undeclaredVariable t)) :
    t.category = .identifier ∧ ∃ p r, tokens = p ++ t :: r ∧ r ≠ [] ∧
      ∀ d u behind, (∀ s, ∃ s₁, Derives .statement s d s₁ ∧ u.text ∈ s₁) →
        u.category = .identifier → behind ≠ [] →
        ∀ e, (parse (p ++ (d ++ u :: behind))).error? = some e →
          (∀ v, e.token? = some v → v ∈ behind) ∧
          ∀ v, e = .undeclaredVariable v → v.text ≠ u.text := by
  -- Before the name the goals stand at a loop, which reads the declaration put there.
  obtain ⟨p, r, gs, s, s₁, n, htokens, -, hr, hreads, hread⟩ := Goal.exists_target h
  obtain ⟨hname, -⟩ := Goal.exists_loop hreads hread
  refine ⟨hname, p, r, htokens, hr, ?_⟩
  intro d u behind hd hu hbehind e he
  obtain ⟨s₂, hderives, hdecl⟩ := hd s
  obtain ⟨gs₂, hclear, hmeet⟩ := Goal.exists_meet_target hreads hread hderives hu hdecl hbehind
  rw [hmeet] at he
  refine ⟨fun v hv => Goal.mem_of_meet_error he hclear hv, ?_⟩
  rintro v rfl hsame
  rw [← hsame] at hdecl
  exact Goal.undeclared_of_meet he hdecl

end Gloss
