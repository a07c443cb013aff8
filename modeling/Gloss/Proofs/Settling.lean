import Gloss.Proofs.Names
import Gloss.Proofs.Resuming

namespace Gloss

namespace Goal

/-- How goals are met or one of them is not, one goal or token after the other: the number of steps
and the verdict. -/
inductive Runs : List Goal → NameSet → List Token → Nat → Verdict → Prop where
  | met {s ts} : Runs [] s ts 0 ⟨⟨ts, s⟩, none⟩
  | reads {g gs s t ts s₁ n k v} (hoffer : g.offer s t ts.isEmpty = .reads s₁ n)
      (hrun : Runs (n ++ gs) s₁ ts k v) : Runs (g :: gs) s (t :: ts) (k + 1) v
  | leaves {g gs s t ts k v} (hoffer : g.offer s t ts.isEmpty = .leaves)
      (hrun : Runs gs s (t :: ts) k v) : Runs (g :: gs) s (t :: ts) (k + 1) v
  | fails {g gs s t ts e} (hoffer : g.offer s t ts.isEmpty = .fails e) :
      Runs (g :: gs) s (t :: ts) 1 ⟨⟨t :: ts, s⟩, some e⟩
  | ends {g gs s k v} (hend : g.missing? s = none) (hrun : Runs gs s [] k v) :
      Runs (g :: gs) s [] (k + 1) v
  | lacks {g gs s e} (hend : g.missing? s = some e) : Runs (g :: gs) s [] 1 ⟨⟨[], s⟩, some e⟩

section Runs

variable {g : Goal} {gs n : List Goal} {s s₁ : NameSet} {t : Token} {ts : List Token} {k : Nat}
  {v : Verdict}

/-- A token that is read leaves seven goals at most: those of an `if` in a loop. -/
theorem length_of_reads {last : Bool} (h : g.offer s t last = .reads s₁ n) : n.length ≤ 7 := by
  have hfirst {m : List Goal} (hm : afterFirst t last = .ok m) : m.length ≤ 6 := by
    rcases of_afterFirst hm with ⟨-, rfl⟩ | ⟨-, rfl⟩ | ⟨-, rfl⟩ | ⟨-, -, rfl⟩ <;> simp [block]
  have hremainders : ∀ n ∈ remainders, n.length ≤ 7 := by decide
  -- A loop adds itself to what a statement leaves.
  cases readsOn_of_offer h with
  | declares => exact Nat.zero_le 7
  | starts _ hm => exact Nat.le_succ_of_le (hfirst hm)
  | startsOne _ m _ hm =>
    rw [List.length_append, List.length_singleton]
    exact Nat.succ_le_succ (hfirst hm)
  | leaves _ _ _ hn => exact hremainders n hn

/-- Every step reads a token, for which at most seven goals come, or does away with a goal. -/
theorem Runs.steps_le (h : Runs gs s ts k v) : k ≤ 7 * ts.length + gs.length := by
  induction h with
  | met => exact Nat.zero_le _
  | reads hoffer _ ih =>
    have hlength := length_of_reads hoffer
    rw [List.length_append] at ih
    rw [List.length_cons, List.length_cons]
    omega
  | leaves _ _ ih | ends _ _ ih =>
    -- The goal is done with, and the tokens are the same.
    exact Nat.succ_le_succ ih
  | fails | lacks =>
    rw [List.length_cons]
    omega

/-- Every run comes to its end, since each step reads a token or leaves smaller goals. -/
theorem exists_runs (gs : List Goal) (s : NameSet) (ts : List Token) : ∃ k v, Runs gs s ts k v := by
  -- A goal that reads leaves fewer tokens; any other is done with.
  induction ts generalizing gs s with
  | nil =>
    induction gs with
    | nil => exact ⟨_, _, .met⟩
    | cons g gs ih =>
      cases hend : g.missing? s with
      | none =>
        obtain ⟨k, v, hrun⟩ := ih
        exact ⟨_, _, .ends hend hrun⟩
      | some e => exact ⟨_, _, .lacks hend⟩
  | cons t ts ih =>
    induction gs with
    | nil => exact ⟨_, _, .met⟩
    | cons g gs ih' =>
      cases hoffer : g.offer s t ts.isEmpty with
      | reads s₁ n =>
        obtain ⟨k, v, hrun⟩ := ih (n ++ gs) s₁
        exact ⟨_, _, .reads hoffer hrun⟩
      | leaves =>
        obtain ⟨k, v, hrun⟩ := ih'
        exact ⟨_, _, .leaves hoffer hrun⟩
      | fails e => exact ⟨_, _, .fails hoffer⟩

/-- Goals are met without regard to those behind them, which begin where these end. -/
theorem Runs.meet_append (h : Runs gs s ts k v) (more : List Goal) :
    meet (gs ++ more) s ts = if v.error? = none then meet more v.names v.unread else v := by
  induction h with
  | met => rfl
  | reads hoffer _ ih => rw [List.cons_append, meet_reads hoffer, ← List.append_assoc, ih]
  | leaves hoffer _ ih => rw [List.cons_append, meet_leaves hoffer, ih]
  | fails hoffer => rw [List.cons_append, meet_fails hoffer]; rfl
  | ends hend _ ih => rw [List.cons_append, meet_end hend, ih]
  | lacks hend => rw [List.cons_append, meet, List.findSome?_cons, hend]; rfl

theorem meet_nil (s : NameSet) (ts : List Token) : meet [] s ts = ⟨⟨ts, s⟩, none⟩ := by
  cases ts with
  | nil => rfl
  | cons t ts => rfl

theorem Runs.eq_meet (h : Runs gs s ts k v) : v = meet gs s ts := by
  have hmeet := h.meet_append []
  rw [List.append_nil, meet_nil] at hmeet
  rw [hmeet]
  split
  · next hnone => rw [← hnone]
  · rfl

theorem exists_runs_meet (gs : List Goal) (s : NameSet) (ts : List Token) :
    ∃ k, Runs gs s ts k (meet gs s ts) := by
  obtain ⟨k, v, hrun⟩ := exists_runs gs s ts
  rw [← hrun.eq_meet]
  exact ⟨k, hrun⟩

/-- Goals in front of others are met as if they stood alone. -/
theorem meet_append_goals (gs more : List Goal) (s : NameSet) (ts : List Token) :
    meet (gs ++ more) s ts = if (meet gs s ts).error? = none
      then meet more (meet gs s ts).names (meet gs s ts).unread else meet gs s ts := by
  obtain ⟨k, hrun⟩ := exists_runs_meet gs s ts
  exact hrun.meet_append more

end Runs

section Parts

variable {g : Goal} {gs gs₁ : List Goal} {s s₁ : NameSet} {ts : List Token}

theorem Reads.names_of_nil (h : Reads gs s [] gs₁ s₁) : s₁ = s := by
  cases h with
  | nil => rfl

/-- Goals that cannot begin with nothing read a token when they are met. -/
theorem unread_lt (hg : ∀ s, (g.missing? s).isSome) (h : (meet (g :: gs) s ts).error? = none) :
    (meet (g :: gs) s ts).unread.length < ts.length := by
  -- A goal that nothing can stand for fails at the end of input, and never leaves its token.
  cases ts with
  | nil =>
    obtain ⟨e, he⟩ := Option.isSome_iff_exists.mp (hg s)
    rw [meet, List.findSome?_cons, he] at h
    cases h
  | cons t ts =>
    cases hoffer : g.offer s t ts.isEmpty with
    | reads s₁ n =>
      rw [meet_reads hoffer]
      exact Nat.lt_succ_of_le (unread_suffix (n ++ gs) s₁ ts).length_le
    | leaves =>
      have hsome := hg s
      rw [missing_of_leaves hoffer] at hsome
      cases hsome
    | fails e =>
      rw [meet_fails hoffer] at h
      cases h

end Parts

end Goal

namespace Progress

variable {p : Progress} {tokens : List Token} {n i j : Nat}

def after (p : Progress) (calls : Nat) : Progress := (fun q => q.parse.toProgress)^[calls] p

section Calls

theorem after_succ (p : Progress) (i : Nat) : p.after (i + 1) = (p.after i).parse.toProgress :=
  Function.iterate_succ_apply' _ i p

/-- Of several calls, each goes on where the one before it has come. -/
theorem parses_eq (p : Progress) (calls : Nat) :
    p.parses calls = (List.range calls).map fun i => (p.after i).parse := by
  induction calls generalizing p with
  | zero => rfl
  | succ calls ih =>
    rw [parses, ih, List.range_succ_eq_map, List.map_cons, List.map_map]
    rfl

/-- What has been read and declared stays. -/
theorem after_mono (p : Progress) (hij : i ≤ j) :
    (p.after j).unread <:+ (p.after i).unread ∧ ∀ x ∈ (p.after i).names, x ∈ (p.after j).names := by
  induction j, hij using Nat.le_induction with
  | base => exact ⟨List.suffix_rfl, fun x hx => hx⟩
  | succ j _ ih =>
    obtain ⟨gs, read, -, hreads, -⟩ :=
      Goal.exists_reads [.statements] (p.after j).names (p.after j).unread
    rw [after_succ]
    exact ⟨(unread_suffix _).trans ih.1, fun x hx => hreads.names_mono (ih.2 x hx)⟩

/-- A call that reads nothing declares nothing either. -/
theorem toProgress_eq_of_length (h : p.unread.length ≤ p.parse.unread.length) :
    p.parse.toProgress = p := by
  obtain ⟨read, gs, hread, hreads, -⟩ := Goal.exists_reads [.statements] p.names p.unread
  have hnil : read = [] := by
    have hlength : p.unread.length = read.length + p.parse.unread.length := by
      rw [← List.length_append]
      exact congrArg List.length hread
    apply List.eq_nil_of_length_eq_zero
    omega
  subst hnil
  have hunread : p.unread = p.parse.unread := hread
  have hnames : p.parse.names = p.names := hreads.names_of_nil
  calc p.parse.toProgress = ⟨p.parse.unread, p.parse.names⟩ := rfl
    _ = ⟨p.unread, p.names⟩ := by rw [hunread, hnames]
    _ = p := rfl

/-- A call that changes nothing is followed by calls that change nothing. -/
theorem after_of_fixed (h : (p.after i).parse.toProgress = p.after i) (hij : i ≤ j) :
    p.after j = p.after i := by
  induction j, hij using Nat.le_induction with
  | base => rfl
  | succ j _ ih => rw [after_succ, ih, h]

/-- After some calls nothing changes any more, or each of them has read a token. -/
theorem fixed_or_read (p : Progress) (i : Nat) : (p.after i).parse.toProgress = p.after i ∨
    (p.after (i + 1)).unread.length + (i + 1) ≤ p.unread.length := by
  have hstep (i : Nat) : (p.after i).parse.toProgress = p.after i ∨
      (p.after (i + 1)).unread.length < (p.after i).unread.length := by
    by_cases hle : (p.after i).unread.length ≤ (p.after i).parse.unread.length
    · exact Or.inl (toProgress_eq_of_length hle)
    · rw [after_succ]
      exact Or.inr (Nat.lt_of_not_le hle)
  -- Until the calls stand still each of them reads a token at least.
  induction i with
  | zero => exact hstep 0
  | succ i ih =>
    rcases ih with hfixed | hread
    · -- What stands still goes on standing still.
      left
      rw [after_succ, hfixed, hfixed]
    · rcases hstep (i + 1) with hfixed | hlt
      · exact Or.inl hfixed
      · right
        omega

/-- There are no more calls that read than tokens. -/
theorem settled (h : p.unread.length ≤ n) : (p.after n).parse.toProgress = p.after n := by
  rcases p.fixed_or_read n with hfixed | hread
  · exact hfixed
  · omega

end Calls

section Positions

theorem position_le (tokens : List Token) (p : Progress) : p.position tokens ≤ tokens.length :=
  Nat.sub_le _ _

theorem unread_after (tokens : List Token) (i : Nat) :
    ((start tokens).after i).unread <:+ tokens :=
  ((start tokens).after_mono (Nat.zero_le i)).1

/-- Of a suffix of the tokens the position says all. -/
theorem unread_eq_drop (h : p.unread <:+ tokens) : p.unread = tokens.drop (p.position tokens) := by
  rw [position]
  exact List.suffix_iff_eq_drop.mp h

theorem position_eq_iff (h : p.unread <:+ tokens) :
    p.position tokens = tokens.length ↔ p.unread = [] := by
  have hle := h.length_le
  rw [position, ← List.length_eq_zero_iff]
  omega

theorem position_mono {q : Progress} (h : q.unread <:+ p.unread) :
    p.position tokens ≤ q.position tokens := by
  have hle := h.length_le
  rw [position, position]
  omega

end Positions

end Progress

/-- A call takes at most seven steps for each token that is left, and one more. Each statement,
block, expression, term and factor that is met, alone or in front of other goals, has read a token.
From call to call the position grows and no name is lost; what stops a call on the spot stops all
later ones alike, and after as many calls as there are tokens nothing changes any more. -/
theorem parses_settle (tokens : List Token) :
    let call := fun i => ((Progress.start tokens).after i).parse
    (∀ calls, (Progress.start tokens).parses calls = (List.range calls).map call) ∧
    (∀ p : Progress, (∃ steps, Goal.Runs [.statements] p.names p.unread steps p.parse) ∧
      ∀ steps v, Goal.Runs [.statements] p.names p.unread steps v →
        steps ≤ 7 * p.unread.length + 1 ∧ v = p.parse) ∧
    (∀ part ∈ [[.statement], Goal.block, [.expression], [.term], [.factor]],
      ∀ names unread more, let v := Goal.meet part names unread
        if v.error? = none then
          v.unread.length < unread.length ∧
            Goal.meet (part ++ more) names unread = Goal.meet more v.names v.unread
        else Goal.meet (part ++ more) names unread = v) ∧
    (∀ i, (call i).position tokens ≤ tokens.length ∧
      (call i).unread = tokens.drop ((call i).position tokens)) ∧
    (∀ i j, i ≤ j → (call i).position tokens ≤ (call j).position tokens ∧
      ∀ x ∈ (call i).names, x ∈ (call j).names) ∧
    (∀ i j, i ≤ j → (call i).error? ≠ none →
      (call i).position tokens = ((Progress.start tokens).after i).position tokens →
        call j = call i) ∧
    (∀ j, tokens.length ≤ j → call j = call tokens.length) ∧
    ((call tokens.length).error? = none ↔
      (call tokens.length).position tokens = tokens.length) := by
  intro call
  -- Call `i` starts from the progress behind `i` calls, and ends with that behind `i + 1`.
  have hafter (i : Nat) : ((Progress.start tokens).after (i + 1)) = (call i).toProgress :=
    Progress.after_succ _ i
  have hsuffix (i : Nat) : (call i).unread <:+ tokens := by
    rw [← hafter]
    exact Progress.unread_after tokens (i + 1)
  refine ⟨Progress.parses_eq _, ?steps, ?parts, ?range, ?mono, ?repeated, ?settled, ?accepted⟩
  case steps =>
    intro p
    refine ⟨Goal.exists_runs_meet [.statements] p.names p.unread, ?_⟩
    intro steps v hrun
    exact ⟨hrun.steps_le, hrun.eq_meet⟩
  case parts =>
    intro part hpart names unread more v
    have happend := Goal.meet_append_goals part more names unread
    split
    · next hmet =>
      refine ⟨?_, by rw [happend, if_pos hmet]⟩
      simp only [List.mem_cons, List.not_mem_nil, or_false] at hpart
      obtain rfl | rfl | rfl | rfl | rfl := hpart <;> exact Goal.unread_lt (fun _ => rfl) hmet
    · next hmet => rw [happend, if_neg hmet]
  case range =>
    intro i
    exact ⟨Progress.position_le tokens _, Progress.unread_eq_drop (hsuffix i)⟩
  case mono =>
    intro i j hij
    rw [← hafter, ← hafter]
    obtain ⟨hunread, hnames⟩ := (Progress.start tokens).after_mono (Nat.succ_le_succ hij)
    exact ⟨Progress.position_mono hunread, hnames⟩
  case repeated =>
    intro i j hij _ hposition
    -- A call that reads nothing leaves the progress as it is, so it is repeated for ever.
    have hstays : (call i).toProgress = (Progress.start tokens).after i := by
      apply Progress.toProgress_eq_of_length
      have hle := (Progress.unread_after tokens i).length_le
      have hle' := (hsuffix i).length_le
      rw [Progress.position, Progress.position] at hposition
      show _ ≤ (call i).unread.length
      omega
    exact congrArg Progress.parse (Progress.after_of_fixed hstays hij)
  case settled =>
    intro j hj
    have hfixed := Progress.settled (p := Progress.start tokens) (Nat.le_refl tokens.length)
    exact congrArg Progress.parse (Progress.after_of_fixed hfixed hj)
  case accepted =>
    have hfixed := Progress.settled (p := Progress.start tokens) (Nat.le_refl tokens.length)
    rw [Progress.position_eq_iff (hsuffix _)]
    constructor
    · intro hnone
      exact Goal.unread_eq_nil hnone (List.mem_singleton_self _)
    · intro hunread
      -- The call has read nothing, so it began at the end of input.
      have hstart : ((Progress.start tokens).after tokens.length).unread = [] := by
        rw [← hfixed]
        exact hunread
      show (Goal.meet _ _ _).error? = none
      rw [hstart]
      rfl

end Gloss
