import Gloss.Proofs.Descent

namespace Gloss
namespace Descent

def Follows (tokens : List Token) (m : Descent Unit) (gs : List Goal) (p : Progress) : Prop :=
  m.from? (p.cursor tokens) = some ((Goal.meet gs p.names p.unread).ending tokens)

/-- Wherever fewer than `n` tokens are left, a function does what is done to meet goals. -/
def Meets (tokens : List Token) (n : Nat) (m : Descent Unit) (gs : List Goal) : Prop :=
  ∀ p : Progress, p.unread <:+ tokens → p.unread.length < n → Follows tokens m gs p

/-- Where the next token is of a class and fewer than `n` are left behind it, a function reads the
token and then does what is done to meet goals. -/
def Enters (tokens : List Token) (n : Nat) (wants : Token → Prop) (m : Descent Unit)
    (gs : List Goal) : Prop :=
  ∀ t ts s, t :: ts <:+ tokens → ts.length < n → wants t →
    m.from? ((⟨t :: ts, s⟩ : Progress).cursor tokens) = some ((Goal.meet gs s ts).ending tokens)

section Parts

variable {α : Type} {tokens ts : List Token} {t : Token} {s s₁ : NameSet} {p : Progress} {n : Nat}
  {m k : Descent Unit} {g : Goal} {gs hs next : List Goal} {e : SyntaxError}

theorem follows_pure (h : Goal.meet gs p.names p.unread = ⟨p, none⟩) :
    Follows tokens (pure ()) gs p := by
  rw [Follows, h]
  rfl

theorem follows_reject (h : Goal.meet gs p.names p.unread = ⟨p, some e⟩) :
    Follows tokens (reject e) gs p := by
  rw [Follows, h, from?_reject]
  rfl

theorem follows_congr (h : Goal.meet gs p.names p.unread = Goal.meet hs p.names p.unread) :
    Follows tokens m gs p ↔ Follows tokens m hs p := by
  rw [Follows, Follows, h]

/-- After a part that reads a token, the rest goes on behind that token. -/
theorem follows_reads {x : Descent α} {f : α → Descent Unit} {a : α}
    (hx : x.from? ((⟨t :: ts, s⟩ : Progress).cursor tokens) =
      some (.ok a, (⟨ts, s₁⟩ : Progress).cursor tokens))
    (hmeet : Goal.meet gs s (t :: ts) = Goal.meet hs s₁ ts)
    (h : Follows tokens (f a) hs ⟨ts, s₁⟩) : Follows tokens (x >>= f) gs ⟨t :: ts, s⟩ := by
  rw [Follows, from?_bind hx, hmeet]
  exact h

/-- Two parts in a row meet the goals of both, where the second one does so behind the first. -/
theorem Follows.seq (hm : Follows tokens m gs p)
    (hk : (Goal.meet gs p.names p.unread).error? = none →
      Follows tokens k hs (Goal.meet gs p.names p.unread).toProgress) :
    Follows tokens (m >>= fun _ => k) (gs ++ hs) p := by
  rw [Follows, Goal.meet_append_goals]
  rw [Follows, Verdict.ending] at hm
  cases herror : (Goal.meet gs p.names p.unread).error? with
  | none =>
    rw [herror] at hm
    rw [if_pos rfl, from?_bind hm]
    exact hk herror
  | some e =>
    rw [herror] at hm
    rw [if_neg (by exact nofun), from?_bind_halt hm, Verdict.ending, herror]

theorem Meets.mono {l : Nat} (h : Meets tokens n m gs) (hl : l ≤ n) : Meets tokens l m gs :=
  fun p hp hlt => h p hp (Nat.lt_of_lt_of_le hlt hl)

/-- Goals one behind the other are met by functions one behind the other. -/
theorem Meets.seq (hm : Meets tokens n m gs) (hk : Meets tokens n k hs) :
    Meets tokens n (m >>= fun _ => k) (gs ++ hs) := by
  intro p hp hlt
  have hsuffix := Goal.unread_suffix gs p.names p.unread
  apply (hm p hp hlt).seq
  intro _
  exact hk _ (hsuffix.trans hp) (Nat.lt_of_le_of_lt hsuffix.length_le hlt)

/-- A part that cannot be met by nothing leaves fewer tokens to the next one. -/
theorem Meets.seq_below (hg : ∀ s, (g.missing? s).isSome) (hm : Meets tokens (n + 1) m (g :: gs))
    (hk : Meets tokens n k hs) : Meets tokens (n + 1) (m >>= fun _ => k) (g :: gs ++ hs) := by
  intro p hp hlt
  have hsuffix := Goal.unread_suffix (g :: gs) p.names p.unread
  apply (hm p hp hlt).seq
  intro hmet
  have hless := Goal.unread_lt hg hmet
  exact hk _ (hsuffix.trans hp) (by omega)

theorem Meets.enters {wants : Token → Prop} {x : Descent α} {a : α} (hk : Meets tokens n k gs)
    (hx : ∀ t ts s, t :: ts <:+ tokens → wants t →
      x.from? ((⟨t :: ts, s⟩ : Progress).cursor tokens) =
        some (.ok a, (⟨ts, s⟩ : Progress).cursor tokens)) :
    Enters tokens n wants (x >>= fun _ => k) gs := by
  intro t ts s hp hlt ht
  rw [from?_bind (hx t ts s hp ht)]
  exact hk ⟨ts, s⟩ ((List.suffix_cons t ts).trans hp) hlt

/-- A part that is only there if the next token is wanted. -/
theorem Meets.optional {check : Descent Bool} {wants : Token → Bool}
    (hcheck : ∀ p : Progress, p.unread <:+ tokens → check.from? (p.cursor tokens) =
      some (.ok (p.unread.head?.any wants), p.cursor tokens))
    (hoffer : ∀ s t last, g.offer s t last = .readIf (wants t) s next)
    (hend : ∀ s, g.missing? s = none)
    (hm : Enters tokens n (wants ·) m next) :
    Meets tokens (n + 1) (do if ← check then m) [g] := by
  rintro ⟨unread, s⟩ hp hlt
  -- What is optional is never missing: without its token the goal is met at once.
  cases unread with
  | nil =>
    rw [Follows, from?_bind (hcheck _ hp)]
    exact follows_pure (Goal.meet_end (hend s))
  | cons t ts =>
    have hnext : check.from? ((⟨t :: ts, s⟩ : Progress).cursor tokens) =
        some (.ok (wants t), (⟨t :: ts, s⟩ : Progress).cursor tokens) := hcheck _ hp
    rw [Follows, from?_bind hnext]
    by_cases ht : wants t
    · rw [if_pos ht, Goal.meet_wanted (hoffer s) ht, List.append_nil]
      exact hm t ts s hp (Nat.lt_of_succ_lt_succ hlt) ht
    · rw [if_neg ht, Goal.meet_unwanted (hoffer s) (hend s)
        (stops_cons.mpr ((Bool.not_eq_true _).mp ht)), Goal.meet_nil]
      rfl

end Parts

section Rules

variable {tokens ts : List Token} {t : Token} {s : NameSet} {n : Nat} {m : Descent Unit}
  {g : Goal} {gs : List Goal} {wanted : Expectation} {f : Token → Descent Unit}

theorem meets_pure : Meets tokens n (pure ()) [] :=
  fun _ _ _ => follows_pure (Goal.meet_nil _ _)

/-- A token that has to be there: it is read, or another one stands there, or none does. -/
theorem meets_consume (hsize : tokens.length < Word.size)
    (hmissing : ∀ s, g.missing? s = some (.endOfInput (.token wanted)))
    (hfails : ∀ s t last, wanted.admits t = false →
      g.offer s t last = .fails (.expectedToken wanted t))
    (hf : ∀ t ts s, t :: ts <:+ tokens → ts.length < n → wanted.admits t →
      (f t).from? ((⟨ts, s⟩ : Progress).cursor tokens) =
        some ((Goal.meet (g :: gs) s (t :: ts)).ending tokens)) :
    Meets tokens (n + 1) (consume tokens wanted >>= f) (g :: gs) := by
  rintro ⟨unread, s⟩ hp hlt
  -- The token is missing, the one that is wanted, or another one.
  cases unread with
  | nil =>
    have hhalt : (consume tokens wanted).from? ((⟨[], s⟩ : Progress).cursor tokens) =
        some (.error (.rejected (.ofError (.endOfInput (.token wanted)))),
          (⟨[], s⟩ : Progress).cursor tokens) := by
      rw [consume, from?_bind (from?_peek hp)]
      exact from?_reject _ _
    rw [Follows, from?_bind_halt hhalt, Goal.meet, List.findSome?_cons, hmissing]
    rfl
  | cons t ts =>
    by_cases ht : wanted.admits t
    · rw [Follows, from?_bind (from?_consume hsize ht hp s)]
      exact hf t ts s hp (Nat.lt_of_succ_lt_succ hlt) ht
    · have hhalt : (consume tokens wanted).from? ((⟨t :: ts, s⟩ : Progress).cursor tokens) =
          some (.error (.rejected (.ofError (.expectedToken wanted t))),
            (⟨t :: ts, s⟩ : Progress).cursor tokens) := by
        rw [consume, from?_bind (from?_peek hp)]
        dsimp only [List.head?_cons]
        rw [if_neg ht]
        exact from?_reject _ _
      have hfail := hfails s t ts.isEmpty ((Bool.not_eq_true _).mp ht)
      rw [Follows, from?_bind_halt hhalt, Goal.meet_fails hfail]
      rfl

/-- A function that reads a token leaves fewer to those it calls. -/
theorem meets_token (wanted : Expectation) (hsize : tokens.length < Word.size)
    (hf : ∀ t, Meets tokens n (f t) gs) :
    Meets tokens (n + 1) (consume tokens wanted >>= f) (.token wanted :: gs) := by
  apply meets_consume hsize
  · exact fun _ => rfl
  · intro s t last ht
    rw [Goal.offer, if_neg (Bool.eq_false_iff.mp ht)]
  · intro t ts s hp hlt ht
    rw [Goal.meet_token ht]
    exact hf t ⟨ts, s⟩ ((List.suffix_cons t ts).trans hp) hlt

section Entries

variable {α : Type} [DecidableEq α] (r : Register α) (x : α)

theorem consumeEntry_eq :
    consumeEntry tokens r x = (do let _ ← consume tokens (r.demand x); return) := by
  rw [consumeEntry, entry_eq (r.complete x)]
  rfl

theorem meets_consumeEntry (hsize : tokens.length < Word.size) :
    Meets tokens n (consumeEntry tokens r x) [.token (r.demand x)] := by
  rw [consumeEntry_eq]
  exact (meets_token _ hsize fun _ => meets_pure).mono (Nat.le_succ n)

variable {r x}

/-- Where the entry is already known to be next, it is read. -/
theorem from?_consumeEntry (hsize : tokens.length < Word.size) (ht : r.spells t x)
    (h : t :: ts <:+ tokens) (s : NameSet) :
    (consumeEntry tokens r x).from? ((⟨t :: ts, s⟩ : Progress).cursor tokens) =
      some (.ok (), (⟨ts, s⟩ : Progress).cursor tokens) := by
  rw [consumeEntry_eq, from?_bind (from?_consume hsize (r.admits_demand.trans ht) h s)]
  rfl

end Entries

theorem from?_consumeKeyword (hsize : tokens.length < Word.size) {k : Keyword}
    (ht : t.isKeyword k) (h : t :: ts <:+ tokens) (s : NameSet) :
    (consumeKeyword tokens k).from? ((⟨t :: ts, s⟩ : Progress).cursor tokens) =
      some (.ok (), (⟨ts, s⟩ : Progress).cursor tokens) :=
  from?_consumeEntry hsize ht h s

theorem from?_consumeBracket (hsize : tokens.length < Word.size) {b : Bracket}
    (ht : t.isBracket b) (h : t :: ts <:+ tokens) (s : NameSet) :
    (consumeBracket tokens b).from? ((⟨t :: ts, s⟩ : Progress).cursor tokens) =
      some (.ok (), (⟨ts, s⟩ : Progress).cursor tokens) :=
  from?_consumeEntry hsize ht h s

theorem from?_consumeOperator (hsize : tokens.length < Word.size) {o : Operator}
    (ht : t.isOperator o) (h : t :: ts <:+ tokens) (s : NameSet) :
    (consumeOperator tokens o).from? ((⟨t :: ts, s⟩ : Progress).cursor tokens) =
      some (.ok (), (⟨ts, s⟩ : Progress).cursor tokens) :=
  from?_consumeEntry hsize ht h s

theorem Meets.behindKeyword (hm : Meets tokens n m gs) (hsize : tokens.length < Word.size)
    (k : Keyword) :
    Enters tokens n (·.isKeyword k) (consumeKeyword tokens k >>= fun _ => m) gs :=
  hm.enters fun _ _ s hp ht => from?_consumeKeyword hsize ht hp s

theorem meets_consumeBracket (hsize : tokens.length < Word.size) (b : Bracket) :
    Meets tokens n (consumeBracket tokens b) [.token (.ofBracket b)] :=
  meets_consumeEntry .brackets b hsize

theorem meets_consumeOperator (hsize : tokens.length < Word.size) (o : Operator) :
    Meets tokens n (consumeOperator tokens o) [.token (.ofOperator o)] :=
  meets_consumeEntry .operators o hsize

theorem from?_checksLevel (level : Operator.Level) {p : Progress} (h : p.unread <:+ tokens) :
    (checksLevel tokens level).from? (p.cursor tokens) =
      some (.ok (p.unread.head?.any (Goal.bindsAt level)), p.cursor tokens) := by
  rw [checksLevel, from?_bind (from?_peek h)]
  cases p.unread.head? with
  | none => rfl
  | some t =>
    rw [Option.any_some, Goal.bindsAt]
    dsimp only [Option.bind_some]
    cases t.operator? with
    | none => rfl
    | some o =>
      dsimp only
      rw [from?_bind (from?_checked (entry_eq o.mem_all) _)]
      rfl

end Rules

section Expressions

variable {tokens : List Token} {n : Nat}

structure MeetsExpressions (tokens : List Token) (n : Nat) : Prop where
  factor : ∀ depth, 3 * n ≤ depth + 2 → Meets tokens n (factor tokens depth) [.factor]
  moreFactors : ∀ depth, 3 * n ≤ depth + 2 →
    Meets tokens n (moreFactors tokens depth) [.moreFactors]
  term : ∀ depth, 3 * n ≤ depth + 1 → Meets tokens n (term tokens depth) [.term]
  moreTerms : ∀ depth, 3 * n ≤ depth + 2 → Meets tokens n (moreTerms tokens depth) [.moreTerms]
  expression : ∀ depth, 3 * n ≤ depth → Meets tokens n (expression tokens depth) [.expression]

theorem meets_factor {depth : Nat} (hsize : tokens.length < Word.size)
    (ih : Meets tokens n (expression tokens depth) [.expression]) :
    Meets tokens (n + 1) (factor tokens (depth + 1)) [.factor] := by
  rintro ⟨unread, s⟩ hp hlt
  rw [Follows, Descent.factor, from?_bind (from?_peek hp)]
  -- The next token is looked at before it is read: what starts no operand is left.
  cases unread with
  | nil => exact follows_reject rfl
  | cons t ts =>
    dsimp only [List.head?_cons]
    cases hstart : t.startsOperand with
    | false =>
      have hfails (last : Bool) : Goal.factor.offer s t last = .fails (.invalidExpression t) := by
        rw [Goal.offer, Goal.afterOperandStart, hstart]
        rfl
      exact follows_reject (Goal.meet_fails (hfails _))
    | true =>
      rw [if_neg (by decide)]
      by_cases hopen : t.isBracket Goal.openParenthesis
      · have hreads (last : Bool) : Goal.factor.offer s t last =
            .reads s [.expression, .token (.ofBracket Goal.closeParenthesis)] := by
          rw [Goal.offer, Goal.afterOperandStart, hstart, if_pos hopen]
          rfl
        have hinside := ih.seq (meets_consumeBracket hsize Goal.closeParenthesis)
        rw [if_pos hopen]
        apply follows_reads (from?_consumeBracket hsize hopen hp s) (Goal.meet_reads (hreads _))
        exact hinside ⟨ts, s⟩ ((List.suffix_cons t ts).trans hp) (Nat.lt_of_succ_lt_succ hlt)
      · have hreads (last : Bool) : Goal.factor.offer s t last = .reads s [] := by
          rw [Goal.offer, Goal.afterOperandStart, hstart, if_neg hopen]
          rfl
        rw [if_neg hopen, from?_advance hsize hp s, Goal.meet_reads (hreads _), List.append_nil,
          Goal.meet_nil]
        rfl

/-- A loop over operators of a level meets the goal for more operands of that level. -/
theorem meets_more {level : Operator.Level} {operand loop : Descent Unit} {g more : Goal}
    (hsize : tokens.length < Word.size)
    (hoffer : ∀ s t last, more.offer s t last = .readIf (Goal.bindsAt level t) s [g, more])
    (hend : ∀ s, more.missing? s = none) (hoperand : Meets tokens n operand [g])
    (hloop : Meets tokens n loop [more]) :
    Meets tokens (n + 1) (do
      if ← checksLevel tokens level then
        advance tokens
        operand
        loop) [more] := by
  apply Meets.optional (fun _ => from?_checksLevel level) hoffer hend
  exact (hoperand.seq hloop).enters fun _ _ s hp _ => from?_advance hsize hp s

/-- Each function calls the others on fewer tokens, or calls one that is done with before. -/
theorem meetsExpressions (hsize : tokens.length < Word.size) (n : Nat) :
    MeetsExpressions tokens n := by
  induction n with
  | zero => constructor <;> exact fun _ _ _ _ hlt => absurd hlt (Nat.not_lt_zero _)
  | succ n ih =>
    -- Only behind the first token of a factor or of a round is the induction hypothesis for `n`
    -- used; there three calls within each other are paid for.
    have hfactor (depth : Nat) (hdepth : 3 * (n + 1) ≤ depth + 2) :
        Meets tokens (n + 1) (factor tokens depth) [.factor] := by
      obtain ⟨room, rfl⟩ := Nat.exists_eq_add_of_le' (show 1 ≤ depth by omega)
      exact meets_factor hsize (ih.expression room (by omega))
    have hmoreFactors (depth : Nat) (hdepth : 3 * (n + 1) ≤ depth + 2) :
        Meets tokens (n + 1) (moreFactors tokens depth) [.moreFactors] := by
      obtain ⟨room, rfl⟩ := Nat.exists_eq_add_of_le' (show 1 ≤ depth by omega)
      rw [Descent.moreFactors]
      exact meets_more hsize (fun _ _ _ => rfl) (fun _ => rfl) (ih.factor room (by omega))
        (ih.moreFactors room (by omega))
    have hterm (depth : Nat) (hdepth : 3 * (n + 1) ≤ depth + 1) :
        Meets tokens (n + 1) (term tokens depth) [.term] := by
      obtain ⟨room, rfl⟩ := Nat.exists_eq_add_of_le' (show 1 ≤ depth by omega)
      intro p hp hlt
      rw [Descent.term, follows_congr Goal.meet_term]
      exact ((hfactor room (by omega)).seq (hmoreFactors room (by omega))) p hp hlt
    have hmoreTerms (depth : Nat) (hdepth : 3 * (n + 1) ≤ depth + 2) :
        Meets tokens (n + 1) (moreTerms tokens depth) [.moreTerms] := by
      obtain ⟨room, rfl⟩ := Nat.exists_eq_add_of_le' (show 1 ≤ depth by omega)
      rw [Descent.moreTerms]
      exact meets_more hsize (fun _ _ _ => rfl) (fun _ => rfl) (ih.term room (by omega))
        (ih.moreTerms room (by omega))
    have hexpression (depth : Nat) (hdepth : 3 * (n + 1) ≤ depth) :
        Meets tokens (n + 1) (expression tokens depth) [.expression] := by
      obtain ⟨room, rfl⟩ := Nat.exists_eq_add_of_le' (show 1 ≤ depth by omega)
      intro p hp hlt
      rw [Descent.expression, follows_congr Goal.meet_expression]
      exact ((hterm room (by omega)).seq (hmoreTerms room (by omega))) p hp hlt
    exact ⟨hfactor, hmoreFactors, hterm, hmoreTerms, hexpression⟩

end Expressions

section Statements

variable {tokens : List Token} {n depth : Nat}

theorem meets_expression (hsize : tokens.length < Word.size) (hdepth : 3 * n ≤ depth) :
    Meets tokens n (expression tokens depth) [.expression] :=
  (meetsExpressions hsize n).expression depth hdepth

theorem meets_optionalSemicolon (hsize : tokens.length < Word.size) :
    Meets tokens n (optionalSemicolon tokens) [.terminator] := by
  have hsemicolon : Enters tokens n (·.isOperator .semicolon)
      (consumeOperator tokens .semicolon) [] := by
    intro t ts s hp _ ht
    rw [from?_consumeOperator hsize ht hp s, Goal.meet_nil]
    rfl
  exact (Meets.optional (fun _ hp => from?_checks hp _) (fun _ _ _ => rfl) (fun _ => rfl)
    hsemicolon).mono (Nat.le_succ n)

theorem meets_optionalInitializer (hsize : tokens.length < Word.size) (hdepth : 3 * n ≤ depth) :
    Meets tokens n (optionalInitializer tokens depth) [.initializer] := by
  have hassign : Enters tokens n (·.isOperator .assign)
      (do consumeOperator tokens .assign; expression tokens depth) [.expression] :=
    (meets_expression hsize hdepth).enters fun _ _ s hp ht => from?_consumeOperator hsize ht hp s
  exact (Meets.optional (fun _ hp => from?_checks hp _) (fun _ _ _ => rfl) (fun _ => rfl)
    hassign).mono (Nat.le_succ n)

theorem enters_returnStatement (hsize : tokens.length < Word.size) (hdepth : 3 * n ≤ depth) :
    Enters tokens n (·.isKeyword .returnWord) (returnStatement tokens depth)
      [.expression, .terminator] :=
  ((meets_expression hsize hdepth).seq (meets_optionalSemicolon hsize)).behindKeyword hsize _

theorem meets_declare (hsize : tokens.length < Word.size) :
    Meets tokens n (declare tokens) [.newVariable] := by
  have hdeclare : Meets tokens (n + 1) (declare tokens) [.newVariable] := by
    apply meets_consume hsize
    · exact fun _ => rfl
    · intro s t last ht
      rw [Goal.offer, if_neg (Bool.eq_false_iff.mp ht)]
    · intro t ts s hp _ ht
      rw [Goal.meet_newVariable (Expectation.admits_name.mp ht), Goal.meet_nil]
      rfl
  exact hdeclare.mono (Nat.le_succ n)

theorem enters_variableDeclaration (hsize : tokens.length < Word.size) (hdepth : 3 * n ≤ depth) :
    Enters tokens n (·.isKeyword .variableWord) (variableDeclaration tokens depth)
      [.newVariable, .initializer, .terminator] :=
  ((meets_declare hsize).seq ((meets_optionalInitializer hsize hdepth).seq
    (meets_optionalSemicolon hsize))).behindKeyword hsize _

theorem meets_requireDeclared (name : Token) :
    Meets tokens n (requireDeclared name) [.declared name] := by
  rintro ⟨unread, s⟩ _ _
  rw [Follows, requireDeclared, from?_bind (from?_get _)]
  by_cases hname : name.text ∈ s
  · rw [if_pos (show name.text ∈ ((⟨unread, s⟩ : Progress).cursor tokens).names from hname)]
    exact follows_pure ((Goal.meet_declared hname).trans (Goal.meet_nil _ _))
  · have hmeet : Goal.meet [.declared name] s unread =
        ⟨⟨unread, s⟩, some (.undeclaredVariable name)⟩ := by
      cases unread with
      | nil =>
        rw [Goal.meet, List.findSome?_cons, Goal.missing?, if_neg hname]
      | cons t ts => exact Goal.meet_fails (if_neg hname)
    rw [if_neg (show name.text ∉ ((⟨unread, s⟩ : Progress).cursor tokens).names from hname)]
    exact follows_reject hmeet

/-- An assignment begins with its target, which has to be declared. -/
theorem enters_assignment (hsize : tokens.length < Word.size) (hdepth : 3 * n ≤ depth)
    (name : Token) : Enters tokens n (fun t => t.category = .identifier ∧ t = name)
      (assignment tokens depth)
      [.declared name, .token (.ofOperator .assign), .expression, .terminator] := by
  rintro t ts s hp hlt ⟨hname, rfl⟩
  have hrest : Meets tokens n _ _ :=
    (meets_requireDeclared t).seq ((meets_consumeOperator hsize .assign).seq
      ((meets_expression hsize hdepth).seq (meets_optionalSemicolon hsize)))
  rw [assignment, from?_bind (from?_consume hsize (Expectation.admits_name.mpr hname) hp s)]
  exact hrest ⟨ts, s⟩ ((List.suffix_cons t ts).trans hp) hlt

theorem block_eq (b : Bracket) : block tokens b (depth + 1) = (do
    consumeBracket tokens b
    statementsBefore tokens b.partner depth
    consumeBracket tokens b.partner) := by
  rw [block, entry_eq b.mem_all]
  rfl

/-- Blocks of fewer than `n` tokens are read with enough room: between a block and one inside it
there are up to seven calls. -/
def MeetsBlocks (tokens : List Token) (n : Nat) : Prop :=
  ∀ depth, 7 * n ≤ depth → Meets tokens n (block tokens Goal.openBrace depth) Goal.block

structure MeetsStatements (tokens : List Token) (n : Nat) : Prop where
  statement : ∀ depth, 7 * n ≤ depth + 2 → Meets tokens n (statement tokens depth) [.statement]
  restOfBlock : ∀ depth, 7 * n ≤ depth + 1 → Meets tokens n (do
      statementsBefore tokens Goal.closeBrace depth
      consumeBracket tokens Goal.closeBrace) [.restOfBlock]
  block : MeetsBlocks tokens n

theorem meets_optionalBody (hblock : MeetsBlocks tokens n) (hdepth : 7 * n ≤ depth) :
    Meets tokens n (optionalBody tokens (depth + 1)) [.optionalBlock] := by
  cases n with
  | zero => exact fun _ _ hlt => absurd hlt (Nat.not_lt_zero _)
  | succ n =>
    have hbody : Enters tokens n (·.isBracket Goal.openBrace) (block tokens Goal.openBrace depth)
        [.restOfBlock] := by
      intro t ts s hp hlt ht
      rw [← Expectation.admits_ofBracket] at ht
      rw [← Goal.meet_token ht]
      exact hblock depth hdepth ⟨t :: ts, s⟩ hp (Nat.succ_lt_succ hlt)
    rw [optionalBody]
    exact Meets.optional (fun _ hp => from?_checks hp _) (fun _ _ _ => rfl) (fun _ => rfl) hbody

theorem meets_optionalElse (hsize : tokens.length < Word.size) (hblock : MeetsBlocks tokens n)
    (hdepth : 7 * n ≤ depth) :
    Meets tokens n (optionalElse tokens (depth + 1)) [.alternative] := by
  have helse : Enters tokens n (·.isKeyword .elseWord)
      (do consumeKeyword tokens .elseWord; block tokens Goal.openBrace depth) Goal.block :=
    (hblock depth hdepth).behindKeyword hsize _
  rw [optionalElse]
  exact (Meets.optional (fun _ hp => from?_checks hp _) (fun _ _ _ => rfl) (fun _ => rfl)
    helse).mono (Nat.le_succ n)

theorem enters_functionDeclaration (hsize : tokens.length < Word.size)
    (hblock : MeetsBlocks tokens n) (hdepth : 7 * n ≤ depth) :
    Enters tokens n (·.isKeyword .functionWord) (functionDeclaration tokens (depth + 2))
      [.token .name, .token (.ofBracket Goal.openParenthesis),
        .token (.ofBracket Goal.closeParenthesis), .optionalBlock] := by
  have hrest := (meets_consumeBracket hsize Goal.openParenthesis).seq
    ((meets_consumeBracket hsize Goal.closeParenthesis).seq (meets_optionalBody hblock hdepth))
  have hname := (meets_token .name hsize fun _ => hrest).mono (Nat.le_succ n)
  rw [functionDeclaration]
  exact hname.behindKeyword hsize _

theorem enters_ifStatement (hsize : tokens.length < Word.size) (hblock : MeetsBlocks tokens n)
    (hdepth : 7 * n ≤ depth) :
    Enters tokens n (·.isKeyword .ifWord) (ifStatement tokens (depth + 2))
      ([.token (.ofBracket Goal.openParenthesis), .expression,
        .token (.ofBracket Goal.closeParenthesis)] ++ Goal.block ++ [.alternative]) := by
  have hcondition : Meets tokens n (expression tokens (depth + 1)) [.expression] :=
    meets_expression hsize (by omega)
  have hbody := (hblock (depth + 1) (by omega)).seq (meets_optionalElse hsize hblock hdepth)
  have hrest := (meets_consumeBracket hsize Goal.openParenthesis).seq
    (hcondition.seq ((meets_consumeBracket hsize Goal.closeParenthesis).seq hbody))
  rw [ifStatement]
  exact hrest.behindKeyword hsize _

theorem meets_declarator (hsize : tokens.length < Word.size) (hblock : MeetsBlocks tokens n)
    (hdepth : 7 * n ≤ depth) :
    Meets tokens n (declarator tokens (depth + 3)) [.declarator] := by
  rintro ⟨unread, s⟩ hp hlt
  rw [Follows, declarator, from?_bind (from?_peek hp)]
  cases unread with
  | nil => exact follows_reject rfl
  | cons t ts =>
    have hts : ts.length < n := Nat.lt_of_succ_lt hlt
    dsimp only [List.head?_cons]
    -- The goal tells the same words apart as the function does.
    split
    · next hword =>
      rw [Goal.meet_reads (by rw [Goal.offer, hword]), List.append_nil]
      exact enters_variableDeclaration hsize (by omega) t ts s hp hts (decide_eq_true hword)
    · next hword =>
      rw [Goal.meet_reads (by rw [Goal.offer, hword]), List.append_nil]
      exact enters_functionDeclaration hsize hblock hdepth t ts s hp hts (decide_eq_true hword)
    · next hvariable hfunction =>
      have hfails (last : Bool) :
          Goal.declarator.offer s t last = .fails (.expectedDeclarator t) := by
        rw [Goal.offer]
        split
        · next hword => exact absurd hword hvariable
        · next hword => exact absurd hword hfunction
        · rfl
      exact follows_reject (Goal.meet_fails (hfails _))

theorem enters_declaration (hsize : tokens.length < Word.size) (hblock : MeetsBlocks tokens n)
    (hdepth : 7 * n ≤ depth) :
    Enters tokens n (·.isKeyword .letWord) (declaration tokens (depth + 4)) [.declarator] := by
  rw [declaration]
  exact (meets_declarator hsize hblock hdepth).behindKeyword hsize _

/-- A statement whose first token leads to some goals is done with when these are met. -/
theorem meet_statement {t : Token} {ts : List Token} {s : NameSet} {next : List Goal}
    (h : Goal.afterFirst t ts.isEmpty = .ok next) :
    Goal.meet [.statement] s (t :: ts) = Goal.meet next s ts := by
  rw [Goal.meet_reads (by rw [Goal.offer, h]; rfl), List.append_nil, List.append_nil]

theorem follows_reject_statement {t : Token} {ts : List Token} {s : NameSet} {e : SyntaxError}
    (h : Goal.afterFirst t ts.isEmpty = .error e) :
    Follows tokens (reject e) [.statement] ⟨t :: ts, s⟩ :=
  follows_reject (Goal.meet_fails (by rw [Goal.offer, h]; rfl))

theorem meets_statement (hsize : tokens.length < Word.size) (hblock : MeetsBlocks tokens n)
    (hdepth : 7 * n ≤ depth) :
    Meets tokens (n + 1) (statement tokens (depth + 5)) [.statement] := by
  rintro ⟨unread, s⟩ hp hlt
  rw [Follows, statement, from?_bind (from?_peek hp)]
  cases unread with
  | nil => exact follows_reject rfl
  | cons t ts =>
    have hts : ts.length < n := Nat.lt_of_succ_lt_succ hlt
    dsimp only [List.head?_cons]
    -- The function that is called is the one whose goals `Goal.afterFirst` gives for the token.
    cases hkind : t.category with
    | keyword =>
      dsimp only
      split
      · next hword =>
        rw [meet_statement (Goal.afterFirst_let (Token.keyword?_eq_some_iff.mp hword) _)]
        exact enters_declaration hsize hblock hdepth t ts s hp hts (decide_eq_true hword)
      · next hword =>
        rw [meet_statement (Goal.afterFirst_if (Token.keyword?_eq_some_iff.mp hword) _)]
        exact enters_ifStatement hsize hblock (by omega) t ts s hp hts (decide_eq_true hword)
      · next hword =>
        rw [meet_statement (Goal.afterFirst_return (Token.keyword?_eq_some_iff.mp hword) _)]
        exact enters_returnStatement hsize (by omega) t ts s hp hts (decide_eq_true hword)
      · next hlet hif hreturn =>
        apply follows_reject_statement
        rw [Goal.afterFirst, hkind]
        dsimp only
        split
        · next hword => exact absurd hword hlet
        · next hword => exact absurd hword hif
        · next hword => exact absurd hword hreturn
        · rfl
    | identifier =>
      dsimp only
      rw [from?_bind (from?_isLastToken hsize hp s)]
      cases hlast : ts.isEmpty with
      | true =>
        apply follows_reject_statement
        rw [Goal.afterFirst, hkind, hlast]
        rfl
      | false =>
        rw [meet_statement (hlast ▸ Goal.afterFirst_name hkind)]
        exact enters_assignment hsize (by omega) t t ts s hp hts ⟨hkind, rfl⟩
    | operator | literal | bracket =>
      apply follows_reject_statement
      rw [Goal.afterFirst, hkind]

theorem meets_restOfBlock (hsize : tokens.length < Word.size)
    (hrest : Meets tokens n (do
      statementsBefore tokens Goal.closeBrace depth
      consumeBracket tokens Goal.closeBrace) [.restOfBlock])
    (hstatement : Meets tokens (n + 1) (statement tokens depth) [.statement]) :
    Meets tokens (n + 1) (do
      statementsBefore tokens Goal.closeBrace (depth + 1)
      consumeBracket tokens Goal.closeBrace) [.restOfBlock] := by
  rintro ⟨unread, s⟩ hp hlt
  have hclose := meets_consumeBracket hsize Goal.closeBrace _ hp hlt
  rw [Follows, statementsBefore, bind_assoc, from?_bind (from?_checks hp _)]
  cases unread with
  | nil => exact hclose
  | cons t ts =>
    cases ht : t.isBracket Goal.closeBrace with
    | true =>
      -- The brace ends the statements, and is what is wanted then.
      have hmeet : Goal.meet [.restOfBlock] s (t :: ts) =
          Goal.meet [.token (.ofBracket Goal.closeBrace)] s (t :: ts) := by
        have hadmits := (Expectation.admits_ofBracket Goal.closeBrace t).trans ht
        rw [Goal.meet_token hadmits, Goal.meet_reads (by rw [Goal.offer, if_pos ht])]
        rfl
      rw [hmeet]
      simp only [List.head?_cons, Option.any_some, ht]
      exact hclose
    | false =>
      have hstatements := hstatement.seq_below (fun _ => rfl) hrest
      rw [Goal.meet_restOfBlock ht]
      simp only [List.head?_cons, Option.any_some, ht, Bool.not_false, if_true, bind_assoc]
      exact hstatements _ hp hlt

/-- Each function calls the others on fewer tokens, or calls one that is done with before. -/
theorem meetsStatements (hsize : tokens.length < Word.size) (n : Nat) :
    MeetsStatements tokens n := by
  induction n with
  | zero => constructor <;> exact fun _ _ _ _ hlt => absurd hlt (Nat.not_lt_zero _)
  | succ n ih =>
    -- A statement has read a token when it comes to a block, so the hypothesis for `n` is enough.
    have hstatement (depth : Nat) (hdepth : 7 * (n + 1) ≤ depth + 2) :
        Meets tokens (n + 1) (statement tokens depth) [.statement] := by
      obtain ⟨room, rfl⟩ := Nat.exists_eq_add_of_le' (show 5 ≤ depth by omega)
      exact meets_statement hsize ih.block (by omega)
    have hrest (depth : Nat) (hdepth : 7 * (n + 1) ≤ depth + 1) : Meets tokens (n + 1) (do
        statementsBefore tokens Goal.closeBrace depth
        consumeBracket tokens Goal.closeBrace) [.restOfBlock] := by
      obtain ⟨room, rfl⟩ := Nat.exists_eq_add_of_le' (show 1 ≤ depth by omega)
      exact meets_restOfBlock hsize (ih.restOfBlock room (by omega)) (hstatement room hdepth)
    have hblock : MeetsBlocks tokens (n + 1) := by
      intro depth hdepth
      obtain ⟨room, rfl⟩ := Nat.exists_eq_add_of_le' (show 1 ≤ depth by omega)
      rw [block_eq]
      exact (meets_consumeBracket hsize Goal.openBrace).seq (hrest room hdepth)
    exact ⟨hstatement, hrest, hblock⟩

/-- Seven calls for each token are room enough for the whole parser. -/
theorem meets_program (hsize : tokens.length < Word.size) (hdepth : 7 * n ≤ depth) :
    Meets tokens n (program tokens depth) [.statements] := by
  induction n generalizing depth with
  | zero => exact fun _ _ hlt => absurd hlt (Nat.not_lt_zero _)
  | succ n ih =>
    obtain ⟨room, rfl⟩ := Nat.exists_eq_add_of_le' (show 1 ≤ depth by omega)
    rintro ⟨unread, s⟩ hp hlt
    rw [Follows, program, from?_bind (from?_isAtEnd hp)]
    cases unread with
    | nil => exact follows_pure rfl
    | cons t ts =>
      have hstatement := (meetsStatements hsize (n + 1)).statement room (by omega)
      have hstatements := hstatement.seq_below (fun _ => rfl) (ih (show 7 * n ≤ room by omega))
      rw [Goal.meet_statements]
      exact hstatements _ hp hlt

/-- Wherever a run of the parser starts, it comes to an end, without a fault, and ends as a parse
does. -/
theorem from?_program_cursor (hsize : tokens.length < Word.size)
    (hdepth : 7 * (tokens.length + 1) ≤ depth) {p : Progress} (hp : p.unread <:+ tokens) :
    (program tokens depth).from? (p.cursor tokens) = some (p.parse.ending tokens) :=
  meets_program hsize hdepth p hp (Nat.lt_succ_of_le hp.length_le)

/-- With enough room the parser ends as the parse does: at the same token, and with the same names
and the same error. -/
theorem from?_program (hsize : tokens.length < Word.size)
    (hdepth : 7 * (tokens.length + 1) ≤ depth) :
    (program tokens depth).from? ⟨0, ∅⟩ = some ((parse tokens).ending tokens) := by
  rw [← Progress.cursor_start tokens]
  exact from?_program_cursor hsize hdepth List.suffix_rfl

end Statements
end Descent
end Gloss
