import Gloss.Proofs.DescentRules

namespace Gloss

def Cursor.next (c : Cursor) : Cursor := { c with position := c.position + 1 }

namespace Descent

def Succeeds {α : Type} (m : Descent α) (c : Cursor) : Prop := ∃ a c', m.from? c = some (.ok a, c')

section Reading

variable {tokens : List Token} {c : Cursor} {t : Token} {wanted : Expectation}

/-- Where a token is next, the cursor is that of a progress to which it and others are left. -/
theorem exists_unread (h : tokens[c.position]? = some t) : ∃ ts s, t :: ts <:+ tokens ∧
    c = (⟨t :: ts, s⟩ : Progress).cursor tokens ∧
    c.next = (⟨ts, s⟩ : Progress).cursor tokens := by
  obtain ⟨hlt, rfl⟩ := List.getElem?_eq_some_iff.mp h
  have hsplit : tokens.drop c.position = tokens[c.position] :: tokens.drop (c.position + 1) :=
    List.drop_eq_getElem_cons hlt
  have hposition : tokens.length - (tokens.length - c.position) = c.position := by omega
  have hbehind : tokens.length - (tokens.length - (c.position + 1)) = c.position + 1 := by omega
  refine ⟨tokens.drop (c.position + 1), c.names, hsplit ▸ List.drop_suffix _ _, ?_, ?_⟩
  · rw [Progress.cursor, Progress.position, ← hsplit, List.length_drop, hposition]
  · rw [Progress.cursor, Progress.position, List.length_drop, hbehind, Cursor.next]

theorem succeeds_consume_iff (hsize : tokens.length < Word.size)
    (h : tokens[c.position]? = some t) :
    Succeeds (consume tokens wanted) c ↔ wanted.admits t := by
  obtain ⟨ts, s, hp, rfl, -⟩ := exists_unread h
  constructor
  · rintro ⟨a, c', hrun⟩
    by_contra hnot
    rw [consume, from?_bind (from?_peek hp)] at hrun
    dsimp only [List.head?_cons] at hrun
    rw [if_neg hnot, from?_reject] at hrun
    cases hrun
  · intro ht
    exact ⟨t, _, from?_consume hsize ht hp s⟩

end Reading
end Descent

/-- What a token is found to be agrees with what it is read as. -/
structure Register.Agrees {α : Type} (r : Register α) (tokens : List Token)
    (find? : Token → Option α) (is : Token → α → Bool) : Prop where
  is_iff_succeeds : ∀ (c : Cursor) (t : Token) (x : α), tokens[c.position]? = some t →
    (is t x ↔ Descent.Succeeds (Descent.consume tokens (r.demand x)) c)
  isSome_iff : ∀ t, (find? t).isSome ↔ t.category = r.category ∧ t.text ∈ r.entries.map r.spelling
  unique : ∀ t x, find? t = some x → ∀ y ∈ r.entries, r.spelling y = t.text ↔ y = x

/-- A token is looked up by its text and read by comparing it with one spelling, and no two entries
share a spelling. -/
theorem Register.agrees {α : Type} [DecidableEq α] (r : Register α) {tokens : List Token}
    (hsize : tokens.length < Word.size) : r.Agrees tokens r.find? r.spells where
  -- All three follow from what it takes to be spelled like an entry of the table.
  is_iff_succeeds := by
    intro c t x h
    rw [Descent.succeeds_consume_iff hsize h, r.admits_demand]
  isSome_iff := by
    intro t
    rw [Option.isSome_iff_exists, List.mem_map]
    constructor
    · rintro ⟨x, hx⟩
      obtain ⟨hkind, htext⟩ := r.find?_eq_some_iff.mp hx
      exact ⟨hkind, x, r.complete x, htext.symm⟩
    · rintro ⟨hkind, x, -, htext⟩
      exact ⟨x, r.find?_eq_some_iff.mpr ⟨hkind, htext.symm⟩⟩
  unique := by
    intro t x hx y _
    obtain ⟨-, htext⟩ := r.find?_eq_some_iff.mp hx
    rw [htext]
    exact r.spelling_inj

namespace Descent

/-- A function that has found the next token to be what it wants goes on behind that token: the
token is read, whatever it is compared with then. -/
structure Proceeds (tokens : List Token) (depth : Nat) (c : Cursor) (t : Token) : Prop where
  letWord : t.isKeyword .letWord →
    (statement tokens (depth + 2)).from? c = (declarator tokens depth).from? c.next
  ifWord : t.isKeyword .ifWord → (statement tokens (depth + 2)).from? c = from? (do
    consumeBracket tokens Goal.openParenthesis
    expression tokens depth
    consumeBracket tokens Goal.closeParenthesis
    block tokens Goal.openBrace depth
    optionalElse tokens depth) c.next
  returnWord : t.isKeyword .returnWord → (statement tokens (depth + 1)).from? c = from? (do
    expression tokens depth
    optionalSemicolon tokens) c.next
  target : t.category = .identifier → c.position + 1 ≠ tokens.length →
    (statement tokens (depth + 1)).from? c = from? (do
      requireDeclared t
      consumeOperator tokens .assign
      expression tokens depth
      optionalSemicolon tokens) c.next
  variableWord : t.isKeyword .variableWord → (declarator tokens (depth + 1)).from? c = from? (do
    declare tokens
    optionalInitializer tokens depth
    optionalSemicolon tokens) c.next
  functionWord : t.isKeyword .functionWord → (declarator tokens (depth + 2)).from? c = from? (do
    let _ ← consume tokens .name
    consumeBracket tokens Goal.openParenthesis
    consumeBracket tokens Goal.closeParenthesis
    optionalBody tokens depth) c.next
  assign : t.isOperator .assign →
    (optionalInitializer tokens depth).from? c = (expression tokens depth).from? c.next
  semicolon : t.isOperator .semicolon → (optionalSemicolon tokens).from? c = some (.ok (), c.next)
  openParenthesis : t.isBracket Goal.openParenthesis →
    (factor tokens (depth + 1)).from? c = from? (do
      expression tokens depth
      consumeBracket tokens Goal.closeParenthesis) c.next
  openBrace : t.isBracket Goal.openBrace → (optionalBody tokens (depth + 2)).from? c = from? (do
    statementsBefore tokens Goal.closeBrace depth
    consumeBracket tokens Goal.closeBrace) c.next
  elseWord : t.isKeyword .elseWord →
    (optionalElse tokens (depth + 1)).from? c = (block tokens Goal.openBrace depth).from? c.next

section Proceeding

variable {tokens ts : List Token} {t : Token} {s : NameSet} {depth : Nat}

/-- What a statement does that begins with a reserved word. -/
theorem from?_statement_keyword (hp : t :: ts <:+ tokens) {k : Keyword} (ht : t.isKeyword k) :
    (statement tokens (depth + 1)).from? ((⟨t :: ts, s⟩ : Progress).cursor tokens) =
      from? (match k with
        | .letWord => declaration tokens depth
        | .ifWord => ifStatement tokens depth
        | .returnWord => returnStatement tokens depth
        | _ => reject (.unknownKeyword t)) ((⟨t :: ts, s⟩ : Progress).cursor tokens) := by
  have hkind : t.category = .keyword := ((t.isKeyword_iff k).mp ht).1
  have hword : t.keyword? = some k := of_decide_eq_true ht
  rw [statement, from?_bind (from?_peek hp)]
  dsimp only [List.head?_cons]
  rw [hkind, hword]
  cases k <;> rfl

theorem from?_declarator_keyword (hp : t :: ts <:+ tokens) {k : Keyword} (ht : t.isKeyword k) :
    (declarator tokens (depth + 1)).from? ((⟨t :: ts, s⟩ : Progress).cursor tokens) =
      from? (match k with
        | .variableWord => variableDeclaration tokens depth
        | .functionWord => functionDeclaration tokens depth
        | _ => reject (.expectedDeclarator t)) ((⟨t :: ts, s⟩ : Progress).cursor tokens) := by
  have hword : t.keyword? = some k := of_decide_eq_true ht
  rw [declarator, from?_bind (from?_peek hp)]
  dsimp only [List.head?_cons]
  rw [hword]
  cases k <;> rfl

/-- An optional part is there if the next token is wanted. -/
theorem from?_if_checks {m : Descent Unit} {wants : Token → Bool} (hp : t :: ts <:+ tokens)
    (ht : wants t) : from? (do if ← checks tokens wants then m)
      ((⟨t :: ts, s⟩ : Progress).cursor tokens) =
        m.from? ((⟨t :: ts, s⟩ : Progress).cursor tokens) := by
  rw [from?_bind (from?_checks hp wants), List.head?_cons, Option.any_some, if_pos ht]

end Proceeding

/-- A cursor is not before the last token if another one follows. -/
theorem isEmpty_of_position {tokens ts : List Token} {t : Token} {s : NameSet}
    (hp : t :: ts <:+ tokens)
    (h : ((⟨t :: ts, s⟩ : Progress).cursor tokens).position + 1 ≠ tokens.length) :
    ts.isEmpty = false := by
  have hle := hp.length_le
  cases ts with
  | nil =>
    simp only [Progress.cursor, Progress.position, List.length_singleton] at h hle
    omega
  | cons u ts => rfl

/-- Where a token is wanted and found, the function reads it and goes on. -/
theorem proceeds {tokens : List Token} (hsize : tokens.length < Word.size) (depth : Nat)
    {c : Cursor} {t : Token} (h : tokens[c.position]? = some t) : Proceeds tokens depth c t := by
  obtain ⟨ts, s, hp, rfl, hnext⟩ := exists_unread h
  -- The check has chosen the branch; what is left in each case is that its first step reads the
  -- token.
  constructor <;> rw [hnext]
  case letWord =>
    intro ht
    rw [from?_statement_keyword hp ht, declaration]
    exact from?_bind (from?_consumeKeyword hsize ht hp s)
  case ifWord =>
    intro ht
    rw [from?_statement_keyword hp ht, ifStatement]
    exact from?_bind (from?_consumeKeyword hsize ht hp s)
  case returnWord =>
    intro ht
    rw [from?_statement_keyword hp ht, returnStatement]
    exact from?_bind (from?_consumeKeyword hsize ht hp s)
  case target =>
    intro hkind hposition
    have hlast := from?_isLastToken hsize hp s
    rw [isEmpty_of_position hp hposition] at hlast
    rw [statement, from?_bind (from?_peek hp)]
    dsimp only [List.head?_cons]
    rw [hkind]
    dsimp only
    rw [from?_bind hlast, if_neg Bool.false_ne_true, assignment]
    exact from?_bind (from?_consume hsize (Expectation.admits_name.mpr hkind) hp s)
  case variableWord =>
    intro ht
    rw [from?_declarator_keyword hp ht, variableDeclaration]
    exact from?_bind (from?_consumeKeyword hsize ht hp s)
  case functionWord =>
    intro ht
    rw [from?_declarator_keyword hp ht, functionDeclaration]
    exact from?_bind (from?_consumeKeyword hsize ht hp s)
  case assign =>
    intro ht
    rw [optionalInitializer, from?_if_checks hp ht]
    exact from?_bind (from?_consumeOperator hsize ht hp s)
  case semicolon =>
    intro ht
    rw [optionalSemicolon, from?_if_checks hp ht]
    exact from?_consumeOperator hsize ht hp s
  case openParenthesis =>
    intro ht
    have hstart : t.startsOperand = true := Bool.or_eq_true_iff.mpr (Or.inr ht)
    rw [factor, from?_bind (from?_peek hp)]
    dsimp only [List.head?_cons]
    rw [hstart, if_neg (by decide), if_pos ht]
    exact from?_bind (from?_consumeBracket hsize ht hp s)
  case openBrace =>
    intro ht
    rw [optionalBody, from?_if_checks hp ht, block_eq]
    exact from?_bind (from?_consumeBracket hsize ht hp s)
  case elseWord =>
    intro ht
    rw [optionalElse, from?_if_checks hp ht]
    exact from?_bind (from?_consumeKeyword hsize ht hp s)

end Descent

/-- Looking a token up and reading it agree, whatever its kind and its text are. A token is found to
be an entry of a table exactly if it can be read where that entry is demanded; it is some entry
exactly if it has the kind and a spelling of the table, and then it is the only one with that
spelling. So every function of the parser that has found the next token to be what it wants goes on
behind it. -/
theorem checks_agree (tokens : List Token) (hsize : tokens.length < Word.size) :
    Register.keywords.Agrees tokens Token.keyword? Token.isKeyword ∧
    Register.operators.Agrees tokens Token.operator? Token.isOperator ∧
    Register.brackets.Agrees tokens Token.bracket? Token.isBracket ∧
    ∀ (depth : Nat) (c : Cursor) (t : Token), tokens[c.position]? = some t →
      Descent.Proceeds tokens depth c t := by
  refine ⟨?keywords, ?operators, ?brackets, fun depth _ _ => Descent.proceeds hsize depth⟩
  case keywords => exact Register.keywords.agrees hsize
  case operators => exact Register.operators.agrees hsize
  case brackets => exact Register.brackets.agrees hsize

/-- A semicolon made by hand, and a name that is spelled like it. -/
theorem checks_agree_semicolon :
    let tokens : List Token := [⟨⟨0, 1⟩, ";", .operator⟩, ⟨⟨9, 3⟩, ";", .identifier⟩]
    let demand := Register.operators.demand .semicolon
    tokens.length < Word.size ∧
      Descent.Succeeds (Descent.consume tokens demand) ⟨0, ∅⟩ ∧
      ¬Descent.Succeeds (Descent.consume tokens demand) ⟨1, ∅⟩ ∧
      (Descent.optionalSemicolon tokens).from? ⟨0, ∅⟩ = some (.ok (), ⟨1, ∅⟩) := by
  intro tokens demand
  have hsize : tokens.length < Word.size := by decide
  obtain ⟨-, hoperators, -, hproceeds⟩ := checks_agree tokens hsize
  have hsign := hoperators.is_iff_succeeds ⟨0, ∅⟩ _ .semicolon rfl
  have hname := hoperators.is_iff_succeeds ⟨1, ∅⟩ _ .semicolon rfl
  exact ⟨hsize, hsign.mp (by decide), mt hname.mpr (by decide),
    (hproceeds 0 ⟨0, ∅⟩ _ rfl).semicolon (by decide)⟩

end Gloss
