import Gloss.Proofs.Checked
import Gloss.Proofs.OneLevel

/-! The parser as one function for each rule of the grammar. A `depth` is the room on the stack, for
so many calls within each other; a round of a loop takes as much as a call. -/
namespace Gloss

inductive Halt where
  | rejected (diagnostic : Diagnostic)
  | fault (fault : MachineFault)

structure Cursor where
  position : Nat
  names : NameSet

/-- What a function of the parser does, if the stack has room for all its calls. -/
abbrev Descent := ExceptT Halt (StateT Cursor Option)

namespace Descent

def from? {α : Type} (m : Descent α) (c : Cursor) : Option (Except Halt α × Cursor) := m.run.run c

def checked {α : Type} (x : Except MachineFault α) : Descent α :=
  match x with
  | .ok a => pure a
  | .error fault => throw (.fault fault)

def reject {α : Type} (e : SyntaxError) : Descent α := do
  throw (.rejected (← checked (Diagnostic.build e)))

def exhausted {α : Type} : Descent α := ExceptT.mk fun _ => none

section Tokens

variable (tokens : List Token)

def peek : Descent (Option Token) := return tokens[(← get).position]?

def isAtEnd : Descent Bool := return tokens.length ≤ (← get).position

def step : Descent Unit := do
  let c ← get
  set { c with position := ← checked (Word.add c.position 1) }

def advance : Descent Unit := do
  unless ← isAtEnd tokens do step

def consume (wanted : Expectation) : Descent Token := do
  let some t ← peek tokens | reject (.endOfInput (.token wanted))
  if wanted.admits t then
    step
    return t
  else reject (.expectedToken wanted t)

def consumeEntry {α : Type} [DecidableEq α] (r : Register α) (x : α) : Descent Unit := do
  let found ← checked (entry r.entries x)
  let _ ← consume tokens (r.demand found)
  return

def consumeKeyword : Keyword → Descent Unit := consumeEntry tokens .keywords

def consumeBracket : Bracket → Descent Unit := consumeEntry tokens .brackets

def consumeOperator : Operator → Descent Unit := consumeEntry tokens .operators

def checks (p : Token → Bool) : Descent Bool := return (← peek tokens).any p

def checksLevel (level : Operator.Level) : Descent Bool := do
  match (← peek tokens).bind Token.operator? with
  | none => return false
  | some o => return (← checked (entry Operator.all o)).level? = some level

def isLastToken : Descent Bool :=
  return (← checked (Word.add (← get).position 1)) = tokens.length

mutual

def expression : Nat → Descent Unit
  | 0 => exhausted
  | depth + 1 => do
    term depth
    moreTerms depth

def moreTerms : Nat → Descent Unit
  | 0 => exhausted
  | depth + 1 => do
    if ← checksLevel tokens .additive then
      advance tokens
      term depth
      moreTerms depth

def term : Nat → Descent Unit
  | 0 => exhausted
  | depth + 1 => do
    factor depth
    moreFactors depth

def moreFactors : Nat → Descent Unit
  | 0 => exhausted
  | depth + 1 => do
    if ← checksLevel tokens .multiplicative then
      advance tokens
      factor depth
      moreFactors depth

def factor : Nat → Descent Unit
  | 0 => exhausted
  | depth + 1 => do
    let some t ← peek tokens | reject (.endOfInput (.phrase "expression"))
    if !t.startsOperand then reject (.invalidExpression t)
    else if t.isBracket Goal.openParenthesis then
      consumeBracket tokens Goal.openParenthesis
      expression depth
      consumeBracket tokens Goal.closeParenthesis
    else advance tokens

end

def optionalSemicolon : Descent Unit := do
  if ← checks tokens (·.isOperator .semicolon) then consumeOperator tokens .semicolon

def returnStatement (depth : Nat) : Descent Unit := do
  consumeKeyword tokens .returnWord
  expression tokens depth
  optionalSemicolon tokens

def requireDeclared (name : Token) : Descent Unit := do
  unless name.text ∈ (← get).names do reject (.undeclaredVariable name)

def assignment (depth : Nat) : Descent Unit := do
  let name ← consume tokens .name
  requireDeclared name
  consumeOperator tokens .assign
  expression tokens depth
  optionalSemicolon tokens

def declare : Descent Unit := do
  let name ← consume tokens .name
  modify fun c => { c with names := c.names.insert name.text }

def optionalInitializer (depth : Nat) : Descent Unit := do
  if ← checks tokens (·.isOperator .assign) then
    consumeOperator tokens .assign
    expression tokens depth

def variableDeclaration (depth : Nat) : Descent Unit := do
  consumeKeyword tokens .variableWord
  declare tokens
  optionalInitializer tokens depth
  optionalSemicolon tokens

mutual

def statement : Nat → Descent Unit
  | 0 => exhausted
  | depth + 1 => do
    let some t ← peek tokens | reject (.endOfInput (.phrase "statement"))
    match t.category with
    | .keyword =>
      match t.keyword? with
      | some .letWord => declaration depth
      | some .ifWord => ifStatement depth
      | some .returnWord => returnStatement tokens depth
      | _ => reject (.unknownKeyword t)
    | .identifier =>
      if ← isLastToken tokens then reject (.unexpectedToken t) else assignment tokens depth
    | .operator | .literal | .bracket => reject (.unexpectedToken t)

def declaration : Nat → Descent Unit
  | 0 => exhausted
  | depth + 1 => do
    consumeKeyword tokens .letWord
    declarator depth

def declarator : Nat → Descent Unit
  | 0 => exhausted
  | depth + 1 => do
    let some t ← peek tokens
      | reject (.endOfInput (.phrase "'variable' or 'function' after 'let'"))
    match t.keyword? with
    | some .variableWord => variableDeclaration tokens depth
    | some .functionWord => functionDeclaration depth
    | _ => reject (.expectedDeclarator t)

def functionDeclaration : Nat → Descent Unit
  | 0 => exhausted
  | depth + 1 => do
    consumeKeyword tokens .functionWord
    let _ ← consume tokens .name
    consumeBracket tokens Goal.openParenthesis
    consumeBracket tokens Goal.closeParenthesis
    optionalBody depth

def optionalBody : Nat → Descent Unit
  | 0 => exhausted
  | depth + 1 => do
    if ← checks tokens (·.isBracket Goal.openBrace) then block Goal.openBrace depth

def ifStatement : Nat → Descent Unit
  | 0 => exhausted
  | depth + 1 => do
    consumeKeyword tokens .ifWord
    consumeBracket tokens Goal.openParenthesis
    expression tokens depth
    consumeBracket tokens Goal.closeParenthesis
    block Goal.openBrace depth
    optionalElse depth

def optionalElse : Nat → Descent Unit
  | 0 => exhausted
  | depth + 1 => do
    if ← checks tokens (·.isKeyword .elseWord) then
      consumeKeyword tokens .elseWord
      block Goal.openBrace depth

def block (opening : Bracket) : Nat → Descent Unit
  | 0 => exhausted
  | depth + 1 => do
    let closing := (← checked (entry Bracket.all opening)).partner
    consumeBracket tokens opening
    statementsBefore closing depth
    consumeBracket tokens closing

def statementsBefore (closing : Bracket) : Nat → Descent Unit
  | 0 => exhausted
  | depth + 1 => do
    if ← checks tokens (!·.isBracket closing) then
      statement depth
      statementsBefore closing depth

end

def program : Nat → Descent Unit
  | 0 => exhausted
  | depth + 1 => do
    unless ← isAtEnd tokens do
      statement tokens depth
      program depth

end Tokens

section Laws

variable {α β : Type} {m : Descent α} {f : α → Descent β} {c c' : Cursor} {a : α} {halt : Halt}

/-- What comes next begins where the first part has come to. -/
theorem from?_bind (h : m.from? c = some (.ok a, c')) : from? (m >>= f) c = (f a).from? c' := by
  have hrun : m.run.run c = some (.ok a, c') := h
  simp only [from?, ExceptT.run_bind, StateT.run_bind, hrun]
  rfl

/-- What comes next is left out behind an early end. -/
theorem from?_bind_halt (h : m.from? c = some (.error halt, c')) :
    from? (m >>= f) c = some (.error halt, c') := by
  have hrun : m.run.run c = some (.error halt, c') := h
  simp only [from?, ExceptT.run_bind, StateT.run_bind, hrun]
  rfl

theorem from?_checked {x : Except MachineFault α} (h : x = .ok a) (c : Cursor) :
    from? (checked x) c = some (.ok a, c) := by
  subst h
  rfl

theorem from?_get (c : Cursor) : from? get c = some (.ok c, c) := rfl

theorem from?_reject (e : SyntaxError) (c : Cursor) :
    from? (reject e : Descent α) c = some (.error (.rejected (.ofError e)), c) := by
  rw [reject, from?_bind (from?_checked (Diagnostic.build_eq e) c)]
  rfl

end Laws
end Descent

def Progress.cursor (tokens : List Token) (p : Progress) : Cursor := ⟨p.position tokens, p.names⟩

theorem Progress.cursor_start (tokens : List Token) :
    (Progress.start tokens).cursor tokens = ⟨0, ∅⟩ := by
  rw [cursor, position, start, Nat.sub_self]

def Verdict.ending (tokens : List Token) (v : Verdict) : Except Halt Unit × Cursor :=
  (match v.error? with
    | none => .ok ()
    | some e => .error (.rejected (.ofError e)), v.toProgress.cursor tokens)

namespace Descent

section Reading

variable {tokens ts : List Token} {t : Token} {s : NameSet} {p : Progress}

theorem getElem?_position (h : p.unread <:+ tokens) :
    tokens[p.position tokens]? = p.unread.head? := by
  rw [← List.head?_drop, ← Progress.unread_eq_drop h]

theorem from?_peek (h : p.unread <:+ tokens) :
    (peek tokens).from? (p.cursor tokens) = some (.ok p.unread.head?, p.cursor tokens) := by
  rw [← getElem?_position h]
  rfl

theorem from?_checks (h : p.unread <:+ tokens) (q : Token → Bool) :
    (checks tokens q).from? (p.cursor tokens) =
      some (.ok (p.unread.head?.any q), p.cursor tokens) := by
  rw [checks, from?_bind (from?_peek h)]
  rfl

theorem from?_isAtEnd (h : p.unread <:+ tokens) : (isAtEnd tokens).from? (p.cursor tokens) =
    some (.ok p.unread.isEmpty, p.cursor tokens) := by
  have hle := h.length_le
  have hend : decide (tokens.length ≤ p.position tokens) = p.unread.isEmpty := by
    rw [Bool.eq_iff_iff, decide_eq_true_iff, List.isEmpty_iff_length_eq_zero, Progress.position]
    omega
  rw [← hend]
  rfl

/-- The cursor counts no more tokens than there are, which a word can count. -/
theorem add_position (hsize : tokens.length < Word.size) (h : t :: ts <:+ tokens) (s : NameSet) :
    Word.add ((⟨t :: ts, s⟩ : Progress).cursor tokens).position 1 =
      .ok ((⟨ts, s⟩ : Progress).position tokens) := by
  have hle := h.length_le
  have hnext : (⟨ts, s⟩ : Progress).position tokens =
      ((⟨t :: ts, s⟩ : Progress).cursor tokens).position + 1 := by
    simp only [Progress.cursor, Progress.position, List.length_cons] at hle ⊢
    omega
  rw [hnext]
  apply Word.add_eq
  rw [← hnext]
  exact Nat.lt_of_le_of_lt (Progress.position_le ..) hsize

theorem from?_step (hsize : tokens.length < Word.size) (h : t :: ts <:+ tokens) (s : NameSet) :
    step.from? ((⟨t :: ts, s⟩ : Progress).cursor tokens) =
      some (.ok (), (⟨ts, s⟩ : Progress).cursor tokens) := by
  rw [step, from?_bind (from?_get _), from?_bind (from?_checked (add_position hsize h s) _)]
  rfl

theorem from?_isLastToken (hsize : tokens.length < Word.size) (h : t :: ts <:+ tokens)
    (s : NameSet) : (isLastToken tokens).from? ((⟨t :: ts, s⟩ : Progress).cursor tokens) =
      some (.ok ts.isEmpty, (⟨t :: ts, s⟩ : Progress).cursor tokens) := by
  have hle := h.length_le
  have hlast : decide ((⟨ts, s⟩ : Progress).position tokens = tokens.length) = ts.isEmpty := by
    rw [Bool.eq_iff_iff, decide_eq_true_iff, List.isEmpty_iff_length_eq_zero, Progress.position]
    rw [List.length_cons] at hle
    dsimp only
    omega
  rw [isLastToken, from?_bind (from?_get _), from?_bind (from?_checked (add_position hsize h s) _),
    ← hlast]
  rfl

theorem from?_advance (hsize : tokens.length < Word.size) (h : t :: ts <:+ tokens) (s : NameSet) :
    (advance tokens).from? ((⟨t :: ts, s⟩ : Progress).cursor tokens) =
      some (.ok (), (⟨ts, s⟩ : Progress).cursor tokens) := by
  rw [advance, from?_bind (from?_isAtEnd h)]
  exact from?_step hsize h s

theorem from?_consume (hsize : tokens.length < Word.size) {wanted : Expectation}
    (ht : wanted.admits t) (h : t :: ts <:+ tokens) (s : NameSet) :
    (consume tokens wanted).from? ((⟨t :: ts, s⟩ : Progress).cursor tokens) =
      some (.ok t, (⟨ts, s⟩ : Progress).cursor tokens) := by
  rw [consume, from?_bind (from?_peek h)]
  dsimp only [List.head?_cons]
  rw [if_pos ht, from?_bind (from?_step hsize h s)]
  rfl

end Reading
end Descent
end Gloss
