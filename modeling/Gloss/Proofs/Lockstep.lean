import Mathlib.Data.List.Forall2
import Gloss.Proofs.Machine

/-! A parse asks a token for its kind, for its text unless it is a name or a literal, and whether a
name is declared. It cannot tell lists apart that agree in this. -/
namespace Gloss

open List (Forall₂)

/-- Relations on tokens and on sets of names that agree in all that a parse asks for. -/
structure Congruence (R : Token → Token → Prop) (S : NameSet → NameSet → Prop) : Prop where
  category : ∀ {a b}, R a b → a.category = b.category
  text : ∀ {a b}, R a b → a.category ≠ .identifier → a.category ≠ .literal → a.text = b.text
  declared : ∀ {names names' a b}, S names names' → R a b → a.category = .identifier →
    (a.text ∈ names ↔ b.text ∈ names')
  declare : ∀ {names names' a b}, S names names' → R a b → a.category = .identifier →
    S (names.insert a.text) (names'.insert b.text)

/-- A goal without a token of its own that asks for no particular name or literal. -/
def Goal.Plain : Goal → Prop
  | .declared _ => False
  | .token wanted =>
    wanted.text = none ∨ wanted.category ≠ .identifier ∧ wanted.category ≠ .literal
  | _ => True

section Relations

variable (R : Token → Token → Prop) (S : NameSet → NameSet → Prop)

inductive Goal.Like : Goal → Goal → Prop where
  | plain {g} (h : g.Plain) : Goal.Like g g
  | declared {a b} (h : R a b) (hname : a.category = .identifier) :
      Goal.Like (.declared a) (.declared b)

inductive SyntaxError.Like : SyntaxError → SyntaxError → Prop where
  | expectedToken {wanted a b} (h : R a b) (hplain : (Goal.token wanted).Plain) :
      SyntaxError.Like (.expectedToken wanted a) (.expectedToken wanted b)
  | endOfInput {wanted} : SyntaxError.Like (.endOfInput wanted) (.endOfInput wanted)
  | unknownKeyword {a b} (h : R a b) : SyntaxError.Like (.unknownKeyword a) (.unknownKeyword b)
  | unexpectedToken {a b} (h : R a b) : SyntaxError.Like (.unexpectedToken a) (.unexpectedToken b)
  | expectedDeclarator {a b} (h : R a b) :
      SyntaxError.Like (.expectedDeclarator a) (.expectedDeclarator b)
  | undeclaredVariable {a b} (h : R a b) (hname : a.category = .identifier) :
      SyntaxError.Like (.undeclaredVariable a) (.undeclaredVariable b)
  | invalidExpression {a b} (h : R a b) :
      SyntaxError.Like (.invalidExpression a) (.invalidExpression b)

inductive ResultLike : Except SyntaxError (List Goal) → Except SyntaxError (List Goal) → Prop where
  | ok {next next'} (h : Forall₂ (Goal.Like R) next next') : ResultLike (.ok next) (.ok next')
  | error {e e'} (h : SyntaxError.Like R e e') : ResultLike (.error e) (.error e')

inductive Goal.Reply.Like : Goal.Reply → Goal.Reply → Prop where
  | reads {names names' next next'} (hnames : S names names')
      (hnext : Forall₂ (Goal.Like R) next next') :
      Goal.Reply.Like (.reads names next) (.reads names' next')
  | leaves : Goal.Reply.Like .leaves .leaves
  | fails {e e'} (h : SyntaxError.Like R e e') : Goal.Reply.Like (.fails e) (.fails e')

inductive Goal.Replies.Like : Goal.Replies → Goal.Replies → Prop where
  | read {names names' goals goals'} (hnames : S names names')
      (hgoals : Forall₂ (Goal.Like R) goals goals') :
      Goal.Replies.Like (.read names goals) (.read names' goals')
  | met : Goal.Replies.Like .met .met
  | failed {e e'} (h : SyntaxError.Like R e e') : Goal.Replies.Like (.failed e) (.failed e')

structure Verdict.Like (v v' : Verdict) : Prop where
  unread : Forall₂ R v.unread v'.unread
  names : S v.names v'.names
  error? : Option.Rel (SyntaxError.Like R) v.error? v'.error?

end Relations

section Lockstep

variable {R : Token → Token → Prop} {S : NameSet → NameSet → Prop} {a b : Token}
  {names names' : NameSet} {g g' : Goal} {gs gs' : List Goal} {last : Bool}

theorem likes_plain (h : ∀ g ∈ gs, g.Plain) : Forall₂ (Goal.Like R) gs gs := by
  rw [List.forall₂_same]
  intro g hg
  exact Goal.Like.plain (h g hg)

theorem ofExcept_like {x x' : Except SyntaxError (List Goal)} (h : ResultLike R x x')
    (hnames : S names names') (hgoals : ∀ g ∈ gs, g.Plain) :
    Goal.Reply.Like R S (.ofExcept names gs x) (.ofExcept names' gs x') := by
  cases h with
  | ok h => exact .reads hnames (List.rel_append h (likes_plain hgoals))
  | error h => exact .fails h

theorem readIf_like (wanted : Bool) (hnames : S names names') (hgoals : ∀ g ∈ gs, g.Plain) :
    Goal.Reply.Like R S (.readIf wanted names gs) (.readIf wanted names' gs) := by
  cases wanted with
  | false => exact .leaves
  | true => exact .reads hnames (likes_plain hgoals)

/-- Errors that are alike are of one kind, and about related tokens or both about none. -/
theorem SyntaxError.Like.kind_token? {e e' : SyntaxError} (h : SyntaxError.Like R e e') :
    e'.kind = e.kind ∧ Option.Rel R e.token? e'.token? := by
  cases h with
  | endOfInput => exact ⟨rfl, .none⟩
  | expectedToken h _ | unknownKeyword h | unexpectedToken h | expectedDeclarator h
    | undeclaredVariable h _ | invalidExpression h => exact ⟨rfl, .some h⟩

namespace Congruence

variable (hC : Congruence R S)

include hC

/-- Related tokens spell the same entry of a register. -/
theorem find? {α : Type} (h : R a b) (r : Register α) (hname : r.category ≠ .identifier)
    (hliteral : r.category ≠ .literal) : r.find? a = r.find? b := by
  rw [Register.find?, Register.find?, ← hC.category h]
  split
  · next hc => rw [hC.text h (hc ▸ hname) (hc ▸ hliteral)]
  · rfl

theorem keyword? (h : R a b) : a.keyword? = b.keyword? :=
  hC.find? h Register.keywords (by decide) (by decide)

theorem operator? (h : R a b) : a.operator? = b.operator? :=
  hC.find? h Register.operators (by decide) (by decide)

theorem bracket? (h : R a b) : a.bracket? = b.bracket? :=
  hC.find? h Register.brackets (by decide) (by decide)

theorem admits {wanted : Expectation} (h : R a b) (hplain : (Goal.token wanted).Plain) :
    wanted.admits a = wanted.admits b := by
  rw [Expectation.admits, Expectation.admits, ← hC.category h]
  rcases hplain with hnone | ⟨hname, hliteral⟩
  · rw [hnone]
    rfl
  · by_cases hc : a.category = wanted.category
    · rw [hC.text h (hc ▸ hname) (hc ▸ hliteral)]
    · rw [decide_eq_false hc, Bool.false_and, Bool.false_and]

/-- The first token of a statement leaves like goals. -/
theorem afterFirst (h : R a b) :
    ResultLike R (Goal.afterFirst a last) (Goal.afterFirst b last) := by
  rw [Goal.afterFirst, Goal.afterFirst, ← hC.category h, ← hC.keyword? h]
  cases hc : a.category with
  | keyword =>
    dsimp only
    split
    · exact .ok (likes_plain (by simp [Goal.Plain]))
    · exact .ok (likes_plain (by simp [Goal.Plain, Goal.block, Expectation.ofBracket]))
    · exact .ok (likes_plain (by simp [Goal.Plain]))
    · exact .error (.unknownKeyword h)
  | identifier =>
    dsimp only
    split
    · exact .error (.unexpectedToken h)
    · refine .ok (.cons (.declared h hc) (likes_plain ?_))
      simp [Goal.Plain, Expectation.ofOperator]
  | operator => exact .error (.unexpectedToken h)
  | literal => exact .error (.unexpectedToken h)
  | bracket => exact .error (.unexpectedToken h)

theorem afterOperandStart (h : R a b) :
    ResultLike R (Goal.afterOperandStart a) (Goal.afterOperandStart b) := by
  have hbracket (k : Bracket) : a.isBracket k = b.isBracket k := by
    rw [Token.isBracket_eq, Token.isBracket_eq, hC.bracket? h]
  rw [Goal.afterOperandStart, Goal.afterOperandStart, Token.startsOperand, Token.startsOperand,
    ← hC.category h, hbracket]
  split
  · exact .error (.invalidExpression h)
  · rw [hbracket]
    split
    · exact .ok (likes_plain (by simp [Goal.Plain, Expectation.ofBracket]))
    · exact .ok .nil

/-- One step: what becomes of a goal. -/
theorem offer (last : Bool) (h : R a b) (hnames : S names names') (hg : Goal.Like R g g') :
    Goal.Reply.Like R S (g.offer names a last) (g'.offer names' b last) := by
  have hkeyword := hC.keyword? h
  have hoperator := hC.operator? h
  have hbracket := hC.bracket? h
  -- Goals that correspond are the same one, save for the demand that a name be declared.
  cases hg with
  | @declared t u htoken hname =>
    have hiff := hC.declared hnames htoken hname
    rw [Goal.offer, Goal.offer]
    by_cases ht : t.text ∈ names
    · rw [if_pos ht, if_pos (hiff.mp ht)]
      exact .leaves
    · rw [if_neg ht, if_neg fun hu => ht (hiff.mpr hu)]
      exact .fails (.undeclaredVariable htoken hname)
  | plain hplain =>
    -- What a goal does is told by the table entry of the token, which the two tokens share.
    cases g with
    | statements => exact ofExcept_like (hC.afterFirst h) hnames (by simp [Goal.Plain])
    | statement => exact ofExcept_like (hC.afterFirst h) hnames (List.forall_mem_nil _)
    | restOfBlock =>
      rw [Goal.offer, Goal.offer, Token.isBracket_eq, Token.isBracket_eq, ← hbracket]
      split
      · exact .reads hnames .nil
      · exact ofExcept_like (hC.afterFirst h) hnames (by simp [Goal.Plain])
    | token wanted =>
      rw [Goal.offer, Goal.offer, ← hC.admits h hplain]
      split
      · exact .reads hnames .nil
      · exact .fails (.expectedToken h hplain)
    | newVariable =>
      have hname : (Goal.token .name).Plain := Or.inl rfl
      rw [Goal.offer, Goal.offer, ← hC.admits h hname]
      split
      · next hadmits =>
        exact .reads (hC.declare hnames h (Expectation.admits_name.mp hadmits)) .nil
      · exact .fails (.expectedToken h hname)
    | declared target => exact absurd hplain id
    | declarator =>
      rw [Goal.offer, Goal.offer, ← hkeyword]
      split
      · exact .reads hnames (likes_plain (by simp [Goal.Plain]))
      · refine .reads hnames (likes_plain ?_)
        simp [Goal.Plain, Expectation.ofBracket, Expectation.name]
      · exact .fails (.expectedDeclarator h)
    | initializer =>
      rw [Goal.offer, Goal.offer, Token.isOperator_eq, Token.isOperator_eq, ← hoperator]
      exact readIf_like _ hnames (by simp [Goal.Plain])
    | optionalBlock =>
      rw [Goal.offer, Goal.offer, Token.isBracket_eq, Token.isBracket_eq, ← hbracket]
      exact readIf_like _ hnames (by simp [Goal.Plain])
    | alternative =>
      rw [Goal.offer, Goal.offer, Token.isKeyword_eq, Token.isKeyword_eq, ← hkeyword]
      exact readIf_like _ hnames (by simp [Goal.Plain, Goal.block, Expectation.ofBracket])
    | terminator =>
      rw [Goal.offer, Goal.offer, Token.isOperator_eq, Token.isOperator_eq, ← hoperator]
      exact readIf_like _ hnames (List.forall_mem_nil _)
    | expression => exact ofExcept_like (hC.afterOperandStart h) hnames (by simp [Goal.Plain])
    | term => exact ofExcept_like (hC.afterOperandStart h) hnames (by simp [Goal.Plain])
    | factor => exact ofExcept_like (hC.afterOperandStart h) hnames (List.forall_mem_nil _)
    | moreTerms =>
      rw [Goal.offer, Goal.offer, Goal.bindsAt, Goal.bindsAt, ← hoperator]
      exact readIf_like _ hnames (by simp [Goal.Plain])
    | moreFactors =>
      rw [Goal.offer, Goal.offer, Goal.bindsAt, Goal.bindsAt, ← hoperator]
      exact readIf_like _ hnames (by simp [Goal.Plain])

/-- A token offered to like goals leaves like goals, or fails in the same way. -/
theorem offerAll (last : Bool) (h : R a b) (hnames : S names names')
    (hgs : Forall₂ (Goal.Like R) gs gs') :
    Goal.Replies.Like R S (Goal.offerAll names a last gs) (Goal.offerAll names' b last gs') := by
  induction hgs with
  | nil => exact .met
  | @cons g g' gs gs' hg hgs ih =>
    -- The two replies have to be named before their cases can be told apart.
    have hreply := hC.offer last h hnames hg
    rw [Goal.offerAll, Goal.offerAll]
    revert hreply
    generalize g.offer names a last = reply
    generalize g'.offer names' b last = reply'
    intro hreply
    cases hreply with
    | reads hnames' hnext => exact .read hnames' (List.rel_append hnext hgs)
    | leaves => exact ih
    | fails h => exact .failed h

theorem missing? (hnames : S names names') (hg : Goal.Like R g g') :
    Option.Rel (SyntaxError.Like R) (g.missing? names) (g'.missing? names') := by
  cases hg with
  | @declared t u htoken hname =>
    have hiff := hC.declared hnames htoken hname
    rw [Goal.missing?, Goal.missing?]
    by_cases ht : t.text ∈ names
    · rw [if_pos ht, if_pos (hiff.mp ht)]
      exact .none
    · rw [if_neg ht, if_neg fun hu => ht (hiff.mpr hu)]
      exact .some (.undeclaredVariable htoken hname)
  | plain hplain =>
    cases g with
    | declared target => exact absurd hplain id
    | _ => first | exact .none | exact .some .endOfInput

theorem findSome_missing? (hnames : S names names') (hgs : Forall₂ (Goal.Like R) gs gs') :
    Option.Rel (SyntaxError.Like R) (gs.findSome? (Goal.missing? names))
      (gs'.findSome? (Goal.missing? names')) := by
  induction hgs with
  | nil => exact .none
  | @cons g g' gs gs' hg hgs ih =>
    have hmissing := hC.missing? hnames hg
    rw [List.findSome?_cons, List.findSome?_cons]
    revert hmissing
    generalize g.missing? names = error?
    generalize g'.missing? names' = error?'
    intro hmissing
    cases hmissing with
    | none => exact ih
    | some h => exact .some h

/-- A whole run. -/
theorem meet {ts ts' : List Token} (hts : Forall₂ R ts ts') (hnames : S names names')
    (hgs : Forall₂ (Goal.Like R) gs gs') :
    Verdict.Like R S (Goal.meet gs names ts) (Goal.meet gs' names' ts') := by
  induction hts generalizing names names' gs gs' with
  | nil => exact ⟨.nil, hnames, hC.findSome_missing? hnames hgs⟩
  | @cons t t' rest rest' ht hrest ih =>
    -- Both tokens are the last ones, or neither is.
    have hempty : rest.isEmpty = rest'.isEmpty := by
      cases hrest <;> rfl
    have hreplies := hC.offerAll rest.isEmpty ht hnames hgs
    rw [Goal.meet, Goal.meet, ← hempty]
    revert hreplies
    generalize Goal.offerAll names t rest.isEmpty gs = replies
    generalize Goal.offerAll names' t' rest.isEmpty gs' = replies'
    intro hreplies
    cases hreplies with
    | read hnames' hgs' => exact ih hnames' hgs'
    | met => exact ⟨.cons ht hrest, hnames, .none⟩
    | failed h => exact ⟨.cons ht hrest, hnames, .some h⟩

/-- One call. -/
theorem call {p p' : Progress} (hunread : Forall₂ R p.unread p'.unread)
    (hnames : S p.names p'.names) : Verdict.Like R S p.parse p'.parse :=
  hC.meet hunread hnames (likes_plain (by simp [Goal.Plain]))

/-- Any number of calls, each of which goes on where the one before it stopped. -/
theorem parses {p p' : Progress} (hunread : Forall₂ R p.unread p'.unread)
    (hnames : S p.names p'.names) (calls : Nat) :
    Forall₂ (Verdict.Like R S) (p.parses calls) (p'.parses calls) := by
  induction calls generalizing p p' with
  | zero => exact .nil
  | succ calls ih =>
    have hcall := hC.call hunread hnames
    exact .cons hcall (ih hcall.unread hcall.names)

/-- Lists of related tokens are parsed alike. -/
theorem parse {ts ts' : List Token} (hts : Forall₂ R ts ts') (hstart : S ∅ ∅) :
    Verdict.Like R S (parse ts) (parse ts') :=
  hC.call hts hstart

end Congruence
end Lockstep
end Gloss
