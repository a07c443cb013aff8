import Gloss.Proofs.Descent

namespace Gloss
namespace Descent

/-- Wherever one function comes to an end, another one comes to the same end. -/
def Extends {α : Type} (m m' : Descent α) : Prop :=
  ∀ c result, m.from? c = some result → m'.from? c = some result

section Parts

variable {α β : Type} {m m' : Descent α} {f f' : α → Descent β}

theorem Extends.refl (m : Descent α) : Extends m m := fun _ _ h => h

theorem extends_exhausted (m : Descent α) : Extends exhausted m := fun _ _ h => nomatch h

theorem Extends.bind (hm : Extends m m') (hf : ∀ a, Extends (f a) (f' a)) :
    Extends (m >>= f) (m' >>= f') := by
  intro c result h
  -- A first part out of room leaves the whole without a result.
  cases hrun : m.from? c with
  | none =>
    have hstuck : from? (m >>= f) c = none := by
      have hnone : m.run.run c = none := hrun
      simp only [from?, ExceptT.run_bind, StateT.run_bind, hnone]
      rfl
    rw [hstuck] at h
    cases h
  | some first =>
    obtain ⟨a | a, c'⟩ := first
    · rw [from?_bind_halt hrun] at h
      rw [from?_bind_halt (hm _ _ hrun)]
      exact h
    · rw [from?_bind hrun] at h
      rw [from?_bind (hm _ _ hrun)]
      exact hf a _ _ h

theorem Extends.before (m : Descent α) (hf : ∀ a, Extends (f a) (f' a)) :
    Extends (m >>= f) (m >>= f') :=
  (Extends.refl m).bind hf

theorem Extends.seq {k k' : Descent β} (hm : Extends m m') (hk : Extends k k') :
    Extends (m >>= fun _ => k) (m' >>= fun _ => k') :=
  hm.bind fun _ => hk

theorem Extends.ifMet {p : Prop} [Decidable p] {k k' : Descent α} (hm : Extends m m')
    (hk : Extends k k') : Extends (if p then m else k) (if p then m' else k') := by
  split
  · exact hm
  · exact hk

end Parts

section Expressions

variable {tokens : List Token} {depth : Nat}

structure ExtendsExpressions (tokens : List Token) (depth : Nat) : Prop where
  factor : Extends (factor tokens depth) (factor tokens (depth + 1))
  moreFactors : Extends (moreFactors tokens depth) (moreFactors tokens (depth + 1))
  term : Extends (term tokens depth) (term tokens (depth + 1))
  moreTerms : Extends (moreTerms tokens depth) (moreTerms tokens (depth + 1))
  expression : Extends (expression tokens depth) (expression tokens (depth + 1))

theorem extendsExpressions (depth : Nat) : ExtendsExpressions tokens depth := by
  induction depth with
  | zero => constructor <;> exact extends_exhausted _
  | succ depth ih =>
    -- With either room the same tokens are looked at, so the same calls are made.
    constructor
    case factor =>
      rw [Descent.factor, Descent.factor]
      apply Extends.before
      rintro (_ | t)
      · exact Extends.refl _
      · refine (Extends.refl _).ifMet (Extends.ifMet ?_ (Extends.refl _))
        exact Extends.before _ fun _ => ih.expression.seq (Extends.refl _)
    case moreFactors =>
      rw [Descent.moreFactors, Descent.moreFactors]
      refine Extends.before _ fun _ => Extends.ifMet ?_ (Extends.refl _)
      exact Extends.before _ fun _ => ih.factor.seq ih.moreFactors
    case term =>
      rw [Descent.term, Descent.term]
      exact ih.factor.seq ih.moreFactors
    case moreTerms =>
      rw [Descent.moreTerms, Descent.moreTerms]
      refine Extends.before _ fun _ => Extends.ifMet ?_ (Extends.refl _)
      exact Extends.before _ fun _ => ih.term.seq ih.moreTerms
    case expression =>
      rw [Descent.expression, Descent.expression]
      exact ih.term.seq ih.moreTerms

end Expressions

section Statements

variable {tokens : List Token} {depth : Nat}

theorem extends_expression :
    Extends (expression tokens depth) (expression tokens (depth + 1)) :=
  (extendsExpressions depth).expression

theorem extends_returnStatement :
    Extends (returnStatement tokens depth) (returnStatement tokens (depth + 1)) :=
  Extends.before _ fun _ => extends_expression.seq (Extends.refl _)

theorem extends_assignment :
    Extends (assignment tokens depth) (assignment tokens (depth + 1)) := by
  refine Extends.before _ fun _ => Extends.before _ fun _ => Extends.before _ fun _ => ?_
  exact extends_expression.seq (Extends.refl _)

theorem extends_variableDeclaration :
    Extends (variableDeclaration tokens depth) (variableDeclaration tokens (depth + 1)) := by
  have hinitializer :
      Extends (optionalInitializer tokens depth) (optionalInitializer tokens (depth + 1)) := by
    refine Extends.before _ fun _ => Extends.ifMet ?_ (Extends.refl _)
    exact Extends.before _ fun _ => extends_expression
  refine Extends.before _ fun _ => Extends.before _ fun _ => ?_
  exact hinitializer.seq (Extends.refl _)

structure ExtendsStatements (tokens : List Token) (depth : Nat) : Prop where
  statement : Extends (statement tokens depth) (statement tokens (depth + 1))
  declaration : Extends (declaration tokens depth) (declaration tokens (depth + 1))
  declarator : Extends (declarator tokens depth) (declarator tokens (depth + 1))
  functionDeclaration :
    Extends (functionDeclaration tokens depth) (functionDeclaration tokens (depth + 1))
  optionalBody : Extends (optionalBody tokens depth) (optionalBody tokens (depth + 1))
  ifStatement : Extends (ifStatement tokens depth) (ifStatement tokens (depth + 1))
  optionalElse : Extends (optionalElse tokens depth) (optionalElse tokens (depth + 1))
  block : ∀ b, Extends (block tokens b depth) (block tokens b (depth + 1))
  statementsBefore : ∀ b,
    Extends (statementsBefore tokens b depth) (statementsBefore tokens b (depth + 1))

theorem extendsStatements (depth : Nat) : ExtendsStatements tokens depth := by
  -- The induction is on the room: a function out of room has no result to keep, and any other only
  -- calls functions with one level less.
  induction depth with
  | zero =>
    constructor
    case block | statementsBefore => exact fun _ => extends_exhausted _
    all_goals exact extends_exhausted _
  | succ depth ih =>
    constructor
    case statement =>
      rw [Descent.statement, Descent.statement]
      apply Extends.before
      rintro (_ | t)
      · exact Extends.refl _
      · dsimp only
        split
        · split
          · exact ih.declaration
          · exact ih.ifStatement
          · exact extends_returnStatement
          · exact Extends.refl _
        · exact Extends.before _ fun _ => (Extends.refl _).ifMet extends_assignment
        all_goals exact Extends.refl _
    case declaration =>
      rw [Descent.declaration, Descent.declaration]
      exact Extends.before _ fun _ => ih.declarator
    case declarator =>
      rw [Descent.declarator, Descent.declarator]
      apply Extends.before
      rintro (_ | t)
      · exact Extends.refl _
      · dsimp only
        split
        · exact extends_variableDeclaration
        · exact ih.functionDeclaration
        · exact Extends.refl _
    case functionDeclaration =>
      rw [Descent.functionDeclaration, Descent.functionDeclaration]
      refine Extends.before _ fun _ => Extends.before _ fun _ => Extends.before _ fun _ => ?_
      exact Extends.before _ fun _ => ih.optionalBody
    case optionalBody =>
      rw [Descent.optionalBody, Descent.optionalBody]
      exact Extends.before _ fun _ => (ih.block _).ifMet (Extends.refl _)
    case ifStatement =>
      rw [Descent.ifStatement, Descent.ifStatement]
      refine Extends.before _ fun _ => Extends.before _ fun _ => extends_expression.bind fun _ => ?_
      exact Extends.before _ fun _ => (ih.block _).seq ih.optionalElse
    case optionalElse =>
      rw [Descent.optionalElse, Descent.optionalElse]
      refine Extends.before _ fun _ => Extends.ifMet ?_ (Extends.refl _)
      exact Extends.before _ fun _ => ih.block _
    case block =>
      intro b
      rw [Descent.block, Descent.block]
      refine Extends.before _ fun _ => Extends.before _ fun _ => ?_
      exact (ih.statementsBefore _).seq (Extends.refl _)
    case statementsBefore =>
      intro b
      rw [Descent.statementsBefore, Descent.statementsBefore]
      refine Extends.before _ fun _ => Extends.ifMet ?_ (Extends.refl _)
      exact ih.statement.seq (ih.statementsBefore b)

/-- A run that ends would end the same way with more room on the stack. -/
theorem extends_program (depth : Nat) :
    Extends (program tokens depth) (program tokens (depth + 1)) := by
  induction depth with
  | zero => exact extends_exhausted _
  | succ depth ih =>
    rw [Descent.program, Descent.program]
    refine Extends.before _ fun _ => (Extends.refl _).ifMet ?_
    exact (extendsStatements depth).statement.seq ih

/-- A run of the parser that ends would end the same way with more room. -/
theorem extends_program_of_le {depth depth' : Nat} (h : depth ≤ depth') :
    Extends (program tokens depth) (program tokens depth') := by
  induction h with
  | refl => exact Extends.refl _
  | step _ ih => exact fun c result hrun => extends_program _ c result (ih c result hrun)

end Statements
end Descent
end Gloss
