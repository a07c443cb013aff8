import Gloss.NameSet

namespace Gloss

section Bytes

def utf8 (s : String) : List UInt8 := s.toUTF8.data.toList

variable {x y : Char} {a b : List Char} {s t : List UInt8}

theorem utf8_eq (s : String) : utf8 s = s.toList.flatMap String.utf8EncodeChar := by
  obtain ⟨l, rfl⟩ : ∃ l, String.ofList l = s := ⟨s.toList, String.ofList_toList⟩
  have hbytes : (String.ofList l).toUTF8 = (l.flatMap String.utf8EncodeChar).toByteArray :=
    String.toByteArray_ofList
  rw [utf8, hbytes, List.data_toByteArray, List.toList_toArray, String.toList_ofList]

theorem ofNat_cons_lt {m n : Nat} (hm : m < 256) (hn : n < 256) :
    UInt8.ofNat m :: s < UInt8.ofNat n :: t ↔ m < n ∨ m = n ∧ s < t := by
  rw [List.cons_lt_cons_iff, UInt8.lt_iff_toNat_lt, ← UInt8.toNat_inj,
    UInt8.toNat_ofNat_of_lt' hm, UInt8.toNat_ofNat_of_lt' hn]

/-- The bytes of a character decide before they end, whatever comes behind them. -/
theorem encodeChar_append_lt (h : x < y) :
    String.utf8EncodeChar x ++ s < String.utf8EncodeChar y ++ t := by
  have hlt : x.val.toNat < y.val.toNat := h
  have hcode : y.val.toNat < 1114112 := by
    rcases y.valid with hlow | ⟨-, hhigh⟩
    · exact Nat.lt_trans hlow (by decide)
    · exact hhigh
  -- Behind the first byte, the code is written in digits to the base 64.
  have hthree (n : Nat) : n / 4096 = n / 64 / 64 := (Nat.div_div_eq_div_mul n 64 64).symm
  have hfour (n : Nat) : n / 262144 = n / 64 / 64 / 64 := by
    rw [Nat.div_div_eq_div_mul, Nat.div_div_eq_div_mul]
  unfold String.utf8EncodeChar
  dsimp only
  generalize x.val.toNat = m at hlt ⊢
  generalize y.val.toNat = n at hlt hcode ⊢
  simp only [hthree, hfour]
  -- A shorter sequence has the lower first byte; of two equally long ones the digits decide.
  repeat' split
  all_goals
    simp (disch := omega) only [List.cons_append, List.nil_append, ofNat_cons_lt]
    omega

/-- A text that comes first by its characters comes first by its bytes. -/
theorem encode_lt (h : a < b) :
    a.flatMap String.utf8EncodeChar < b.flatMap String.utf8EncodeChar := by
  -- The first characters that differ decide, since neither encoding is the beginning of the other.
  induction a generalizing b with
  | nil =>
    cases b with
    | nil => exact absurd h (List.lt_irrefl [])
    | cons y b =>
      obtain ⟨byte, bytes, hy⟩ := List.exists_cons_of_ne_nil (String.utf8EncodeChar_ne_nil (c := y))
      rw [List.flatMap_nil, List.flatMap_cons, hy]
      exact List.nil_lt_cons ..
  | cons x a ih =>
    cases b with
    | nil => exact absurd h (List.not_lt_nil _)
    | cons y b =>
      rw [List.flatMap_cons, List.flatMap_cons]
      rcases List.cons_lt_cons_iff.mp h with hlt | ⟨rfl, hlt⟩
      · exact encodeChar_append_lt hlt
      · exact List.append_left_lt (ih hlt)

/-- Texts are in the order of their bytes. -/
theorem utf8_lt_iff {s t : String} : utf8 s < utf8 t ↔ s < t := by
  rw [utf8_eq, utf8_eq, String.lt_iff]
  refine ⟨fun h => ?_, encode_lt⟩
  -- The other two cases would have the bytes equal or the other way round.
  rcases Std.lt_trichotomy s.toList t.toList with hlt | heq | hgt
  · exact hlt
  · rw [heq] at h
    exact absurd h (List.lt_irrefl _)
  · exact absurd h (List.lt_asymm (encode_lt hgt))

end Bytes

namespace NameSet

inductive Step where
  | declare (name : String)
  | ask (name : String)
deriving DecidableEq

def after (names : NameSet) : Step → NameSet
  | .declare name => names.insert name
  | .ask _ => names

def answer? (names : NameSet) : Step → Option Bool
  | .declare _ => none
  | .ask name => some (names.contains name)

def run (names : NameSet) : List Step → List (Option Bool) × NameSet
  | [] => ([], names)
  | step :: steps =>
    let (answers, last) := run (names.after step) steps
    (names.answer? step :: answers, last)

/-- The answer to a step that asks behind some others: whether one of them declared the name. -/
def Step.answerBehind? (past : List Step) : Step → Option Bool
  | .declare _ => none
  | .ask name => some (decide (.declare name ∈ past))

variable {names : NameSet} {step : Step} {steps past : List Step} {x : String}

theorem mem_after : x ∈ names.after step ↔ step = .declare x ∨ x ∈ names := by
  cases step with
  | ask name => simp [after]
  | declare name =>
    rw [after, Std.ExtTreeSet.mem_insert, Std.LawfulEqCmp.compare_eq_iff_eq, Step.declare.injEq]

theorem run_cons : names.run (step :: steps) =
    (names.answer? step :: ((names.after step).run steps).1, ((names.after step).run steps).2) :=
  rfl

/-- Behind any steps the names are those from before and those that a step declared. -/
theorem mem_run : x ∈ (names.run steps).2 ↔ .declare x ∈ steps ∨ x ∈ names := by
  induction steps generalizing names with
  | nil => simp [run]
  | cons step steps ih =>
    rw [run_cons, ih, mem_after, List.mem_cons, eq_comm (a := step), or_left_comm, or_assoc]

/-- Each answer is that of the steps before it, if the names at first are those of some steps. -/
theorem answers_run (h : ∀ name, name ∈ names ↔ .declare name ∈ past) :
    (names.run steps).1 = steps.mapIdx fun i step => step.answerBehind? (past ++ steps.take i) := by
  induction steps generalizing names past with
  | nil => rfl
  | cons step steps ih =>
    -- Behind the step the names are those that it or a step before it declared.
    have hafter (name : String) : name ∈ names.after step ↔ .declare name ∈ past ++ [step] := by
      rw [mem_after, h, List.mem_append, List.mem_singleton, or_comm, eq_comm]
    have hanswer : names.answer? step = step.answerBehind? past := by
      cases step with
      | declare name => rfl
      | ask name =>
        have hcontains : names.contains name = decide (.declare name ∈ past) := by
          rw [Bool.eq_iff_iff, Std.ExtTreeSet.contains_iff_mem, decide_eq_true_iff, h]
        rw [answer?, Step.answerBehind?, hcontains]
    rw [run_cons, ih hafter, hanswer, List.mapIdx_cons]
    simp

/-- A set lists its names by their bytes. -/
theorem toList_ascending (names : NameSet) :
    names.toList.Pairwise fun a b => utf8 a < utf8 b := by
  apply Std.ExtTreeSet.ordered_toList.imp
  intro a b h
  exact utf8_lt_iff.mpr (compareOfLessAndEq_eq_lt.mp h)

end NameSet

/-- Steps with a set of names that is empty at first. Each answer says whether a step before it has
declared exactly that name. In the end the set lists the names that were declared, each once and in
the order of their bytes; its size is their number, and it is empty if none was declared. Two runs
end with the same set exactly if they declare the same names, in any order and however often. -/
theorem names_of_steps (steps : List NameSet.Step) :
    (NameSet.run ∅ steps).1 =
      steps.mapIdx (fun i step => step.answerBehind? (steps.take i)) ∧
    (∀ name, name ∈ (NameSet.run ∅ steps).2.toList ↔ .declare name ∈ steps) ∧
    ((NameSet.run ∅ steps).2.toList.Pairwise fun a b => utf8 a < utf8 b) ∧
    (NameSet.run ∅ steps).2.size = (NameSet.run ∅ steps).2.toList.length ∧
    ((NameSet.run ∅ steps).2.isEmpty ↔ ∀ name, .declare name ∉ steps) ∧
    ∀ others, (NameSet.run ∅ others).2 = (NameSet.run ∅ steps).2 ↔
      ∀ name, .declare name ∈ others ↔ .declare name ∈ steps := by
  -- All parts but the order follow from which names are members.
  have hmem (steps : List NameSet.Step) (name : String) :
      name ∈ (NameSet.run ∅ steps).2 ↔ .declare name ∈ steps := by
    rw [NameSet.mem_run, or_iff_left Std.ExtTreeSet.not_mem_empty]
  refine ⟨?answers, ?listed, NameSet.toList_ascending _, Std.ExtTreeSet.length_toList.symm,
    ?empty, ?same⟩
  case answers =>
    have hnone (name : String) : name ∈ (∅ : NameSet) ↔ .declare name ∈ ([] : List NameSet.Step) :=
      iff_of_false Std.ExtTreeSet.not_mem_empty List.not_mem_nil
    exact NameSet.answers_run hnone
  case listed =>
    intro name
    rw [Std.ExtTreeSet.mem_toList, hmem]
  case empty =>
    rw [Std.ExtTreeSet.isEmpty_iff, Std.ExtTreeSet.eq_empty_iff_forall_not_mem]
    exact forall_congr' fun name => not_congr (hmem steps name)
  case same =>
    intro others
    constructor
    · intro heq name
      rw [← hmem others, heq, hmem]
    · intro hsame
      apply Std.ExtTreeSet.ext_mem
      intro name
      rw [hmem, hmem, hsame]

/-- The letters with accents come behind all of ASCII. -/
example : (NameSet.run ∅ [.declare "é", .ask "É", .declare "z", .declare "é"]).2.toList =
    ["z", "é"] := by decide

end Gloss
