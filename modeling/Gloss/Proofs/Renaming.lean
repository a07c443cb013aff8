import Gloss.Proofs.Lockstep
import Gloss.Proofs.Resuming

namespace Gloss

open List (Forall₂)

/-- A token for another one with the names renamed: a literal may have any text, and every token any
place. -/
structure Token.Renamed (f : String → String) (t t' : Token) : Prop where
  category : t'.category = t.category
  name : t.category = .identifier → t'.text = f t.text
  other : t.category ≠ .identifier → t.category ≠ .literal → t'.text = t.text

instance decidableRenamed (f : String → String) : DecidableRel (Token.Renamed f) := fun t t' =>
  decidable_of_iff (t'.category = t.category ∧ (t.category = .identifier → t'.text = f t.text) ∧
      (t.category ≠ .identifier → t.category ≠ .literal → t'.text = t.text))
    ⟨fun ⟨hcategory, hname, hother⟩ => ⟨hcategory, hname, hother⟩,
      fun h => ⟨h.category, h.name, h.other⟩⟩

def NameSet.Renamed (f : String → String) (names names' : NameSet) : Prop :=
  ∀ y, y ∈ names' ↔ ∃ x ∈ names, f x = y

/-- Two calls that end alike in their lists: at the same place, both without an error or with errors
of one kind at tokens with the same index or both at the end of input, and with names that are
renamed. -/
structure Verdict.Renamed (f : String → String) (tokens tokens' : List Token) (v v' : Verdict) :
    Prop where
  position : v'.position tokens' = v.position tokens
  names : NameSet.Renamed f v.names v'.names
  error? : Option.Rel (fun e e' => e'.kind = e.kind ∧ Option.Rel (fun t t' =>
      tokens[v.errorIndex tokens]? = some t ∧ tokens'[v.errorIndex tokens]? = some t')
    e.token? e'.token?) v.error? v'.error?

section Renaming

variable {f : String → String}

theorem renamed_empty : NameSet.Renamed f ∅ ∅ := by
  intro y
  refine iff_of_false Std.ExtTreeSet.not_mem_empty ?_
  rintro ⟨x, hx, -⟩
  exact Std.ExtTreeSet.not_mem_empty hx

theorem NameSet.Renamed.mem_iff {names names' : NameSet} (h : NameSet.Renamed f names names')
    (hf : Function.Injective f) (x : String) : f x ∈ names' ↔ x ∈ names := by
  rw [h]
  constructor
  -- Here names must not be mixed up: what is declared under the new name is the old one.
  · rintro ⟨z, hz, heq⟩
    rwa [← hf heq]
  · intro hx
    exact ⟨x, hx, rfl⟩

theorem NameSet.Renamed.insert {names names' : NameSet} (h : NameSet.Renamed f names names')
    (x : String) : NameSet.Renamed f (names.insert x) (names'.insert (f x)) := by
  intro y
  simp only [Std.ExtTreeSet.mem_insert, Std.LawfulEqCmp.compare_eq_iff_eq]
  rw [h]
  constructor
  · rintro (rfl | ⟨z, hz, rfl⟩)
    · exact ⟨x, Or.inl rfl, rfl⟩
    · exact ⟨z, Or.inr hz, rfl⟩
  · rintro ⟨z, rfl | hz, rfl⟩
    · exact Or.inl rfl
    · exact Or.inr ⟨z, hz, rfl⟩

/-- A parse does not see a renaming. -/
theorem congruence_renamed (hf : Function.Injective f) :
    Congruence (Token.Renamed f) (NameSet.Renamed f) where
  category h := h.category.symm
  -- Only words and signs are compared by their text, and these keep it.
  text h hname hliteral := (h.other hname hliteral).symm
  declared hnames h hname := by
    rw [h.name hname, hnames.mem_iff hf]
  declare hnames h hname := by
    rw [h.name hname]
    exact hnames.insert _

end Renaming

section Calls

variable {f : String → String} {tokens tokens' : List Token} {v v' : Verdict} {calls : Nat}

/-- After a call, the token at the index of its error is the one that the error is about. -/
theorem getElem?_errorIndex_of_mem_parses (hv : v ∈ (Progress.start tokens).parses calls)
    {e : SyntaxError} {t : Token} (he : v.error? = some e) (ht : e.token? = some t) :
    tokens[v.errorIndex tokens]? = some t := by
  obtain ⟨p, past, hpast, rfl⟩ := Progress.exists_read_of_mem_parses hv
  exact Progress.getElem?_errorIndex hpast he ht

/-- Calls that go alike on two lists end alike in them. -/
theorem renamed_of_like (hlength : tokens.length = tokens'.length)
    (hv : v ∈ (Progress.start tokens).parses calls)
    (hv' : v' ∈ (Progress.start tokens').parses calls)
    (h : Verdict.Like (Token.Renamed f) (NameSet.Renamed f) v v') :
    v.Renamed f tokens tokens' v' := by
  have hposition : v'.position tokens' = v.position tokens := by
    rw [Progress.position, Progress.position, hlength, h.unread.length_eq]
  refine ⟨hposition, h.names, ?_⟩
  -- The errors are of one kind, and about corresponding tokens.
  have herror := h.error?
  generalize he : v.error? = error? at herror ⊢
  generalize he' : v'.error? = error?' at herror ⊢
  cases herror with
  | none => exact .none
  | @some e e' hlike =>
    obtain ⟨hkind, htoken⟩ := hlike.kind_token?
    -- The index of the error is told by its kind and the place of the call.
    have hindex : v'.errorIndex tokens' = v.errorIndex tokens := by
      rw [errorIndex_eq he, errorIndex_eq he', hkind, hposition]
    refine .some ⟨hkind, ?_⟩
    generalize ht : e.token? = token? at htoken ⊢
    generalize ht' : e'.token? = token?' at htoken ⊢
    cases htoken with
    | none => exact .none
    | some _ =>
      have hget := getElem?_errorIndex_of_mem_parses hv he ht
      have hget' := getElem?_errorIndex_of_mem_parses hv' he' ht'
      rw [hindex] at hget'
      exact .some ⟨hget, hget'⟩

end Calls

/-- With other names, other literals and other places for all tokens, every one of any number of
calls ends as it did: without an error, or with one of the same kind at the same index, and with the
names that it declared renamed. -/
theorem parses_renamed (f : String → String) (hf : Function.Injective f)
    (tokens tokens' : List Token) (h : Forall₂ (Token.Renamed f) tokens tokens') (calls : Nat) :
    Forall₂ (Verdict.Renamed f tokens tokens') ((Progress.start tokens).parses calls)
      ((Progress.start tokens').parses calls) := by
  have hstart : NameSet.Renamed f (Progress.start tokens).names (Progress.start tokens').names :=
    renamed_empty
  have hcalls := (congruence_renamed hf).parses h hstart calls
  obtain ⟨hlength, hlike⟩ := List.forall₂_iff_zip.mp hcalls
  refine List.forall₂_iff_zip.mpr ⟨hlength, fun {v v'} hmem => ?_⟩
  obtain ⟨hv, hv'⟩ := List.of_mem_zip hmem
  exact renamed_of_like h.length_eq hv hv' (hlike hmem)

/-- A name becomes the word `let`, another one and a literal have other texts, and an error is at
another place. -/
theorem parses_renamed_reserved :
    let f := fun name => name ++ "t"
    let tokens := [.spelled .keyword "let", .spelled .keyword "variable",
      .spelled .identifier "le", .spelled .operator "=", .spelled .literal "1",
      .spelled .identifier "x", .spelled .operator "="]
    let target : Token := ⟨⟨9, 3⟩, "xt", .identifier⟩
    let tokens' := [.spelled .keyword "let", .spelled .keyword "variable",
      .spelled .identifier "let", .spelled .operator "=", .spelled .literal "'if'", target,
      .spelled .operator "="]
    Function.Injective f ∧ Forall₂ (Token.Renamed f) tokens tokens' ∧
      (parse tokens').error? = some (.undeclaredVariable target) ∧
      Forall₂ (Verdict.Renamed f tokens tokens') ((Progress.start tokens).parses 2)
        ((Progress.start tokens').parses 2) := by
  intro f tokens target tokens'
  have hf : Function.Injective f := fun a b h => by simpa [f] using h
  have h : Forall₂ (Token.Renamed f) tokens tokens' := by decide
  exact ⟨hf, h, by decide, parses_renamed f hf tokens tokens' h 2⟩

end Gloss
