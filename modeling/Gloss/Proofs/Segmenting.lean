import Mathlib.Data.List.Chain
import Mathlib.Data.Option.Basic
import Gloss.Segment

namespace Gloss

/-- Goes through a list with some elements of it kept already. What passes is kept too, which may
depend on what is kept so far, and the rest is left out. -/
inductive Sifts {α : Type} (passes : List α → α → Prop) : List α → List α → List α → Prop where
  | nil {kept : List α} : Sifts passes kept [] []
  | keep {kept xs ys : List α} {x : α} (h : passes kept x)
      (hrest : Sifts passes (kept ++ [x]) xs ys) : Sifts passes kept (x :: xs) (x :: ys)
  | leave {kept xs ys : List α} {x : α} (h : ¬passes kept x)
      (hrest : Sifts passes kept xs ys) : Sifts passes kept (x :: xs) ys

section Sifts

variable {α : Type} {passes : List α → α → Prop} {kept xs ys zs before after : List α} {x : α}

theorem Sifts.sublist (h : Sifts passes kept xs ys) : ys.Sublist xs := by
  induction h with
  | nil => exact .slnil
  | keep _ _ ih => exact ih.cons_cons _
  | leave _ _ ih => exact ih.cons _

theorem Sifts.unique (h : Sifts passes kept xs ys) (h' : Sifts passes kept xs zs) : ys = zs := by
  induction h generalizing zs with
  | nil => cases h'; rfl
  | @keep _ _ _ x hx _ ih =>
    cases h' with
    | keep _ hrest => exact congrArg (x :: ·) (ih hrest)
    | leave hnot _ => exact absurd hx hnot
  | leave hx _ ih =>
    cases h' with
    | keep hnot _ => exact absurd hnot hx
    | leave _ hrest => exact ih hrest

/-- What does not pass can be taken away. -/
theorem Sifts.erase (h : Sifts passes kept (before ++ x :: after) ys)
    (hbefore : Sifts passes kept before zs) (hx : ¬passes (kept ++ zs) x) :
    Sifts passes kept (before ++ after) ys := by
  -- Up to the element both lists are gone through alike, so what is kept before it is the same.
  induction hbefore generalizing ys with
  | @nil kept =>
    rw [List.append_nil] at hx
    cases h with
    | keep hpass _ => exact absurd hpass hx
    | leave _ hrest => exact hrest
  | @keep _ _ _ y hy _ ih =>
    rw [List.append_cons] at hx
    cases h with
    | keep _ hrest => exact .keep hy (ih hrest hx)
    | leave hnot _ => exact absurd hy hnot
  | leave hy _ ih =>
    cases h with
    | keep hpass _ => exact absurd hpass hy
    | leave _ hrest => exact .leave hy (ih hrest hx)

/-- A list of which all passes is kept as a whole. -/
theorem sifts_self (h : ∀ before x after, xs = before ++ x :: after → passes (kept ++ before) x) :
    Sifts passes kept xs xs := by
  induction xs generalizing kept with
  | nil => exact .nil
  | cons x xs ih =>
    have hx : passes kept x := by
      have hfirst := h [] x xs rfl
      rwa [List.append_nil] at hfirst
    refine .keep hx (ih fun before y after hsplit => ?_)
    have hy := h (x :: before) y after (congrArg (x :: ·) hsplit)
    rwa [List.append_cons] at hy

end Sifts

def Token.IsSlice (t : Token) (source : String) : Prop :=
  ∃ before after, source = before ++ t.text ++ after ∧
    t.span = ⟨before.utf8ByteSize, (before ++ t.text).utf8ByteSize⟩

def lastStop (tokens : List Token) : Nat := (tokens.getLast?.map (·.span.stop)).getD 0

/-- A token is a slice of a text and does not start before the end of the last one of those before
it. -/
def Token.Fits (source : String) (earlier : List Token) (t : Token) : Prop :=
  lastStop earlier ≤ t.span.start ∧ t.IsSlice source

namespace Segment

def token? : Segment → Option Token
  | gap _ => none
  | token t | error t => some t

def tokens (cut : List Segment) : List Token := cut.filterMap token?

inductive Cuts (errorSpan : Option Span) : Nat → List Char → List Token → List Segment → Prop where
  | done {offset : Nat} {text : List Char} : Cuts errorSpan offset text [] (ofGap text)
  | place {offset : Nat} {before rest : List Char} {t : Token} {ts : List Token}
      {cut : List Segment}
      (hspan : t.span = ⟨offset + byteLength before, offset + byteLength (before ++ t.text.toList)⟩)
      (hrest : Cuts errorSpan t.span.stop rest ts cut) :
      Cuts errorSpan offset (before ++ (t.text.toList ++ rest)) (t :: ts)
        (ofGap before ++ ofToken errorSpan t :: cut)
  | pass {offset : Nat} {text : List Char} {t : Token} {ts : List Token} {cut : List Segment}
      (hnone : place? offset text t = none) (hrest : Cuts errorSpan offset text ts cut) :
      Cuts errorSpan offset text (t :: ts) cut

variable {errorSpan : Option Span} {offset : Nat} {text before rest : List Char} {t : Token}
  {ts : List Token} {cut cut' : List Segment}

/-- A token is found at its place exactly if the text has it there. -/
theorem place?_eq_some_iff : place? offset text t = some (before, rest) ↔
    text = before ++ (t.text.toList ++ rest) ∧
      t.span = ⟨offset + byteLength before, offset + byteLength (before ++ t.text.toList)⟩ := by
  simp only [place?, Option.bind_eq_bind, Option.bind_eq_some_iff, Option.guard_eq_some',
    cutAfter?_eq_some_iff, Prod.exists, Bool.and_eq_true, decide_eq_true_eq, Option.pure_def,
    Option.some.injEq, Prod.mk.injEq, byteLength_append]
  constructor
  · rintro ⟨-, ⟨hstart, hstop⟩, _, after, ⟨rfl, hbefore⟩, lexeme, _, ⟨rfl, hlexeme⟩, -, htext,
      rfl, rfl⟩
    have hchars : t.text.toList = lexeme := by rw [← htext, String.toList_ofList]
    have hspan : t.span = ⟨t.span.start, t.span.stop⟩ := rfl
    rw [hchars, hspan]
    exact ⟨rfl, by congr 1 <;> omega⟩
  · rintro ⟨rfl, hspan⟩
    have hstart : t.span.start = offset + byteLength before := by rw [hspan]
    have hstop : t.span.stop = offset + (byteLength before + byteLength t.text.toList) := by
      rw [hspan]
    exact ⟨(), by omega, before, t.text.toList ++ rest, ⟨rfl, by omega⟩, t.text.toList, rest,
      ⟨rfl, by omega⟩, (), String.ofList_toList, rfl, rfl⟩

/-- Tokens cut a text as the program cuts it. -/
theorem cuts_cut (errorSpan : Option Span) (offset : Nat) (text : List Char) (ts : List Token) :
    Cuts errorSpan offset text ts (Segment.cut errorSpan #[] offset text ts).toList := by
  induction ts generalizing offset text with
  | nil =>
    rw [Segment.cut, Array.append_eq_append]
    simpa using Cuts.done
  | cons t ts ih =>
    rw [Segment.cut]
    cases hplace : place? offset text t with
    | none => exact .pass hplace (ih offset text)
    | some found =>
      obtain ⟨before, rest⟩ := found
      obtain ⟨rfl, hspan⟩ := place?_eq_some_iff.mp hplace
      rw [toList_cut]
      simpa using Cuts.place hspan (ih t.span.stop rest)

/-- There is no other way in which they cut it. -/
theorem Cuts.eq_cut (h : Cuts errorSpan offset text ts cut) :
    cut = (Segment.cut errorSpan #[] offset text ts).toList := by
  induction h with
  | done => simp [Segment.cut]
  | place hspan _ ih =>
    rw [Segment.cut, place?_eq_some_iff.mpr ⟨rfl, hspan⟩]
    dsimp only
    rw [toList_cut, ih]
    simp
  | pass hnone _ ih => rw [Segment.cut, hnone, ih]

@[simp]
theorem text_ofToken : (ofToken errorSpan t).text = t.text := by
  rw [ofToken]
  split <;> rfl

@[simp]
theorem token?_ofToken : (ofToken errorSpan t).token? = some t := by
  rw [ofToken]
  split <;> rfl

theorem ofToken_eq_error_iff : ofToken errorSpan t = .error t ↔ errorSpan = some t.span := by
  rw [ofToken]
  split <;> simp [*]

theorem ofToken_eq_token_iff : ofToken errorSpan t = .token t ↔ errorSpan ≠ some t.span := by
  rw [ofToken]
  split <;> simp [*]

theorem flatMap_ofGap (text : List Char) : (ofGap text).flatMap (·.text.toList) = text := by
  cases text with
  | nil => rfl
  | cons c text => simp [ofGap, Segment.text]

theorem filterMap_ofGap (text : List Char) : (ofGap text).filterMap token? = [] := by
  cases text <;> rfl

/-- The segments join to the text. -/
theorem Cuts.flatMap_text (h : Cuts errorSpan offset text ts cut) :
    cut.flatMap (·.text.toList) = text := by
  induction h with
  | done => exact flatMap_ofGap _
  | place _ _ ih =>
    rw [List.flatMap_append, flatMap_ofGap, List.flatMap_cons, text_ofToken, ih]
  | pass _ _ ih => exact ih

theorem mem_ofGap {gapText : String} (h : .gap gapText ∈ ofGap text) : gapText ≠ "" := by
  cases text with
  | nil => cases h
  | cons c text =>
    obtain rfl := Segment.gap.inj (List.mem_singleton.mp h)
    simp

theorem Cuts.gap_ne_empty (h : Cuts errorSpan offset text ts cut) :
    ∀ gapText, .gap gapText ∈ cut → gapText ≠ "" := by
  induction h with
  | done => exact fun _ => mem_ofGap
  | place _ _ ih =>
    intro gapText hmem
    rcases List.mem_append.mp hmem with hbefore | hmem
    · exact mem_ofGap hbefore
    rcases List.mem_cons.mp hmem with htoken | hmem
    · have hnone := congrArg token? htoken
      rw [token?_ofToken] at hnone
      cases hnone
    · exact ih gapText hmem
  | pass _ _ ih => exact ih

def Alternate (a b : Segment) : Prop := a.token?.isSome ∨ b.token?.isSome

theorem isChain_ofGap (text : List Char) : (ofGap text).IsChain Alternate := by
  cases text with
  | nil => exact .nil
  | cons c text => exact .singleton _

theorem Cuts.isChain (h : Cuts errorSpan offset text ts cut) : cut.IsChain Alternate := by
  induction h with
  | done => exact isChain_ofGap _
  | @place _ before _ t _ _ _ _ ih =>
    have htoken : (ofToken errorSpan t).token?.isSome := by rw [token?_ofToken]; rfl
    have hbehind : (ofToken errorSpan t :: _).IsChain Alternate :=
      List.isChain_cons.mpr ⟨fun _ _ => Or.inl htoken, ih⟩
    refine List.isChain_append.mpr ⟨isChain_ofGap before, hbehind, fun a _ b hb => ?_⟩
    obtain rfl : ofToken errorSpan t = b := Option.some.inj hb
    exact Or.inr htoken
  | pass _ _ ih => exact ih

/-- The segments that are no gaps are the tokens that are cut out, each marked by its span. -/
theorem Cuts.filter_token (h : Cuts errorSpan offset text ts cut) :
    cut.filter (·.token?.isSome) = (tokens cut).map (ofToken errorSpan) := by
  induction h with
  | @done _ text => cases text <;> rfl
  | @place _ before _ t _ _ _ _ ih =>
    rw [tokens] at ih ⊢
    have hgap : (ofGap before).filter (·.token?.isSome) = [] := by cases before <;> rfl
    rw [List.filter_append, hgap, List.filterMap_append, filterMap_ofGap]
    simp [ih]
  | pass _ _ ih => exact ih

/-- The tokens that are not cut out change nothing. -/
theorem Cuts.of_tokens (h : Cuts errorSpan offset text ts cut) :
    Cuts errorSpan offset text (tokens cut) cut := by
  induction h with
  | @done _ text =>
    rw [tokens, filterMap_ofGap]
    exact .done
  | place hspan _ ih =>
    rw [tokens, List.filterMap_append, filterMap_ofGap, List.nil_append, List.filterMap_cons,
      token?_ofToken]
    exact .place hspan ih
  | pass _ _ ih => exact ih

/-- Of two fronts of a text the one with no more bytes is a front of the other. -/
theorem exists_append_of_byteLength_le {a b after after' : List Char}
    (htext : a ++ after = b ++ after') (hle : byteLength a ≤ byteLength b) :
    ∃ mid, b = a ++ mid ∧ after = mid ++ after' := by
  rcases List.append_eq_append_iff.mp htext with hfront | ⟨mid, rfl, rfl⟩
  · exact hfront
  · have hnone : byteLength mid = 0 := by
      rw [byteLength_append] at hle
      omega
    obtain rfl := byteLength_eq_zero_iff.mp hnone
    exact ⟨[], by simp, rfl⟩

/-- A slice of a text that does not begin in a front of it is found behind this front. -/
theorem exists_place_of_isSlice {source : String} {passed : List Char} (hslice : t.IsSlice source)
    (hsource : source.toList = passed ++ text) (hstart : byteLength passed ≤ t.span.start) :
    ∃ found, place? (byteLength passed) text t = some found := by
  obtain ⟨before, after, htext, hspan⟩ := hslice
  -- The text is cut in front of the slice and where `text` begins, which is not behind it.
  have hsplit : passed ++ text = before.toList ++ (t.text.toList ++ after.toList) := by
    rw [← hsource, htext]
    simp
  rw [hspan, ← byteLength_toList] at hstart
  obtain ⟨mid, hmid, hrest⟩ := exists_append_of_byteLength_le hsplit hstart
  refine ⟨(mid, after.toList), place?_eq_some_iff.mpr ⟨hrest, ?_⟩⟩
  rw [hspan, ← byteLength_append, ← byteLength_append, ← List.append_assoc, ← hmid,
    byteLength_toList, String.utf8ByteSize_append, byteLength_append, byteLength_toList,
    byteLength_toList]

/-- The tokens that are cut out of a text are those that fit. -/
theorem Cuts.sifts {source : String} {kept : List Token} {passed : List Char}
    (h : Cuts errorSpan offset text ts cut) (hsource : source.toList = passed ++ text)
    (hoffset : byteLength passed = offset) (hkept : lastStop kept = offset) :
    Sifts (Token.Fits source) kept ts (tokens cut) := by
  -- The offset always is where the last kept token ends, and the number of bytes passed.
  induction h generalizing kept passed with
  | done =>
    rw [tokens, filterMap_ofGap]
    exact .nil
  -- A token is placed if it starts late enough and its span is a slice.
  | @place offset before rest t _ _ hspan _ ih =>
    have hstop : byteLength (passed ++ (before ++ t.text.toList)) = t.span.stop := by
      rw [hspan, byteLength_append, hoffset]
    have hslice : t.IsSlice source := by
      refine ⟨String.ofList (passed ++ before), String.ofList rest, ?_, ?_⟩
      · rw [← String.toList_inj, hsource]
        simp
      · rw [String.utf8ByteSize_append, utf8ByteSize_ofList, ← byteLength_toList,
          ← byteLength_append, List.append_assoc, byteLength_append, hoffset, byteLength_append,
          hoffset, ← hspan]
    have hfits : t.Fits source kept := by
      refine ⟨?_, hslice⟩
      rw [hkept, hspan]
      exact Nat.le_add_right _ _
    rw [tokens, List.filterMap_append, filterMap_ofGap, List.nil_append, List.filterMap_cons,
      token?_ofToken]
    refine .keep hfits (ih ?_ hstop ?_)
    · rw [hsource]
      simp
    · rw [lastStop, List.getLast?_concat, Option.map_some, Option.getD_some]
  | @pass offset text t _ _ hnone _ ih =>
    refine .leave ?_ (ih hsource hoffset hkept)
    rintro ⟨hstart, hslice⟩
    rw [hkept, ← hoffset] at hstart
    obtain ⟨found, hfound⟩ := exists_place_of_isSlice hslice hsource hstart
    rw [hoffset, hnone] at hfound
    cases hfound

end Segment

section Segments

open Segment

variable {source : String} {ts ts' : List Token} {errorSpan : Option Span}

/-- Segments are cut out of a text one after the other. -/
theorem cuts_segments (source : String) (ts : List Token) (errorSpan : Option Span) :
    Cuts errorSpan 0 source.toList ts (segments source ts errorSpan) :=
  cuts_cut errorSpan 0 source.toList ts

/-- Which tokens are cut out depends on the text and on those cut out before them. -/
theorem sifts_segments (source : String) (ts : List Token) (errorSpan : Option Span) :
    Sifts (Token.Fits source) [] ts (tokens (segments source ts errorSpan)) :=
  (cuts_segments source ts errorSpan).sifts (List.nil_append source.toList).symm rfl rfl

/-- The tokens that are cut out are cut out alike if the others are not there. -/
theorem segments_tokens (source : String) (ts : List Token) (errorSpan : Option Span) :
    segments source (tokens (segments source ts errorSpan)) errorSpan =
      segments source ts errorSpan :=
  (cuts_segments source ts errorSpan).of_tokens.eq_cut.symm

/-- Tokens that are passed over leave no trace. -/
theorem segments_congr
    (h : tokens (segments source ts errorSpan) = tokens (segments source ts' errorSpan)) :
    segments source ts errorSpan = segments source ts' errorSpan := by
  calc segments source ts errorSpan
      = segments source (tokens (segments source ts errorSpan)) errorSpan :=
        (segments_tokens source ts errorSpan).symm
    _ = segments source (tokens (segments source ts' errorSpan)) errorSpan := by rw [h]
    _ = segments source ts' errorSpan := segments_tokens source ts' errorSpan

/-- A token that does not fit behind those before it changes nothing. -/
theorem segments_erase {before after : List Token} {t : Token}
    (ht : ¬t.Fits source (tokens (segments source before errorSpan))) :
    segments source (before ++ after) errorSpan =
      segments source (before ++ t :: after) errorSpan := by
  -- The segments depend on the tokens that are cut out, and these are the same.
  apply segments_congr
  have hbefore := sifts_segments source before errorSpan
  have herase := (sifts_segments source (before ++ t :: after) errorSpan).erase hbefore ht
  exact (sifts_segments source (before ++ after) errorSpan).unique herase

/-- A token that is cut out is marked by its span. -/
theorem ofToken_of_mem {s : Segment} {t : Token} (h : s ∈ segments source ts errorSpan)
    (ht : s.token? = some t) : ofToken errorSpan t = s := by
  have hmem : s ∈ (segments source ts errorSpan).filter (·.token?.isSome) :=
    List.mem_filter.mpr ⟨h, by rw [ht]; rfl⟩
  rw [(cuts_segments source ts errorSpan).filter_token] at hmem
  obtain ⟨u, -, rfl⟩ := List.mem_map.mp hmem
  rw [token?_ofToken] at ht
  rw [Option.some.inj ht]

end Segments

/-- However untrue tokens are to a text, the segments join to it, with no gap empty and none beside
another. Of the tokens those are cut out that are slices of the text and do not start before the end
of the last one cut out; they are marked by their span. The others change nothing, whether all of
them are taken away or one. -/
theorem segments_lossless (source : String) (tokens : List Token) (errorSpan : Option Span) :
    let cut := segments source tokens errorSpan
    String.join (cut.map Segment.text) = source ∧
    (∀ text, .gap text ∈ cut → text ≠ "") ∧
    cut.IsChain (fun a b => a.token?.isSome ∨ b.token?.isSome) ∧
    (Segment.tokens cut).Sublist tokens ∧
    Sifts (Token.Fits source) [] tokens (Segment.tokens cut) ∧
    (∀ t, .error t ∈ cut → errorSpan = some t.span) ∧
    (∀ t, .token t ∈ cut → errorSpan ≠ some t.span) ∧
    segments source (Segment.tokens cut) errorSpan = cut ∧
    ∀ before t after, tokens = before ++ t :: after →
      ¬t.Fits source (Segment.tokens (segments source before errorSpan)) →
        segments source (before ++ after) errorSpan = cut := by
  intro cut
  -- All but the last two parts are read off the derivation of the cut.
  have hcuts := cuts_segments source tokens errorSpan
  have hsifts := sifts_segments source tokens errorSpan
  refine ⟨?_, hcuts.gap_ne_empty, hcuts.isChain, hsifts.sublist, hsifts, ?_, ?_,
    segments_tokens source tokens errorSpan, ?_⟩
  · rw [← String.toList_inj, String.toList_join, List.flatMap_map]
    exact hcuts.flatMap_text
  · intro t hmem
    exact Segment.ofToken_eq_error_iff.mp (ofToken_of_mem hmem rfl)
  · intro t hmem
    exact Segment.ofToken_eq_token_iff.mp (ofToken_of_mem hmem rfl)
  · rintro before t after rfl ht
    exact segments_erase ht

/-- Spans inside a character, turned round, empty, used twice and with another text. -/
example :
    let token (start stop : Nat) (text : String) : Token := ⟨⟨start, stop⟩, text, .identifier⟩
    segments "é=1" [token 1 2 "x", token 3 2 "=", token 2 2 "", token 2 3 "=", token 2 3 "=",
      token 3 4 "2"] (some ⟨2, 3⟩) =
        [.gap "é", .token (token 2 2 ""), .error (token 2 3 "="), .gap "1"] := by
  decide

end Gloss
