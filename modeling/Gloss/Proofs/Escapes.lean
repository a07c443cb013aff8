import Gloss.Coloring
import Gloss.Proofs.Runs
import Gloss.Proofs.Segmenting

namespace Gloss

inductive Piece where
  | shown (c : Char)
  | sequence (chars : List Char)
deriving DecidableEq

namespace Piece

def shown? : Piece → Option Char
  | shown c => some c
  | sequence _ => none

def sequence? : Piece → Option (List Char)
  | shown _ => none
  | sequence chars => some chars

def visible (pieces : List Piece) : List Char := pieces.filterMap shown?

def sequences (pieces : List Piece) : List (List Char) := pieces.filterMap sequence?

def isParameter (c : Char) : Bool := c.isDigit || c = ';'

def ofParameters (parameters : List Char) : List Char := '\x1b' :: '[' :: (parameters ++ ['m'])

def sequenceLength : List Char → Nat
  | '\x1b' :: '[' :: text =>
    let parameters := (text.takeWhile isParameter).length
    if text[parameters]? = some 'm' then parameters + 3 else 0
  | _ => 0

def read (covered : Nat) : List Char → List Piece
  | [] => []
  | c :: text =>
    match covered with
    | n + 1 => read n text
    | 0 =>
      match sequenceLength (c :: text) with
      | 0 => shown c :: read 0 text
      | n + 1 => sequence ((c :: text).take (n + 1)) :: read n text

section Read

variable {text rest parameters : List Char} {c : Char}

theorem read_covered (text rest : List Char) : read text.length (text ++ rest) = read 0 rest := by
  induction text with
  | nil => rfl
  | cons c text ih => exact ih

theorem sequenceLength_ofParameters (h : ∀ c ∈ parameters, isParameter c) (rest : List Char) :
    sequenceLength (ofParameters parameters ++ rest) = (ofParameters parameters).length := by
  have hend : ('m' :: rest).head?.any isParameter = false := rfl
  have hrun : (parameters ++ 'm' :: rest).takeWhile isParameter = parameters :=
    takeWhile_run h hend
  have htext : ofParameters parameters ++ rest =
      '\x1b' :: '[' :: (parameters ++ 'm' :: rest) := by
    rw [ofParameters]
    simp
  rw [htext, sequenceLength, hrun, if_pos (by simp), ofParameters]
  simp

/-- A sequence is read as a whole, whatever comes behind it. -/
theorem read_sequence (h : ∀ c ∈ parameters, isParameter c) (rest : List Char) :
    read 0 (ofParameters parameters ++ rest) =
      sequence (ofParameters parameters) :: read 0 rest := by
  have hlength := sequenceLength_ofParameters h rest
  have hcovered := read_covered ('[' :: (parameters ++ ['m'])) rest
  have htake : (ofParameters parameters ++ rest).take (ofParameters parameters).length =
      ofParameters parameters := List.take_left
  rw [ofParameters, List.cons_append, List.length_cons] at hlength htake
  rw [ofParameters, List.cons_append, read, hlength]
  dsimp only
  rw [htake, hcovered]

/-- A sequence begins with an escape, so any other character is shown. -/
theorem read_shown (h : c ≠ '\x1b') (rest : List Char) :
    read 0 (c :: rest) = shown c :: read 0 rest := by
  have hnone : sequenceLength (c :: rest) = 0 := by
    rw [sequenceLength]
    intro text heq
    exact h (List.cons.inj heq).1
  rw [read, hnone]

theorem read_text (h : '\x1b' ∉ text) (rest : List Char) :
    read 0 (text ++ rest) = text.map shown ++ read 0 rest := by
  induction text with
  | nil => rfl
  | cons c text ih =>
    obtain ⟨hc, htext⟩ := not_or.mp (mt List.mem_cons.mpr h)
    rw [List.cons_append, read_shown (Ne.symm hc), ih htext]
    rfl

theorem visible_append (a b : List Piece) : visible (a ++ b) = visible a ++ visible b :=
  List.filterMap_append

theorem sequences_append (a b : List Piece) : sequences (a ++ b) = sequences a ++ sequences b :=
  List.filterMap_append

theorem visible_shown (text : List Char) : visible (text.map shown) = text := by
  rw [visible, List.filterMap_map]
  exact List.filterMap_some

theorem sequences_shown (text : List Char) : sequences (text.map shown) = [] := by
  rw [sequences, List.filterMap_map]
  exact List.filterMap_eq_nil_iff.mpr fun _ _ => rfl

end Read
end Piece

namespace Style

/-- Writes nothing, or a sequence that is not the one that switches everything off. -/
def IsGraphic (s : Style) : Prop :=
  s.isPlain ∨ s ≠ ⟨reset⟩ ∧ ∃ parameters : List Char, (∀ c ∈ parameters, Piece.isParameter c) ∧
    s.opening.toList = Piece.ofParameters parameters

def wrap (s : Style) (text : List Char) : List Char :=
  if s.isPlain then text else s.opening.toList ++ (text ++ reset.toList)

def pieces (s : Style) (text : List Char) : List Piece :=
  if s.isPlain then text.map .shown
  else .sequence s.opening.toList :: (text.map .shown ++ [.sequence reset.toList])

variable {s : Style} {text : List Char}

theorem IsGraphic.opening_ne_reset (h : s.IsGraphic) (hstyled : ¬s.isPlain) :
    s.opening.toList ≠ reset.toList := by
  obtain ⟨hne, -⟩ := h.resolve_left hstyled
  intro heq
  exact hne (congrArg Style.mk (String.toList_injective heq))

theorem toList_paint (s : Style) (out text : String) :
    (s.paint out text).toList = out.toList ++ s.wrap text.toList := by
  rw [paint, wrap]
  split <;> simp [String.toList_append, List.append_assoc]

/-- A terminal that reads a text in a style finds the two sequences and the text between them. -/
theorem read_wrap (h : s.IsGraphic) (htext : '\x1b' ∉ text) (rest : List Char) :
    Piece.read 0 (s.wrap text ++ rest) = s.pieces text ++ Piece.read 0 rest := by
  have hreset : reset.toList = Piece.ofParameters ['0'] := rfl
  have hzero : ∀ c ∈ ['0'], Piece.isParameter c := List.all_eq_true.mp rfl
  rw [wrap, pieces]
  split
  · exact Piece.read_text htext rest
  · next hstyled =>
    obtain ⟨-, parameters, hparameters, hopening⟩ := h.resolve_left hstyled
    -- Both sequences end with their own last character, so the text between cannot join them.
    rw [hopening, List.append_assoc, Piece.read_sequence hparameters, List.append_assoc,
      Piece.read_text htext, hreset, Piece.read_sequence hzero]
    simp

theorem visible_pieces (s : Style) (text : List Char) : Piece.visible (s.pieces text) = text := by
  rw [pieces]
  split
  · exact Piece.visible_shown text
  · have hlast : Piece.visible [.sequence reset.toList] = [] := rfl
    have hfirst : Piece.visible (.sequence s.opening.toList ::
        (text.map .shown ++ [.sequence reset.toList])) =
          Piece.visible (text.map .shown ++ [.sequence reset.toList]) := rfl
    rw [hfirst, Piece.visible_append, Piece.visible_shown, hlast, List.append_nil]

/-- A sequence in it that is not the last one is the first one. -/
theorem of_pieces {before rest : List Piece} {o : List Char}
    (h : s.pieces text = before ++ .sequence o :: rest) (ho : o ≠ reset.toList) :
    before = [] ∧ ¬s.isPlain ∧ o = s.opening.toList ∧
      rest = text.map .shown ++ [.sequence reset.toList] := by
  have hmem : Piece.sequence o ∈ before ++ .sequence o :: rest := by simp
  rw [pieces] at h
  split at h
  · rw [← h] at hmem
    simp at hmem
  · next hstyled =>
    cases before with
    | nil =>
      obtain ⟨hfirst, hrest⟩ := List.cons.inj h
      exact ⟨rfl, hstyled, (Piece.sequence.inj hfirst).symm, hrest.symm⟩
    | cons first before =>
      -- Behind the first piece there is but one sequence, and it is not this one.
      have hbehind : Piece.sequence o ∈ text.map .shown ++ [.sequence reset.toList] := by
        rw [(List.cons.inj h).2]
        simp
      simp [ho] at hbehind

theorem sequences_pieces (s : Style) (text : List Char) : Piece.sequences (s.pieces text) =
    if s.isPlain then [] else [s.opening.toList, reset.toList] := by
  rw [pieces]
  split
  · exact Piece.sequences_shown text
  · have hfirst : Piece.sequences (.sequence s.opening.toList ::
        (text.map .shown ++ [.sequence reset.toList])) =
          s.opening.toList :: Piece.sequences (text.map .shown ++ [.sequence reset.toList]) := rfl
    rw [hfirst, Piece.sequences_append, Piece.sequences_shown]
    rfl

end Style

structure Theme.IsGraphic (theme : Theme) : Prop where
  category : ∀ c, (theme.category c).IsGraphic
  error : theme.error.IsGraphic

theorem isGraphic_standard : Theme.standard.IsGraphic := by
  refine ⟨fun c => ?_,
    Or.inr ⟨by decide, ['1', ';', '4', ';', '3', '1'], List.all_eq_true.mp rfl, rfl⟩⟩
  cases c with
  | keyword => exact Or.inr ⟨by decide, ['1', ';', '3', '5'], List.all_eq_true.mp rfl, rfl⟩
  | operator => exact Or.inr ⟨by decide, ['3', '3'], List.all_eq_true.mp rfl, rfl⟩
  | literal => exact Or.inr ⟨by decide, ['3', '2'], List.all_eq_true.mp rfl, rfl⟩
  | bracket => exact Or.inr ⟨by decide, ['3', '6'], List.all_eq_true.mp rfl, rfl⟩
  | identifier => exact Or.inl rfl

/-- An element of two lists joined is in the second, or in the first. -/
theorem exists_of_append_eq {α : Type} {a b before rest : List α} {x : α}
    (h : a ++ b = before ++ x :: rest) :
    (∃ front, before = a ++ front ∧ b = front ++ x :: rest) ∨
      ∃ behind, a = before ++ x :: behind ∧ rest = behind ++ b := by
  rcases List.append_eq_append_iff.mp h with hsecond | ⟨common, rfl, hcommon⟩
  · exact Or.inl hsecond
  · cases common with
    | nil => exact Or.inl ⟨[], by simp, hcommon.symm⟩
    | cons y behind =>
      obtain ⟨rfl, hrest⟩ := List.cons.inj hcommon
      exact Or.inr ⟨behind, rfl, hrest⟩

namespace Segment

def style (theme : Theme) : Segment → Style
  | gap _ => .plain
  | token t => theme.category t.category
  | error _ => theme.error

def pieces (theme : Theme) (s : Segment) : List Piece := (s.style theme).pieces s.text.toList

variable {theme : Theme} {cut : List Segment}

theorem isGraphic_style (h : theme.IsGraphic) (s : Segment) : (s.style theme).IsGraphic := by
  cases s with
  | gap text => exact Or.inl rfl
  | token t => exact h.category t.category
  | error t => exact h.error

theorem paint_eq (theme : Theme) (out : String) (s : Segment) :
    s.paint theme out = (s.style theme).paint out s.text := by
  cases s <;> rfl

theorem toList_foldl_paint (theme : Theme) (out : String) (cut : List Segment) :
    (cut.foldl (Segment.paint theme) out).toList =
      out.toList ++ cut.flatMap fun s => (s.style theme).wrap s.text.toList := by
  induction cut generalizing out with
  | nil => exact (List.append_nil _).symm
  | cons s cut ih =>
    rw [List.foldl_cons, ih, paint_eq, Style.toList_paint, List.append_assoc, List.flatMap_cons]

/-- Segments that hold no escape are read one by one, whatever comes behind them. -/
theorem read_cut (htheme : theme.IsGraphic) (hcut : ∀ s ∈ cut, '\x1b' ∉ s.text.toList)
    (rest : List Char) :
    Piece.read 0 ((cut.flatMap fun s => (s.style theme).wrap s.text.toList) ++ rest) =
      cut.flatMap (pieces theme) ++ Piece.read 0 rest := by
  induction cut with
  | nil => rfl
  | cons s cut ih =>
    obtain ⟨hs, hrest⟩ := List.forall_mem_cons.mp hcut
    rw [List.flatMap_cons, List.append_assoc, Style.read_wrap (isGraphic_style htheme s) hs,
      ih hrest, List.flatMap_cons, List.append_assoc, pieces]

theorem visible_cut (theme : Theme) (cut : List Segment) :
    Piece.visible (cut.flatMap (pieces theme)) = cut.flatMap (·.text.toList) := by
  induction cut with
  | nil => rfl
  | cons s cut ih =>
    rw [List.flatMap_cons, Piece.visible_append, ih, pieces, Style.visible_pieces,
      List.flatMap_cons]

/-- The sequences come in pairs: a style that is not plain, and the one that switches it off. -/
theorem sequences_cut (theme : Theme) (cut : List Segment) :
    Piece.sequences (cut.flatMap (pieces theme)) =
      (((cut.map (style theme)).filter (!·.isPlain)).map (·.opening.toList)).flatMap
        fun o => [o, Style.reset.toList] := by
  induction cut with
  | nil => rfl
  | cons s cut ih =>
    rw [List.flatMap_cons, Piece.sequences_append, ih, pieces, Style.sequences_pieces,
      List.map_cons]
    cases hplain : (s.style theme).isPlain with
    | true => rw [List.filter_cons_of_neg (by simp [hplain]), if_pos rfl, List.nil_append]
    | false =>
      rw [List.filter_cons_of_pos (by simp [hplain]), if_neg nofun, List.map_cons,
        List.flatMap_cons]

/-- Every sequence but those that switch styles off begins a segment, which is shown next. -/
theorem exists_of_opening {before rest : List Piece} {o : List Char}
    (h : cut.flatMap (pieces theme) = before ++ .sequence o :: rest)
    (ho : o ≠ Style.reset.toList) : ∃ earlier s later, cut = earlier ++ s :: later ∧
      before = earlier.flatMap (pieces theme) ∧ ¬(s.style theme).isPlain ∧
      o = (s.style theme).opening.toList ∧
      rest = s.text.toList.map .shown ++
        .sequence Style.reset.toList :: later.flatMap (pieces theme) := by
  -- The sequence belongs to the first segment or to a later one.
  induction cut generalizing before with
  | nil => simp at h
  | cons s cut ih =>
    rw [List.flatMap_cons] at h
    rcases exists_of_append_eq h with ⟨front, hbefore, hcut⟩ | ⟨behind, hpieces, hrest⟩
    · obtain ⟨earlier, s', later, rfl, rfl, hfound⟩ := ih hcut
      exact ⟨s :: earlier, s', later, rfl, hbefore, hfound⟩
    · obtain ⟨rfl, hstyled, hopening, rfl⟩ := Style.of_pieces hpieces ho
      refine ⟨[], s, cut, rfl, rfl, hstyled, hopening, ?_⟩
      rw [hrest, List.append_assoc]
      rfl

theorem ofGap_ne {s : Segment} {t : Token} (ht : s.token? = some t) (chars : List Char)
    (earlier later : List Segment) : ofGap chars ≠ earlier ++ s :: later := by
  intro heq
  have hmem : s ∈ ofGap chars := by simp [heq]
  rw [List.filterMap_eq_nil_iff.mp (filterMap_ofGap chars) s hmem] at ht
  cases ht

/-- A token that is cut out is one of those given, and stands at its span: behind the texts of the
segments before it. -/
theorem Cuts.of_append {errorSpan : Option Span} {offset : Nat} {text : List Char} {ts : List Token}
    (h : Cuts errorSpan offset text ts cut) {earlier later : List Segment} {s : Segment} {t : Token}
    (hcut : cut = earlier ++ s :: later) (ht : s.token? = some t) :
    t ∈ ts ∧ t.span = ⟨offset + byteLength (earlier.flatMap (·.text.toList)),
      offset + byteLength (earlier.flatMap (·.text.toList) ++ t.text.toList)⟩ := by
  induction h generalizing earlier with
  | done => exact absurd hcut (ofGap_ne ht _ _ _)
  | @place offset before rest u _ cut hspan _ ih =>
    -- The segment is no gap, so it is the token placed here or comes behind it.
    rcases exists_of_append_eq hcut with ⟨front, rfl, hbehind⟩ | ⟨behind, hbefore, -⟩
    · cases front with
      | nil =>
        obtain ⟨rfl, -⟩ := List.cons.inj hbehind
        obtain rfl : u = t := Option.some.inj ((token?_ofToken).symm.trans ht)
        rw [List.append_nil, flatMap_ofGap]
        exact ⟨List.mem_cons_self, hspan⟩
      | cons first front =>
        obtain ⟨rfl, hrest⟩ := List.cons.inj hbehind
        obtain ⟨hmem, hplace⟩ := ih hrest
        refine ⟨List.mem_cons_of_mem u hmem, ?_⟩
        rw [hplace, hspan]
        simp [flatMap_ofGap, Nat.add_assoc]
    · exact absurd hbefore (ofGap_ne ht _ _ _)
  | pass _ _ ih =>
    obtain ⟨hmem, hplace⟩ := ih hcut
    exact ⟨List.mem_cons_of_mem _ hmem, hplace⟩

end Segment

section Render

variable {coloring : Coloring} {terminal : Bool} {source : String} {tokens : List Token}
  {errorSpan : Option Span}

def Coloring.themeFor (coloring : Coloring) (terminal : Bool) : Theme :=
  if coloring.mode.usesColor terminal then coloring.theme else .plain

theorem isGraphic_themeFor (h : coloring.theme.IsGraphic) :
    (coloring.themeFor terminal).IsGraphic := by
  rw [Coloring.themeFor]
  split
  · exact h
  · exact ⟨fun _ => Or.inl rfl, Or.inl rfl⟩

theorem isPlain_style (h : coloring.mode.usesColor terminal = false ∨
    (∀ c, (coloring.theme.category c).isPlain) ∧ coloring.theme.error.isPlain) (s : Segment) :
    (s.style (coloring.themeFor terminal)).isPlain := by
  rw [Coloring.themeFor]
  split
  · next hcolor =>
    obtain ⟨hcategory, herror⟩ := h.resolve_left (by rw [hcolor]; exact nofun)
    cases s with
    | gap text => rfl
    | token t => exact hcategory t.category
    | error t => exact herror
  · cases s <;> rfl

/-- The segments join to the text. -/
theorem flatMap_segments (source : String) (tokens : List Token) (errorSpan : Option Span) :
    (segments source tokens errorSpan).flatMap (·.text.toList) = source.toList :=
  (cuts_segments source tokens errorSpan).flatMap_text

/-- Where all styles are plain nothing is added to a text. -/
theorem flatMap_wrap_plain {theme : Theme} {cut : List Segment}
    (h : ∀ s : Segment, (s.style theme).isPlain) :
    (cut.flatMap fun s => (s.style theme).wrap s.text.toList) = cut.flatMap (·.text.toList) := by
  congr 1
  funext s
  rw [Style.wrap, if_pos (h s)]

theorem toList_render (coloring : Coloring) (terminal : Bool) (source : String)
    (tokens : List Token) (errorSpan : Option Span) :
    (render coloring terminal source tokens errorSpan).toList =
      (segments source tokens errorSpan).flatMap
        fun s => (s.style (coloring.themeFor terminal)).wrap s.text.toList := by
  rw [render, Coloring.themeFor]
  split
  · rw [Segment.toList_foldl_paint]
    rfl
  · rw [flatMap_wrap_plain (by intro s; cases s <;> rfl), flatMap_segments]

theorem render_plain (h : ∀ s : Segment, (s.style (coloring.themeFor terminal)).isPlain) :
    render coloring terminal source tokens errorSpan = source := by
  apply String.toList_injective
  rw [toList_render, flatMap_wrap_plain h, flatMap_segments]

/-- What is read from a colored text are its segments, each in its style, and then what is read from
the text behind it. -/
theorem read_render_append (htheme : coloring.theme.IsGraphic) (hsource : '\x1b' ∉ source.toList)
    (rest : List Char) :
    Piece.read 0 ((render coloring terminal source tokens errorSpan).toList ++ rest) =
      (segments source tokens errorSpan).flatMap
        (Segment.pieces (coloring.themeFor terminal)) ++ Piece.read 0 rest := by
  rw [toList_render]
  apply Segment.read_cut (isGraphic_themeFor htheme)
  intro s hs hmem
  rw [← flatMap_segments source tokens errorSpan] at hsource
  exact hsource (List.mem_flatMap.mpr ⟨s, hs, hmem⟩)

/-- A colored text is read as its segments, each between its two sequences. -/
theorem read_render (htheme : coloring.theme.IsGraphic) (hsource : '\x1b' ∉ source.toList) :
    Piece.read 0 (render coloring terminal source tokens errorSpan).toList =
      (segments source tokens errorSpan).flatMap
        (Segment.pieces (coloring.themeFor terminal)) := by
  have hread : Piece.read 0 ((render coloring terminal source tokens errorSpan).toList ++ []) = _ :=
    read_render_append htheme hsource []
  rwa [List.append_nil, Piece.read, List.append_nil] at hread

/-- A sequence that is not the one that switches styles off stands before the text of a token, and
that one behind it. -/
theorem exists_token_of_opening {before rest : List Piece} {o : List Char}
    (h : (segments source tokens errorSpan).flatMap
      (Segment.pieces (coloring.themeFor terminal)) = before ++ .sequence o :: rest)
    (ho : o ≠ Style.reset.toList) :
    ∃ t ∈ tokens, ∃ after,
      rest = t.text.toList.map .shown ++ .sequence Style.reset.toList :: after ∧
      t.span = ⟨byteLength (Piece.visible before),
        byteLength (Piece.visible before ++ t.text.toList)⟩ ∧
      o = ((Segment.ofToken errorSpan t).style coloring.theme).opening.toList := by
  obtain ⟨earlier, s, later, hcut, rfl, hstyled, hopening, hrest⟩ := Segment.exists_of_opening h ho
  have hcolor : coloring.themeFor terminal = coloring.theme := by
    rw [Coloring.themeFor]
    split
    · rfl
    · next hoff =>
      rw [Coloring.themeFor, if_neg hoff] at hstyled
      exact absurd (by cases s <;> rfl) hstyled
  -- A gap is plain, so the segment is a token.
  obtain ⟨t, ht⟩ : ∃ t, s.token? = some t := by
    cases s with
    | gap text => exact absurd rfl hstyled
    | token t | error t => exact ⟨t, rfl⟩
  have htext : s.text = t.text := by
    cases s <;> cases ht <;> rfl
  have hmark : Segment.ofToken errorSpan t = s := ofToken_of_mem (by rw [hcut]; simp) ht
  obtain ⟨hmem, hspan⟩ := (cuts_segments source tokens errorSpan).of_append hcut ht
  rw [Nat.zero_add, Nat.zero_add] at hspan
  rw [htext] at hrest
  rw [hcolor, ← hmark] at hopening
  rw [Segment.visible_cut]
  exact ⟨t, hmem, _, hrest, hspan, hopening⟩

end Render

/-- Where a text holds no escape and the styles are sequences of parameters, colors only add such
sequences: the characters shown between them are those of the text. The sequences come in pairs of a
style and the one that switches it off, and between the two stands the text of one token, which is
at the place of its span and in the style that is meant for it. Without colors, and where all styles
are plain, nothing is added to any text. -/
theorem render_balanced (coloring : Coloring) (terminal : Bool) (source : String)
    (tokens : List Token) (errorSpan : Option Span) :
    let colored := render coloring terminal source tokens errorSpan
    let pieces := Piece.read 0 colored.toList
    (coloring.theme.IsGraphic → '\x1b' ∉ source.toList →
      Piece.visible pieces = source.toList ∧
      (∃ openings : List (List Char), (∀ o ∈ openings, o ≠ Style.reset.toList) ∧
        Piece.sequences pieces = openings.flatMap fun o => [o, Style.reset.toList]) ∧
      ∀ before o rest, pieces = before ++ .sequence o :: rest → o ≠ Style.reset.toList →
        ∃ t ∈ tokens, ∃ after,
          rest = t.text.toList.map .shown ++ .sequence Style.reset.toList :: after ∧
          t.span = ⟨byteLength (Piece.visible before),
            byteLength (Piece.visible before ++ t.text.toList)⟩ ∧
          o = ((Segment.ofToken errorSpan t).style coloring.theme).opening.toList) ∧
    (coloring.mode.usesColor terminal = false ∨
      (∀ c, (coloring.theme.category c).isPlain) ∧ coloring.theme.error.isPlain →
        colored = source) := by
  intro colored pieces
  refine ⟨fun htheme hsource => ?_, ?_⟩
  · -- The rendered text is read back as the pieces of the segments it was painted from.
    have hread : pieces = (segments source tokens errorSpan).flatMap
        (Segment.pieces (coloring.themeFor terminal)) := read_render htheme hsource
    rw [hread]
    refine ⟨?_, ⟨_, ?_, Segment.sequences_cut _ _⟩, fun before o rest => exists_token_of_opening⟩
    · rw [Segment.visible_cut, flatMap_segments]
    · intro o ho
      obtain ⟨style, hstyle, rfl⟩ := List.mem_map.mp ho
      obtain ⟨hmem, hstyled⟩ := List.mem_filter.mp hstyle
      obtain ⟨s, -, rfl⟩ := List.mem_map.mp hmem
      have hgraphic : (s.style (coloring.themeFor terminal)).IsGraphic :=
        Segment.isGraphic_style (isGraphic_themeFor htheme) s
      exact hgraphic.opening_ne_reset (by simpa using hstyled)
  · intro h
    exact render_plain (isPlain_style h)

/-- A stale token, one in color and one that is marked; behind the last sequence the text goes on as
if with parameters. -/
theorem render_balanced_stale_token :
    let coloring : Coloring := ⟨.always, .standard⟩
    let source := "é='1';4m"
    let tokens : List Token := [⟨⟨2, 4⟩, "=", .operator⟩, ⟨⟨2, 3⟩, "=", .operator⟩,
      ⟨⟨3, 6⟩, "'1'", .literal⟩]
    let colored := render coloring false source tokens (some ⟨3, 6⟩)
    coloring.theme.IsGraphic ∧ '\x1b' ∉ source.toList ∧
      colored = "é\x1b[33m=\x1b[0m\x1b[1;4;31m'1'\x1b[0m;4m" ∧
      Piece.visible (Piece.read 0 colored.toList) = source.toList ∧
      ∃ t ∈ tokens, t.span.start = 3 := by
  intro coloring source tokens colored
  have hescape : '\x1b' ∉ source.toList := by decide
  obtain ⟨hbalanced, -⟩ := render_balanced coloring false source tokens (some ⟨3, 6⟩)
  obtain ⟨hvisible, -, hinside⟩ := hbalanced isGraphic_standard hescape
  have hpieces : Piece.read 0 colored.toList =
      [.shown 'é', .sequence "\x1b[33m".toList, .shown '=', .sequence "\x1b[0m".toList] ++
        .sequence "\x1b[1;4;31m".toList :: ([.shown '\'', .shown '1', .shown '\'',
          .sequence "\x1b[0m".toList, .shown ';', .shown '4', .shown 'm'] : List Piece) := by
    decide +kernel
  obtain ⟨t, ht, -, -, hspan, -⟩ := hinside _ _ _ hpieces (by decide)
  have hstart : t.span.start = 3 := by
    rw [hspan]
    rfl
  exact ⟨isGraphic_standard, hescape, by decide +kernel, hvisible, t, ht, hstart⟩

end Gloss
