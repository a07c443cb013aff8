import Mathlib.Data.List.Perm.Subperm
import Mathlib.Data.List.ProdSigma
import Gloss.Proofs.DescentRoom
import Gloss.Proofs.DescentRules
import Gloss.Proofs.Marking
import Gloss.Proofs.Overlaps

namespace Gloss

namespace Segment

def pushGap (source : String) (done : Array Segment) (start stop : Nat) :
    Except MachineFault (Array Segment) := do
  if start < stop then return done.push (.gap (← slice source start stop))
  else return done

def cutFrom (source : String) (errorSpan : Option Span) (done : Array Segment) (cursor : Nat) :
    List Token → Except MachineFault (Array Segment)
  | [] => pushGap source done cursor source.utf8ByteSize
  | t :: tokens => do
    if t.span.start < cursor ∨ slice? source t.span.start t.span.stop ≠ some t.text then
      cutFrom source errorSpan done cursor tokens
    else
      let done ← pushGap source done cursor t.span.start
      cutFrom source errorSpan (done.push (ofToken errorSpan t)) t.span.stop tokens

variable {source : String} {errorSpan : Option Span} {done : Array Segment}
  {past middle after text : List Char}

theorem pushGap_eq (hsource : source.toList = past ++ (middle ++ after)) :
    pushGap source done (byteLength past) (byteLength (past ++ middle)) =
      .ok (done.append (ofGap middle).toArray) := by
  rw [pushGap]
  cases middle with
  | nil =>
    rw [List.append_nil, if_neg (Nat.lt_irrefl _), ofGap, List.isEmpty_nil, if_pos rfl]
    exact congrArg Except.ok (Array.append_empty ..).symm
  | cons c middle =>
    have hlt : byteLength past < byteLength (past ++ c :: middle) := by
      have hpos := c.utf8Size_pos
      rw [byteLength_append, byteLength_cons]
      omega
    rw [if_pos hlt, slice_eq hsource]
    rfl

/-- Behind what is done, a text is cut as it is without a machine. -/
theorem cutFrom_eq (hsource : source.toList = past ++ text) (tokens : List Token) :
    cutFrom source errorSpan done (byteLength past) tokens =
      .ok (cut errorSpan done (byteLength past) text tokens) := by
  induction tokens generalizing done past text with
  | nil =>
    have hend : source.utf8ByteSize = byteLength (past ++ text) := by
      rw [← hsource, byteLength_toList]
    have hgap : source.toList = past ++ (text ++ []) := by rw [hsource, List.append_nil]
    rw [cutFrom, cut, hend]
    exact pushGap_eq hgap
  | cons t tokens ih =>
    rw [cutFrom, cut]
    cases hplace : place? (byteLength past) text t with
    | none =>
      -- If its span were a slice with its text, the token would have a place here.
      have hskip : t.span.start < byteLength past ∨
          slice? source t.span.start t.span.stop ≠ some t.text := by
        by_contra hfits
        rw [not_or, not_lt, not_not] at hfits
        obtain ⟨hstart, hslice⟩ := hfits
        obtain ⟨found, hfound⟩ :=
          exists_place_of_isSlice (slice?_span_iff.mp hslice) hsource hstart
        rw [hplace] at hfound
        cases hfound
      rw [if_pos hskip]
      exact ih hsource
    | some found =>
      -- The span is a slice between two boundaries, and so is the gap in front of it.
      obtain ⟨before, rest⟩ := found
      obtain ⟨rfl, hspan⟩ := place?_eq_some_iff.mp hplace
      have hstart : t.span.start = byteLength (past ++ before) := by
        rw [hspan, byteLength_append past]
      have hstop : t.span.stop = byteLength (past ++ (before ++ t.text.toList)) := by
        rw [hspan, byteLength_append past]
      have hbehind : byteLength past ≤ t.span.start := by
        rw [hspan]
        exact Nat.le_add_right ..
      have hslice : slice? source t.span.start t.span.stop = some t.text := by
        rw [slice?_eq_some_iff, hstart, hstop]
        exact ⟨past ++ before, rest, by rw [hsource, List.append_assoc], rfl,
          by rw [List.append_assoc]⟩
      have hfits : ¬(t.span.start < byteLength past ∨
          slice? source t.span.start t.span.stop ≠ some t.text) := by
        rw [not_or, not_lt, not_not]
        exact ⟨hbehind, hslice⟩
      rw [if_neg hfits, hstart, pushGap_eq hsource, ok_bind, hstop]
      apply ih
      rw [hsource, List.append_assoc, List.append_assoc]

end Segment

section Colors

/-- The segments of a text. There is to be room for two of each token and one more. -/
def segmentsOn (source : String) (tokens : List Token) (errorSpan : Option Span) :
    Except MachineFault (List Segment) := do
  let twice ← Word.mul tokens.length 2
  let _room ← Word.add twice 1
  return (← Segment.cutFrom source errorSpan #[] 0 tokens).toList

/-- A text with its tokens in color. There is to be room for twice the text. -/
def renderOn (coloring : Coloring) (terminal : Bool) (source : String) (tokens : List Token)
    (errorSpan : Option Span) : Except MachineFault String := do
  if coloring.mode.usesColor terminal then
    let _room ← Word.mul source.utf8ByteSize 2
    return (← segmentsOn source tokens errorSpan).foldl (Segment.paint coloring.theme) ""
  else return source

variable {source : String} {tokens : List Token}

/-- No offset of any span, in order or not, makes the cutting of a text fail. -/
theorem segmentsOn_eq (htokens : tokens.length * 2 + 1 < Word.size) (errorSpan : Option Span) :
    segmentsOn source tokens errorSpan = .ok (segments source tokens errorSpan) := by
  have hcut : Segment.cutFrom source errorSpan #[] 0 tokens =
      .ok (Segment.cut errorSpan #[] 0 source.toList tokens) :=
    Segment.cutFrom_eq (List.nil_append source.toList).symm tokens
  rw [segmentsOn, segments, Word.mul_eq (by omega), ok_bind, Word.add_eq htokens, ok_bind, hcut]
  rfl

theorem renderOn_eq (hsource : source.utf8ByteSize * 2 < Word.size)
    (htokens : tokens.length * 2 + 1 < Word.size) (coloring : Coloring) (terminal : Bool)
    (errorSpan : Option Span) : renderOn coloring terminal source tokens errorSpan =
      .ok (render coloring terminal source tokens errorSpan) := by
  rw [renderOn, render]
  split
  · rw [Word.mul_eq hsource, ok_bind, segmentsOn_eq htokens]
    rfl
  · rfl

end Colors

section Tokens

def classify (text : List Char) (found : List Token) :
    List Category → Except MachineFault (List Token)
  | [] => .ok found
  | c :: kinds => do
    let more := found ++ c.candidates text
    let _added ← Word.sub more.length found.length
    classify text more kinds

def Selection.keepOn (kept : Array Token) (edge dropped : Nat) :
    List Token → Except MachineFault (Array Token)
  | [] => .ok kept
  | t :: rest => do
    if edge ≤ t.span.start then keepOn (kept.push t) t.span.stop dropped rest
    else keepOn kept edge (← Word.add dropped 1) rest

def tokenizeOn (source : String) : Except MachineFault (List Token) := do
  let found ← classify source.toList [] Category.all
  return (← Selection.keepOn #[] 0 0 (found.mergeSort Selection.precedes)).toList

theorem classify_eq (text : List Char) (found : List Token) (kinds : List Category) :
    classify text found kinds = .ok (found ++ kinds.flatMap (·.candidates text)) := by
  induction kinds generalizing found with
  | nil => rw [classify, List.flatMap_nil, List.append_nil]
  | cons c kinds ih =>
    have hle : found.length ≤ (found ++ c.candidates text).length := by
      rw [List.length_append]
      omega
    rw [classify, Word.sub_eq hle, ok_bind, ih, List.flatMap_cons, List.append_assoc]

theorem Selection.keepOn_eq (kept : Array Token) (edge dropped : Nat) (tokens : List Token)
    (h : dropped + tokens.length < Word.size) :
    keepOn kept edge dropped tokens = .ok (keep kept edge tokens) := by
  induction tokens generalizing kept edge dropped with
  | nil => rfl
  | cons t rest ih =>
    rw [List.length_cons] at h
    rw [keepOn, keep]
    split
    · exact ih _ _ _ (by omega)
    · rw [Word.add_eq (by omega), ok_bind]
      exact ih _ _ _ (by omega)

theorem stop_le_of_mem {source : String} {t : Token} (ht : t ∈ candidates source) :
    t.span.stop ≤ source.utf8ByteSize := by
  obtain ⟨-, before, x, more, after, htext, -, hteq⟩ := exists_found_of_mem ht
  have hlength := congrArg byteLength htext
  rw [byteLength_toList, byteLength_append, ← List.cons_append, byteLength_append] at hlength
  have hstop : t.span.stop = byteLength before + byteLength (x :: more) := by rw [hteq]; rfl
  omega

/-- Candidates that end at one place are a reserved word and a name, so there are at most two for
each byte. -/
theorem length_candidates_le (source : String) :
    (candidates source).length ≤ source.utf8ByteSize * 2 := by
  -- Candidates are told apart by their last byte and by whether they are reserved words.
  let ending (t : Token) : Nat × Bool := (t.span.stop - 1, t.category = .keyword)
  have hdistinct : (candidates source).Pairwise fun t u => ending t ≠ ending u := by
    apply (candidates_pairwise source).imp_of_mem
    intro t u ht hu hpair heq
    -- No candidate is empty, so two that are apart do not end at one byte.
    have hwide := wide_of_mem ht
    have hwide' := wide_of_mem hu
    obtain ⟨hstop, hkinds⟩ := Prod.mk.inj heq
    rw [decide_eq_decide] at hkinds
    cases hpair with
    | apart hspan =>
      rcases hspan with hspan | hspan <;> omega
    | twins _ _ htwins =>
      rcases htwins with ⟨hkeyword, hname⟩ | ⟨hname, hkeyword⟩
      · rw [hname] at hkinds
        cases hkinds.mp hkeyword
      · rw [hname] at hkinds
        cases hkinds.mpr hkeyword
    | around _ _ hinside | within _ _ hinside =>
      obtain ⟨-, hinside⟩ := hinside
      omega
  have hnodup : ((candidates source).map ending).Nodup := List.pairwise_map.mpr hdistinct
  have hsubset : (candidates source).map ending ⊆
      List.range source.utf8ByteSize ×ˢ [true, false] := by
    intro e he
    obtain ⟨t, ht, rfl⟩ := List.mem_map.mp he
    have hwide := wide_of_mem ht
    have hle := stop_le_of_mem ht
    apply List.mem_product.mpr
    refine ⟨List.mem_range.mpr (by omega), ?_⟩
    cases decide (t.category = .keyword) <;> simp
  calc (candidates source).length = ((candidates source).map ending).length := by
        rw [List.length_map]
    _ ≤ (List.range source.utf8ByteSize ×ˢ [true, false]).length :=
        (List.subperm_of_subset hnodup hsubset).length_le
    _ = source.utf8ByteSize * 2 := by rw [List.length_product, List.length_range]; rfl

/-- The machine finds the tokens of every text whose size it can double. -/
theorem tokenizeOn_eq {source : String} (hsource : source.utf8ByteSize * 2 < Word.size) :
    tokenizeOn source = .ok (tokenize source) := by
  have hlength := length_candidates_le source
  have hkeep := Selection.keepOn_eq #[] 0 0 ((candidates source).mergeSort Selection.precedes)
    (by rw [List.length_mergeSort]; omega)
  rw [tokenizeOn, classify_eq, ok_bind, List.nil_append]
  show Selection.keepOn #[] 0 0 ((candidates source).mergeSort Selection.precedes) >>= _ = _
  rw [hkeep]
  rfl

end Tokens

section Runs

variable {α β : Type} {run : Nat → Option α} {room : Nat} {a : α}

/-- A run has a result with any room on the stack, unless it has too little room and runs out of
it. -/
def Settles (run : Nat → Option α) (room : Nat) (a : α) : Prop :=
  ∀ depth, run depth = some a ∨ (run depth = none ∧ depth < room)

/-- Where more room does not change a result, it is enough to see the one that comes with most. -/
theorem Settles.of_grows
    (hgrows : ∀ depth depth' b, depth ≤ depth' → run depth = some b → run depth' = some b)
    (henough : ∀ depth, room ≤ depth → run depth = some a) : Settles run room a := by
  intro depth
  rcases Nat.lt_or_ge depth room with hshort | hlong
  · cases hrun : run depth with
    | none => exact .inr ⟨rfl, hshort⟩
    | some b =>
      have hb : run room = some b := hgrows depth room b (Nat.le_of_lt hshort) hrun
      rw [henough room (Nat.le_refl room)] at hb
      exact .inl hb.symm
  · exact .inl (henough depth hlong)

theorem Settles.map (h : Settles run room a) (f : α → β) :
    Settles (fun depth => (run depth).map f) room (f a) := by
  intro depth
  rcases h depth with hrun | ⟨hrun, hshort⟩
  · exact .inl (Option.map_eq_some_iff.mpr ⟨a, hrun, rfl⟩)
  · exact .inr ⟨Option.map_eq_none_iff.mpr hrun, hshort⟩

end Runs

section Checks

def parseOn (tokens : List Token) (depth : Nat) : Option (Except Halt Unit × Cursor) :=
  (Descent.program tokens depth).from? ⟨0, ∅⟩

/-- What is reported of a run of the parser. A fault is an unknown outcome. -/
def outcomeOf (source : String) : Except Halt Unit → Except MachineFault Outcome
  | .ok () => .ok .clean
  | .error (.rejected d) => do return .syntaxError (← Finding.find source d)
  | .error (.fault fault) => .ok (.unknown fault.message)

def checkTokensOn (source : String) (tokens : List Token) (depth : Nat) :
    Option (Except MachineFault Outcome) :=
  (parseOn tokens depth).map fun (result, _) => outcomeOf source result

/-- Checks a text. A fault of the tokenizer is an unknown outcome too. -/
def checkOn (source : String) (depth : Nat) : Option (Except MachineFault Report) :=
  match tokenizeOn source with
  | .ok tokens => (checkTokensOn source tokens depth).map fun outcome => return ⟨tokens, ← outcome⟩
  | .error fault => some (.ok ⟨[], .unknown fault.message⟩)

variable {source : String} {tokens : List Token}

theorem parseOn_settles (htokens : tokens.length < Word.size) :
    Settles (parseOn tokens) (7 * (tokens.length + 1)) ((parse tokens).ending tokens) := by
  apply Settles.of_grows
  · exact fun _ _ result hle => Descent.extends_program_of_le hle ⟨0, ∅⟩ result
  · exact fun _ => Descent.from?_program htokens

theorem checkTokensOn_settles (hsource : source.utf8ByteSize + 1 < Word.size)
    (htokens : tokens.length < Word.size) :
    Settles (checkTokensOn source tokens) (7 * (tokens.length + 1))
      (.ok (checkTokens source tokens)) := by
  have houtcome : outcomeOf source ((parse tokens).ending tokens).1 =
      .ok (checkTokens source tokens) := by
    rw [checkTokens, Verdict.ending]
    cases (parse tokens).error? with
    | none => rfl
    | some e =>
      dsimp only
      rw [outcomeOf, Finding.find_eq hsource]
      rfl
  rw [← houtcome]
  exact (parseOn_settles htokens).map fun (result, _) => outcomeOf source result

/-- With enough room on the stack a check on the machine is the check. -/
theorem checkOn_settles (hsource : source.utf8ByteSize * 2 + 1 < Word.size) :
    Settles (checkOn source) (7 * ((tokenize source).length + 1)) (.ok (check source)) := by
  have hlength := length_candidates_le source
  have htokens : (tokenize source).length ≤ (candidates source).length :=
    (List.subperm_of_subset (nodup_tokenize source)
      fun _ => mem_candidates_of_mem_tokenize).length_le
  have hcheck : checkOn source = fun depth => (checkTokensOn source (tokenize source) depth).map
      fun outcome => return ⟨tokenize source, ← outcome⟩ := by
    funext depth
    rw [checkOn, tokenizeOn_eq (by omega)]
  rw [hcheck]
  exact (checkTokensOn_settles (by omega) (by omega)).map _

end Checks

/-- Texts and lists of tokens take no more than half of the bytes that a word can count. Then, with
any spans and texts of the tokens and for each offset, the machine meets no fault: each entry of the
tables is there, each place and label is found, the text is cut up and colored, and a check that
does not run out of stack comes to an end. The machine always has the result of the program, and no
check has an unknown outcome. -/
theorem machine_faultless (source : String) (tokens : List Token)
    (hsource : 2 * source.utf8ByteSize < Word.size) (htokens : 2 * tokens.length < Word.size) :
    ((∀ k, entry Keyword.all k = .ok k) ∧ (∀ o, entry Operator.all o = .ok o) ∧
      (∀ b, entry Bracket.all b = .ok b) ∧ ∀ c, entry Category.all c = .ok c) ∧
    (∀ offset, Position.find source offset = .ok (.ofOffset source offset)) ∧
    (∀ e, Diagnostic.build e = .ok (.ofError e)) ∧
    (∀ (d : Diagnostic) offset, d.pointTo offset = .ok (d.withEndOfInput offset)) ∧
    (∀ d, Finding.find source d = .ok (.ofDiagnostic source d)) ∧
    (∀ errorSpan, segmentsOn source tokens errorSpan = .ok (segments source tokens errorSpan)) ∧
    (∀ coloring terminal errorSpan, renderOn coloring terminal source tokens errorSpan =
      .ok (render coloring terminal source tokens errorSpan)) ∧
    Settles (parseOn tokens) (7 * (tokens.length + 1)) ((parse tokens).ending tokens) ∧
    (Settles (checkTokensOn source tokens) (7 * (tokens.length + 1))
        (.ok (checkTokens source tokens)) ∧
      ∀ message, checkTokens source tokens ≠ .unknown message) ∧
    (Settles (checkOn source) (7 * ((tokenize source).length + 1)) (.ok (check source)) ∧
      ∀ message, (check source).outcome ≠ .unknown message) := by
  -- Both sizes are less than half of what a word counts, so twice a size and one more still fit.
  have heven : Word.size = 2 * 9223372036854775808 := rfl
  have hfits : source.utf8ByteSize * 2 + 1 < Word.size := by omega
  have hfits' : tokens.length * 2 + 1 < Word.size := by omega
  refine ⟨?tables, ?positions, Diagnostic.build_eq, Diagnostic.pointTo_eq, ?findings,
    segmentsOn_eq hfits', renderOn_eq (by omega) hfits', ?parse, ?tokens, ?text⟩
  case tables =>
    exact ⟨fun k => entry_eq k.mem_all, fun o => entry_eq o.mem_all, fun b => entry_eq b.mem_all,
      fun c => entry_eq c.mem_all⟩
  case positions => exact Position.find_eq (by omega)
  case findings => exact Finding.find_eq (by omega)
  case parse => exact parseOn_settles (by omega)
  case tokens =>
    exact ⟨checkTokensOn_settles (by omega) (by omega), checkTokens_ne_unknown source tokens⟩
  case text => exact ⟨checkOn_settles hfits, outcome_ne_unknown source⟩

/-- A span that ends before it starts, far behind the text, and one in the middle of its only
character. -/
theorem machine_faultless_odd_spans :
    let source := "é"
    let huge : Token := ⟨⟨UInt64.size - 1, 0⟩, "é", .literal⟩
    let tokens : List Token := [huge, ⟨⟨1, 2⟩, "x", .identifier⟩]
    2 * source.utf8ByteSize < Word.size ∧ 2 * tokens.length < Word.size ∧
      Position.find source 1 = .ok ⟨1, 2⟩ ∧ segmentsOn source tokens none = .ok [.gap "é"] ∧
      checkTokensOn source tokens 21 = some (.ok (.syntaxError
        ⟨.ofError (.unexpectedToken huge), .token huge.span ⟨1, 2⟩⟩)) := by
  intro source huge tokens
  have hsource : 2 * source.utf8ByteSize < Word.size := by decide
  have htokens : 2 * tokens.length < Word.size := by decide
  obtain ⟨-, hpositions, -, -, -, hsegments, -, -, ⟨hcheck, -⟩, -⟩ :=
    machine_faultless source tokens hsource htokens
  have hinside : Position.ofOffset source 1 = ⟨1, 2⟩ := by decide
  have hgap : segments source tokens none = [.gap "é"] := by decide
  have houtcome : checkTokens source tokens = .syntaxError
      ⟨.ofError (.unexpectedToken huge), .token huge.span ⟨1, 2⟩⟩ := by decide
  have hroom : ¬21 < 7 * (tokens.length + 1) := by decide
  have hrun := (hcheck 21).resolve_right fun hshort => hroom hshort.2
  rw [hpositions, hinside, hsegments, hgap, hrun, houtcome]
  exact ⟨hsource, htokens, rfl, rfl, rfl⟩

end Gloss
