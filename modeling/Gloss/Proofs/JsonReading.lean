import Gloss.Json
import Gloss.Proofs.Numerals

/-! The reader goes from character to character and keeps a stack of the lists and records that have
begun. -/
namespace Gloss.Json

def isBlank (c : Char) : Bool := c = ' ' || c = '\n' || c = '\r' || c = '\t'

/-- A list or record that has begun, with its items or fields so far, last first; in a record a
value is wanted for a field. -/
inductive Frame where
  | list (items : List Json)
  | record (fields : List (String × Json)) (name : String)

inductive Purpose where
  | value
  | name (fields : List (String × Json))

/-- What is read next. The characters of a text are kept last first. -/
inductive Mode where
  | value
  /-- A field, or the end of a record that has none. -/
  | name (fields : List (String × Json))
  | colon (fields : List (String × Json)) (name : String)
  | text (purpose : Purpose) (done : List Char)
  /-- What comes behind a backslash; behind the first half of a pair of codes, the second half. -/
  | escape (purpose : Purpose) (done : List Char) (first : Option Nat)
  /-- The last `left` of the four digits of a code. -/
  | code (purpose : Purpose) (done : List Char) (first : Option Nat) (left n : Nat)
  /-- The backslash before the second half of a pair of codes. -/
  | second (purpose : Purpose) (done : List Char) (first : Nat)
  /-- The digits of a number that has begun, or what comes behind it. -/
  | number (n : Nat)
  /-- What comes behind a value. -/
  | settled (v : Json)

structure Reader where
  stack : List Frame
  mode : Mode

def Mode.value? : Mode → Option Json
  | .number n => some (.number n)
  | .settled v => some v
  | _ => none

def Purpose.finish : Purpose → String → Mode
  | .value, s => .settled (.text s)
  | .name fields, s => .colon fields s

def unescape? : Char → Option Char
  | '"' => some '"'
  | '\\' => some '\\'
  | '/' => some '/'
  | 'b' => some '\x08'
  | 'f' => some '\x0c'
  | 'n' => some '\n'
  | 'r' => some '\r'
  | 't' => some '\t'
  | _ => none

/-- A code has ended: a character, or a half of the pair of codes for one beyond the first 65536. -/
def finishCode (purpose : Purpose) (done : List Char) (first : Option Nat) (n : Nat) :
    Option Mode :=
  match first with
  | none =>
    if 0xd800 ≤ n ∧ n < 0xdc00 then some (.second purpose done n)
    else (Numeral.char? n).map fun c => .text purpose (c :: done)
  | some m =>
    if 0xdc00 ≤ n ∧ n < 0xe000 then
      (Numeral.char? (0x10000 + (m - 0xd800) * 0x400 + (n - 0xdc00))).map fun c =>
        .text purpose (c :: done)
    else none

def stepText (mode : Mode) (c : Char) : Option Mode :=
  match mode with
  | .text purpose done =>
    if c = '"' then some (purpose.finish (String.ofList done.reverse))
    else if c = '\\' then some (.escape purpose done none)
    else if c.toNat < 0x20 then none
    else some (.text purpose (c :: done))
  | .escape purpose done first =>
    if c = 'u' then some (.code purpose done first 4 0)
    else if first.isSome then none
    else (unescape? c).map fun d => .text purpose (d :: done)
  | .code purpose done first left n => do
    let n ← Numeral.addDigit 16 n c
    if left = 1 then finishCode purpose done first n
    else return .code purpose done first (left - 1) n
  | .second purpose done first =>
    if c = '\\' then some (.escape purpose done (some first)) else none
  | _ => none

def stepSettled (stack : List Frame) (v : Json) (c : Char) : Option Reader :=
  if isBlank c then some ⟨stack, .settled v⟩
  else
    match stack with
    | .list items :: stack =>
      if c = ',' then some ⟨.list (v :: items) :: stack, .value⟩
      else if c = ']' then some ⟨stack, .settled (.list (v :: items).reverse)⟩
      else none
    | .record fields name :: stack =>
      if c = ',' then some ⟨stack, .name ((name, v) :: fields)⟩
      else if c = '\x7d' then some ⟨stack, .settled (.record ((name, v) :: fields).reverse)⟩
      else none
    | [] => none

def stepValue (stack : List Frame) (c : Char) : Option Reader :=
  if isBlank c then some ⟨stack, .value⟩
  else if c = '"' then some ⟨stack, .text .value []⟩
  else if c = '[' then some ⟨.list [] :: stack, .value⟩
  else if c = '\x7b' then some ⟨stack, .name []⟩
  else if c = ']' then
    match stack with
    | .list [] :: stack => some ⟨stack, .settled (.list [])⟩
    | _ => none
  else (Numeral.addDigit 10 0 c).map fun n => ⟨stack, .number n⟩

def step (r : Reader) (c : Char) : Option Reader :=
  match r.mode with
  | .value => stepValue r.stack c
  | .name fields =>
    if isBlank c then some r
    else if c = '"' then some ⟨r.stack, .text (.name fields) []⟩
    else if c = '\x7d' && fields.isEmpty then some ⟨r.stack, .settled (.record [])⟩
    else none
  | .colon fields name =>
    if isBlank c then some r
    else if c = ':' then some ⟨.record fields name :: r.stack, .value⟩
    else none
  | .number n =>
    match Numeral.addDigit 10 n c with
    | some m => if n = 0 then none else some ⟨r.stack, .number m⟩
    | none => stepSettled r.stack (.number n) c
  | .settled v => stepSettled r.stack v c
  | mode => (stepText mode c).map fun next => ⟨r.stack, next⟩

def run (r : Reader) (text : List Char) : Option Reader := text.foldlM step r

def read? (text : String) : Option Json :=
  match run ⟨[], .value⟩ text.toList with
  | some ⟨[], mode⟩ => mode.value?
  | _ => none

section Run

variable {r r' r'' : Reader} {stack : List Frame} {mode : Mode} {v : Json} {c : Char}
  {text more : List Char}

theorem run_append (h : run r text = some r') (h' : run r' more = some r'') :
    run r (text ++ more) = some r'' := by
  rw [run, List.foldlM_append, ← run, h]
  exact h'

theorem run_cons (h : step r c = some r') (h' : run r' text = some r'') :
    run r (c :: text) = some r'' := by
  rw [run, List.foldlM_cons, h]
  exact h'

theorem run_blanks (hblank : ∀ c ∈ text, isBlank c) (h : ∀ c, isBlank c → step r c = some r) :
    run r text = some r := by
  induction text with
  | nil => rfl
  | cons c text ih =>
    obtain ⟨hc, htext⟩ := List.forall_mem_cons.mp hblank
    exact run_cons (h c hc) (ih htext)

theorem toList_newLine (depth : Nat) :
    (newLine depth).toList = '\n' :: List.replicate (2 * depth) ' ' := String.toList_ofList

theorem isBlank_newLine (depth : Nat) : ∀ c ∈ (newLine depth).toList, isBlank c := by
  intro c hc
  rw [toList_newLine] at hc
  rcases List.mem_cons.mp hc with rfl | hc
  · decide
  · rw [List.eq_of_mem_replicate hc]
    decide

theorem run_newLine_value (stack : List Frame) (depth : Nat) :
    run ⟨stack, .value⟩ (newLine depth).toList = some ⟨stack, .value⟩ :=
  run_blanks (isBlank_newLine depth) fun _ hc => if_pos hc

theorem run_newLine_name (stack : List Frame) (fields : List (String × Json)) (depth : Nat) :
    run ⟨stack, .name fields⟩ (newLine depth).toList = some ⟨stack, .name fields⟩ :=
  run_blanks (isBlank_newLine depth) fun _ hc => if_pos hc

/-- No digit comes behind a value, so it does not matter whether it is a number. -/
theorem step_settled (h : mode.value? = some v) (hc : Numeral.digit? c = none) :
    step ⟨stack, mode⟩ c = stepSettled stack v c := by
  cases mode with
  | number n =>
    obtain rfl := Option.some.inj h
    rw [step]
    dsimp only
    rw [Numeral.addDigit_eq_none hc]
  | settled u =>
    obtain rfl := Option.some.inj h
    rfl
  | _ => cases h

theorem run_newLine_settled (h : mode.value? = some v) (stack : List Frame) (depth : Nat) :
    run ⟨stack, mode⟩ (newLine depth).toList = some ⟨stack, .settled v⟩ := by
  have hblanks : ∀ c ∈ List.replicate (2 * depth) ' ', isBlank c := by
    intro c hc
    rw [List.eq_of_mem_replicate hc]
    decide
  have hfeed : step ⟨stack, mode⟩ '\n' = some ⟨stack, .settled v⟩ := by
    rw [step_settled h (by decide)]
    exact if_pos (by decide)
  rw [toList_newLine]
  exact run_cons hfeed (run_blanks hblanks fun _ hc => if_pos hc)

end Run

section Texts

variable {stack : List Frame} {purpose : Purpose} {done : List Char}

theorem step_text {mode next : Mode} {c : Char} (h : stepText mode c = some next) :
    step ⟨stack, mode⟩ c = some ⟨stack, next⟩ := by
  cases mode with
  | text | escape | code | second => exact congrArg (Option.map (Reader.mk stack)) h
  | _ => cases h

/-- Two digits of a code below 256 that come behind two zeros. -/
theorem run_hexByte (stack : List Frame) (purpose : Purpose) (done : List Char) {c : Char}
    (h : c.toNat < 256) : run ⟨stack, .code purpose done none 2 0⟩ (hexByte c.toNat) =
      some ⟨stack, .text purpose (c :: done)⟩ := by
  have hhigh : stepText (.code purpose done none 2 0) (Nat.digitChar (c.toNat / 16 % 16)) =
      some (.code purpose done none 1 (c.toNat / 16)) := by
    have hdigit : c.toNat / 16 % 16 = c.toNat / 16 := by omega
    rw [stepText, Numeral.addDigit_digitChar (Nat.mod_lt _ (by decide)) (by decide), hdigit,
      Nat.mul_zero, Nat.zero_add]
    rfl
  have hlow : stepText (.code purpose done none 1 (c.toNat / 16)) (Nat.digitChar (c.toNat % 16)) =
      some (.text purpose (c :: done)) := by
    have hfinish : finishCode purpose done none c.toNat = some (.text purpose (c :: done)) := by
      rw [finishCode, if_neg (by omega), Numeral.char?_toNat]
      rfl
    rw [stepText, Numeral.addDigit_digitChar (Nat.mod_lt _ (by decide)) (by decide),
      Nat.div_add_mod, ← hfinish]
    rfl
  exact run_cons (step_text hhigh) (run_cons (step_text hlow) rfl)

/-- A character of a text is read as it is written. -/
theorem run_encodeChar (stack : List Frame) (purpose : Purpose) (done : List Char) (c : Char) :
    run ⟨stack, .text purpose done⟩ (encodeChar c) = some ⟨stack, .text purpose (c :: done)⟩ := by
  unfold encodeChar
  split
  -- Only what has no letter of its own is left to look at.
  case h_8 hquote hbackslash _ _ _ _ _ =>
    split
    · next hcontrol =>
      have hzeros : run ⟨stack, .text purpose done⟩ ['\\', 'u', '0', '0'] =
          some ⟨stack, .code purpose done none 2 0⟩ := rfl
      exact run_append hzeros (run_hexByte stack purpose done (by omega))
    · next hvisible =>
      have htext : stepText (.text purpose done) c = some (.text purpose (c :: done)) := by
        rw [stepText, if_neg hquote, if_neg hbackslash, if_neg hvisible]
      exact run_cons (step_text htext) rfl
  all_goals rfl

theorem run_text (stack : List Frame) (purpose : Purpose) (done text : List Char) :
    run ⟨stack, .text purpose done⟩ (text.flatMap encodeChar ++ ['"']) =
      some ⟨stack, purpose.finish (String.ofList (done.reverse ++ text))⟩ := by
  induction text generalizing done with
  | nil =>
    rw [List.append_nil]
    rfl
  | cons c text ih =>
    have hrest := ih (c :: done)
    rw [List.reverse_cons, List.append_assoc] at hrest
    rw [List.flatMap_cons, List.append_assoc]
    exact run_append (run_encodeChar stack purpose done c) hrest

theorem toList_encodeText (s : String) :
    (encodeText s).toList = '"' :: (s.toList.flatMap encodeChar ++ ['"']) := by
  rw [encodeText, String.toList_ofList]
  rfl

theorem run_encodeText (stack : List Frame) (s : String) :
    run ⟨stack, .value⟩ (encodeText s).toList = some ⟨stack, .settled (.text s)⟩ := by
  have htext := run_text stack .value [] s.toList
  rw [List.reverse_nil, List.nil_append, String.ofList_toList] at htext
  rw [toList_encodeText]
  exact run_cons rfl htext

theorem run_encodeName (stack : List Frame) (fields : List (String × Json)) (name : String) :
    run ⟨stack, .name fields⟩ (encodeText name).toList = some ⟨stack, .colon fields name⟩ := by
  have htext := run_text stack (.name fields) [] name.toList
  rw [List.reverse_nil, List.nil_append, String.ofList_toList] at htext
  rw [toList_encodeText]
  exact run_cons rfl htext

end Texts

section Values

/-- The digits of a number are read as the number. -/
theorem run_toDigits (stack : List Frame) (n : Nat) :
    run ⟨stack, .value⟩ (Nat.toDigits 10 n) = some ⟨stack, .number n⟩ := by
  -- The digits are read from the first to the last, so the induction takes the last one away.
  induction n using Nat.strongRecOn with
  | ind n ih =>
    by_cases hn : n < 10
    · have hother : ∀ n < 10, ¬isBlank (Nat.digitChar n) ∧ Nat.digitChar n ≠ '"' ∧
          Nat.digitChar n ≠ '[' ∧ Nat.digitChar n ≠ '\x7b' ∧ Nat.digitChar n ≠ ']' := by decide
      obtain ⟨hblank, hquote, hlist, hrecord, hend⟩ := hother n hn
      have hstep : step ⟨stack, .value⟩ (Nat.digitChar n) = some ⟨stack, .number n⟩ := by
        rw [step]
        dsimp only
        unfold stepValue
        rw [if_neg hblank, if_neg hquote, if_neg hlist, if_neg hrecord, if_neg hend,
          Numeral.addDigit_digitChar hn (by decide), Nat.mul_zero, Nat.zero_add]
        rfl
      rw [Nat.toDigits_of_lt_base hn]
      exact run_cons hstep rfl
    · -- No leading zero: before the last digit the number is not zero.
      have hstep : step ⟨stack, .number (n / 10)⟩ (Nat.digitChar (n % 10)) =
          some ⟨stack, .number n⟩ := by
        rw [step]
        dsimp only
        rw [Numeral.addDigit_digitChar (Nat.mod_lt n (by decide)) (by decide), Nat.div_add_mod]
        exact if_neg (by omega)
      rw [Nat.toDigits_of_base_le (by decide) (Nat.le_of_not_lt hn)]
      exact run_append (ih _ (by omega)) (run_cons hstep rfl)

section Parts

variable {mode : Mode} {text : List Char}

/-- An item on a new line is read as it is read alone. -/
theorem run_item (h : ∀ stack, run ⟨stack, .value⟩ text = some ⟨stack, mode⟩) (stack : List Frame)
    (depth : Nat) :
    run ⟨stack, .value⟩ ((newLine depth).toList ++ text) = some ⟨stack, mode⟩ :=
  run_append (run_newLine_value stack depth) (h stack)

def fieldText (depth : Nat) (name : String) (text : List Char) : List Char :=
  (newLine depth).toList ++ ((encodeText name).toList ++ ':' :: ' ' :: text)

/-- A field on a new line begins a value under its name. -/
theorem run_field (h : ∀ stack, run ⟨stack, .value⟩ text = some ⟨stack, mode⟩) (stack : List Frame)
    (fields : List (String × Json)) (name : String) (depth : Nat) :
    run ⟨stack, .name fields⟩ (fieldText depth name text) =
      some ⟨.record fields name :: stack, mode⟩ := by
  have hvalue : run ⟨stack, .colon fields name⟩ (':' :: ' ' :: text) =
      some ⟨.record fields name :: stack, mode⟩ := run_cons rfl (run_cons rfl (h _))
  exact run_append (run_newLine_name stack fields depth)
    (run_append (run_encodeName stack fields name) hvalue)

end Parts

/-- That a value is written behind a text in a way that is read as this value. -/
def Readable (v : Json) (out written : String) : Prop :=
  ∃ text mode, written.toList = out.toList ++ text ∧ mode.value? = some v ∧
    ∀ stack, run ⟨stack, .value⟩ text = some ⟨stack, mode⟩

def ReadableItems (items : List Json) (out written : String) : Prop :=
  ∃ text, written.toList = out.toList ++ text ∧
    ∀ stack done v (mode : Mode), mode.value? = some v →
      run ⟨.list done :: stack, mode⟩ text =
        some ⟨stack, .settled (.list ((v :: done).reverse ++ items))⟩

def ReadableFields (fields : List (String × Json)) (out written : String) : Prop :=
  ∃ text, written.toList = out.toList ++ text ∧
    ∀ stack done name v (mode : Mode), mode.value? = some v →
      run ⟨.record done name :: stack, mode⟩ text =
        some ⟨stack, .settled (.record (((name, v) :: done).reverse ++ fields))⟩

mutual

/-- Whatever value is written, at any depth, is read as this value. -/
theorem readable_write (depth : Nat) (out : String) :
    ∀ v : Json, Readable v out (v.write depth out)
  -- A value is written the same whatever stands before it, and read the same on any stack.
  | .number n => by
    refine ⟨Nat.toDigits 10 n, .number n, ?_, rfl, fun stack => run_toDigits stack n⟩
    rw [write, String.toList_append, Nat.toString_eq_ofList_toDigits, String.toList_ofList]
  | .text s => ⟨(encodeText s).toList, .settled (.text s), by rw [write, String.toList_append], rfl,
      fun stack => run_encodeText stack s⟩
  | .list [] => ⟨['[', ']'], .settled (.list []), by rw [write, String.toList_append]; rfl, rfl,
      fun _ => rfl⟩
  | .list (item :: items) => by
    obtain ⟨text, mode, htext, hmode, hrun⟩ :=
      readable_write (depth + 1) (out ++ "[" ++ newLine (depth + 1)) item
    obtain ⟨more, hmore, hitems⟩ := readable_writeItems depth
      (write (depth + 1) (out ++ "[" ++ newLine (depth + 1)) item) items
    refine ⟨'[' :: ((newLine (depth + 1)).toList ++ text ++ more),
      .settled (.list (item :: items)), ?_, rfl, fun stack => ?_⟩
    · rw [write, hmore, htext]
      simp
    · -- The first item ends while the list has no items yet.
      have hrest := hitems stack [] item mode hmode
      exact run_cons rfl (run_append (run_item hrun _ _) hrest)
  | .record [] => ⟨['\x7b', '\x7d'], .settled (.record []),
      by rw [write, String.toList_append]; rfl, rfl, fun _ => rfl⟩
  | .record ((name, value) :: fields) => by
    obtain ⟨text, mode, htext, hmode, hrun⟩ := readable_write (depth + 1)
      (out ++ "\x7b" ++ newLine (depth + 1) ++ encodeText name ++ ": ") value
    obtain ⟨more, hmore, hfields⟩ := readable_writeFields depth
      (write (depth + 1) (out ++ "\x7b" ++ newLine (depth + 1) ++ encodeText name ++ ": ") value)
      fields
    refine ⟨'\x7b' :: (fieldText (depth + 1) name text ++ more),
      .settled (.record ((name, value) :: fields)), ?_, rfl, fun stack => ?_⟩
    · rw [write, hmore, htext]
      simp [fieldText]
    · -- The first field ends while the record has no fields yet.
      have hrest := hfields stack [] name value mode hmode
      exact run_cons rfl (run_append (run_field hrun _ _ _ _) hrest)

theorem readable_writeItems (depth : Nat) (out : String) :
    ∀ items : List Json, ReadableItems items out (writeItems depth out items)
  | [] => by
    refine ⟨(newLine depth).toList ++ [']'], ?_, fun stack done v mode hmode => ?_⟩
    · rw [writeItems]
      simp
    · -- The new line settles the last item, and the bracket takes it into the list.
      rw [List.append_nil]
      exact run_append (run_newLine_settled hmode _ _) rfl
  | item :: items => by
    obtain ⟨text, mode', htext, hmode', hrun⟩ :=
      readable_write (depth + 1) (out ++ "," ++ newLine (depth + 1)) item
    obtain ⟨more, hmore, hitems⟩ := readable_writeItems depth
      (write (depth + 1) (out ++ "," ++ newLine (depth + 1)) item) items
    refine ⟨',' :: ((newLine (depth + 1)).toList ++ text ++ more), ?_,
      fun stack done v mode hmode => ?_⟩
    · rw [writeItems, hmore, htext]
      simp
    · have hcomma : step ⟨.list done :: stack, mode⟩ ',' =
          some ⟨.list (v :: done) :: stack, .value⟩ := by
        rw [step_settled hmode (by decide)]
        rfl
      have hrest := hitems stack (v :: done) item mode' hmode'
      rw [List.reverse_cons, List.append_assoc] at hrest
      exact run_cons hcomma (run_append (run_item hrun _ _) hrest)

theorem readable_writeFields (depth : Nat) (out : String) :
    ∀ fields : List (String × Json), ReadableFields fields out (writeFields depth out fields)
  | [] => by
    refine ⟨(newLine depth).toList ++ ['\x7d'], ?_, fun stack done name v mode hmode => ?_⟩
    · rw [writeFields]
      simp
    · rw [List.append_nil]
      exact run_append (run_newLine_settled hmode _ _) rfl
  | (name', value) :: fields => by
    obtain ⟨text, mode', htext, hmode', hrun⟩ := readable_write (depth + 1)
      (out ++ "," ++ newLine (depth + 1) ++ encodeText name' ++ ": ") value
    obtain ⟨more, hmore, hfields⟩ := readable_writeFields depth
      (write (depth + 1) (out ++ "," ++ newLine (depth + 1) ++ encodeText name' ++ ": ") value)
      fields
    refine ⟨',' :: (fieldText (depth + 1) name' text ++ more), ?_,
      fun stack done name v mode hmode => ?_⟩
    · rw [writeFields, hmore, htext]
      simp [fieldText]
    · have hcomma : step ⟨.record done name :: stack, mode⟩ ',' =
          some ⟨stack, .name ((name, v) :: done)⟩ := by
        rw [step_settled hmode (by decide)]
        rfl
      have hrest := hfields stack ((name, v) :: done) name' value mode' hmode'
      rw [List.reverse_cons, List.append_assoc] at hrest
      exact run_cons hcomma (run_append (run_field hrun _ _ _ _) hrest)

end

/-- The document of a value is read as this value. -/
theorem read?_render (v : Json) : read? v.render = some v := by
  obtain ⟨text, mode, htext, hmode, hrun⟩ := readable_write 0 "" v
  have hempty : "".toList = [] := rfl
  rw [hempty, List.nil_append] at htext
  rw [read?, render, htext, hrun]
  exact hmode

end Values
end Gloss.Json
