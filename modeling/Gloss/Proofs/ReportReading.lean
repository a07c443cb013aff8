import Gloss.Listing
import Gloss.Proofs.JsonReading
import Gloss.Proofs.Reporting

namespace Gloss

namespace Json

def values (name : String) : Json → List Json
  | .record fields => (fields.filter (·.1 = name)).map (·.2)
  | .number _ | .text _ | .list _ => []

def field? (name : String) (v : Json) : Option Json :=
  match v.values name with
  | [value] => some value
  | _ => none

def number? : Json → Option Nat
  | .number n => some n
  | _ => none

def text? : Json → Option String
  | .text s => some s
  | _ => none

def items? : Json → Option (List Json)
  | .list items => some items
  | _ => none

def optionalText? (name : String) (v : Json) : Option (Option String) :=
  match v.values name with
  | [] => some none
  | [value] => value.text?.map some
  | _ => none

variable {name : String} {v : Json} {fields : List (String × Json)}

theorem values_of_not_mem (h : name ∉ fields.map (·.1)) : values name (.record fields) = [] := by
  have hfilter : fields.filter (·.1 = name) = [] := by
    rw [List.filter_eq_nil_iff]
    intro field hfield heq
    exact h (List.mem_map.mpr ⟨field, hfield, of_decide_eq_true heq⟩)
  rw [values, hfilter, List.map_nil]

theorem values_of_mem (hnames : (fields.map (·.1)).Nodup) (h : (name, v) ∈ fields) :
    values name (.record fields) = [v] := by
  induction fields with
  | nil => cases h
  | cons field fields ih =>
    obtain ⟨hnew, hnames⟩ := List.nodup_cons.mp hnames
    -- The first field is the one, and no other has its name, or it has another name.
    rcases List.mem_cons.mp h with rfl | hmem
    · have hrest : values name (.record fields) = [] := values_of_not_mem hnew
      rw [values] at hrest ⊢
      rw [List.filter_cons, if_pos (by simp), List.map_cons, hrest]
    · have hother : field.1 ≠ name := by
        rintro rfl
        exact hnew (List.mem_map.mpr ⟨_, hmem, rfl⟩)
      have hrest := ih hnames hmem
      rw [values] at hrest ⊢
      rw [List.filter_cons, if_neg (by simpa using hother), hrest]

/-- In a record whose fields have different names a field is found by its name. -/
theorem field?_record (hnames : (fields.map (·.1)).Nodup) (h : (name, v) ∈ fields) :
    field? name (.record fields) = some v := by
  rw [field?, values_of_mem hnames h]

end Json

section Tokens

def Span.ofJson? (v : Json) : Option Span := do
  let start ← (← v.field? "start").number?
  let stop ← (← v.field? "end").number?
  return ⟨start, stop⟩

def Token.ofJson? (v : Json) : Option Token := do
  let span ← Span.ofJson? v
  let text ← (← v.field? "text").text?
  let category ← Category.ofTag? (← (← v.field? "type").text?)
  return ⟨span, text, category⟩

def tokensOfJson? (v : Json) : Option (List Token) := do (← v.items?).mapM Token.ofJson?

def Span.FitsWords (s : Span) : Prop := s.start < UInt64.size ∧ s.stop < UInt64.size

instance (s : Span) : Decidable s.FitsWords := inferInstanceAs (Decidable (_ ∧ _))

/-- Reads tokens from a document, where no offset may be more than a word of 64 bits. -/
def readTokens? (text : String) : Option (List Token) := do
  let tokens ← tokensOfJson? (← Json.read? text)
  if ∀ t ∈ tokens, t.span.FitsWords then return tokens else none

variable {fields : List (String × Json)}

theorem Span.ofJson?_record {s : Span} (hnames : (fields.map (·.1)).Nodup)
    (h : s.fields ⊆ fields) : Span.ofJson? (.record fields) = some s := by
  have hstart : Json.field? "start" (.record fields) = some (.number s.start) :=
    Json.field?_record hnames (h List.mem_cons_self)
  have hend : Json.field? "end" (.record fields) = some (.number s.stop) :=
    Json.field?_record hnames (h (List.mem_cons_of_mem _ List.mem_cons_self))
  rw [ofJson?, hstart, hend]
  rfl

/-- A token is read back from its record. -/
theorem Token.ofJson?_toJson (t : Token) : Token.ofJson? t.toJson = some t := by
  have hnames : ["start", "end", "text", "type"].Nodup := by decide
  have hspan : Span.ofJson? t.toJson = some t.span :=
    Span.ofJson?_record hnames (List.subset_append_left _ _)
  have htext : t.toJson.field? "text" = some (.text t.text) :=
    Json.field?_record hnames (by simp)
  have htype : t.toJson.field? "type" = some (.text t.category.tag) :=
    Json.field?_record hnames (by simp)
  rw [ofJson?, hspan, htext, htype]
  simp [Json.text?, Category.ofTag?_tag]

theorem tokensOfJson?_tokensJson (tokens : List Token) :
    tokensOfJson? (tokensJson tokens) = some tokens := by
  have hread : Token.ofJson? ∘ Token.toJson = pure := funext Token.ofJson?_toJson
  rw [tokensOfJson?, tokensJson, Json.items?, Option.bind_eq_bind, Option.bind_some, List.mapM_map,
    hread, List.mapM_pure, List.map_id']
  rfl

/-- All lists of tokens are read back from their documents, but for those with an offset that is no
word. -/
theorem readTokens?_render_iff {tokens : List Token} :
    readTokens? (tokensJson tokens).render = some tokens ↔ ∀ t ∈ tokens, t.span.FitsWords := by
  rw [readTokens?, Json.read?_render, Option.bind_eq_bind, Option.bind_some,
    tokensOfJson?_tokensJson, Option.bind_eq_bind, Option.bind_some]
  simp

end Tokens

namespace SyntaxError.Kind

def all : List Kind :=
  [.expectedToken, .endOfInput, .unknownKeyword, .unexpectedToken, .expectedDeclarator,
    .undeclaredVariable, .invalidExpression]

def lexicon : Lexicon Kind where
  entries := all
  spelling := tag
  complete x := by cases x <;> decide
  distinct := by decide

def ofTag? (tag : String) : Option Kind := lexicon.ofSpelling? tag

theorem ofTag?_tag (k : Kind) : ofTag? k.tag = some k := lexicon.ofSpelling?_spelling k

end SyntaxError.Kind

/-- What a report tells about an outcome. Of a diagnostic these are the message, the kind and the
hint. -/
inductive Outcome.Account where
  | clean
  | syntaxError (message : String) (kind : SyntaxError.Kind) (hint? : Option String)
      (location : Location)
  | unknown (message : String)
deriving DecidableEq

def Outcome.account : Outcome → Outcome.Account
  | .clean => .clean
  | .syntaxError f => .syntaxError f.message f.kind f.hint? f.location
  | .unknown message => .unknown message

structure Report.Account where
  name : String
  status : String
  tokens : List Token
  outcome : Outcome.Account
deriving DecidableEq

def Report.account (r : Report) (name : String) : Report.Account :=
  ⟨name, r.outcome.status, r.tokens, r.outcome.account⟩

section Reports

def Position.ofJson? (v : Json) : Option Position := do
  let line ← (← v.field? "line").number?
  let column ← (← v.field? "column").number?
  return ⟨line, column⟩

def Location.ofJson? (v : Json) : Option Location := do
  let place ← (← v.field? "at").text?
  let position ← Position.ofJson? v
  if place = "token" then return .token (← Span.ofJson? (← v.field? "span")) position
  else if place = "end_of_input" then return .endOfInput (← (← v.field? "offset").number?) position
  else none

def Outcome.Account.ofJson? (v : Json) : Option Outcome.Account := do
  let status ← (← v.field? "status").text?
  if status = "clean" then return .clean
  else
    let message ← (← v.field? "message").text?
    if status = "syntax_error" then
      let kind ← SyntaxError.Kind.ofTag? (← (← v.field? "kind").text?)
      let hint? ← v.optionalText? "hint"
      let location ← Location.ofJson? (← v.field? "location")
      return .syntaxError message kind hint? location
    else if status = "unknown" then return .unknown message
    else none

def Report.Account.ofJson? (v : Json) : Option Report.Account := do
  let name ← (← v.field? "file").text?
  let status ← (← v.field? "message").text?
  let tokens ← tokensOfJson? (← v.field? "tokens")
  let outcome ← Outcome.Account.ofJson? (← v.field? "outcome")
  return ⟨name, status, tokens, outcome⟩

def Report.Account.read? (text : String) : Option Report.Account := do
  Report.Account.ofJson? (← Json.read? text)

variable {fields : List (String × Json)}

theorem Position.ofJson?_record {p : Position} (hnames : (fields.map (·.1)).Nodup)
    (h : p.fields ⊆ fields) : Position.ofJson? (.record fields) = some p := by
  have hline : Json.field? "line" (.record fields) = some (.number p.line) :=
    Json.field?_record hnames (h List.mem_cons_self)
  have hcolumn : Json.field? "column" (.record fields) = some (.number p.column) :=
    Json.field?_record hnames (h (List.mem_cons_of_mem _ List.mem_cons_self))
  rw [ofJson?, hline, hcolumn]
  rfl

theorem Location.ofJson?_toJson (l : Location) : Location.ofJson? l.toJson = some l := by
  cases l with
  | token span p =>
    have hnames : ["at", "span", "line", "column"].Nodup := by decide
    have hat : (token span p).toJson.field? "at" = some (.text "token") :=
      Json.field?_record hnames (by simp)
    have hposition : Position.ofJson? (token span p).toJson = some p :=
      Position.ofJson?_record hnames (List.subset_append_right _ _)
    have hspan : (token span p).toJson.field? "span" = some (.record span.fields) :=
      Json.field?_record hnames (by simp)
    have hfields : Span.ofJson? (.record span.fields) = some span := by
      have hoffsets : ["start", "end"].Nodup := by decide
      exact Span.ofJson?_record hoffsets (List.Subset.refl _)
    rw [ofJson?, hat, hposition, hspan]
    simp [Json.text?, hfields]
  | endOfInput offset p =>
    have hnames : ["at", "offset", "line", "column"].Nodup := by decide
    have hat : (endOfInput offset p).toJson.field? "at" = some (.text "end_of_input") :=
      Json.field?_record hnames (by simp)
    have hposition : Position.ofJson? (endOfInput offset p).toJson = some p :=
      Position.ofJson?_record hnames (List.subset_append_right _ _)
    have hoffset : (endOfInput offset p).toJson.field? "offset" = some (.number offset) :=
      Json.field?_record hnames (by simp)
    rw [ofJson?, hat, hposition, hoffset]
    simp [Json.text?, Json.number?]

/-- The names of the fields of a finding differ from each other, with a hint or without. -/
theorem nodup_findingNames (f : Finding) :
    ((("status", Json.text "syntax_error") :: f.fields).map (·.1)).Nodup := by
  cases hhint : f.hint? <;> simp [Finding.fields, hhint]

theorem optionalText?_hint (f : Finding) :
    (Outcome.syntaxError f).toJson.optionalText? "hint" = some f.hint? := by
  rw [Json.optionalText?, Outcome.toJson]
  cases hhint : f.hint? with
  | none => rw [Json.values_of_not_mem (by simp [Finding.fields, hhint])]
  | some hint =>
    have hmem : ("hint", .text hint) ∈ ("status", Json.text "syntax_error") :: f.fields := by
      simp [Finding.fields, hhint]
    rw [Json.values_of_mem (nodup_findingNames f) hmem]
    rfl

theorem Outcome.Account.ofJson?_toJson (o : Outcome) :
    Outcome.Account.ofJson? o.toJson = some o.account := by
  cases o with
  | clean => rfl
  | syntaxError f =>
    have hnames := nodup_findingNames f
    have hstatus : (Outcome.syntaxError f).toJson.field? "status" = some (.text "syntax_error") :=
      Json.field?_record hnames List.mem_cons_self
    have hmessage : (Outcome.syntaxError f).toJson.field? "message" = some (.text f.message) :=
      Json.field?_record hnames (by simp [Finding.fields])
    have hkind : (Outcome.syntaxError f).toJson.field? "kind" = some (.text f.kind.tag) :=
      Json.field?_record hnames (by simp [Finding.fields])
    have hlocation : (Outcome.syntaxError f).toJson.field? "location" = some f.location.toJson :=
      Json.field?_record hnames (by simp [Finding.fields])
    rw [ofJson?, hstatus, hmessage, hkind, hlocation, optionalText?_hint]
    simp [Json.text?, SyntaxError.Kind.ofTag?_tag, Location.ofJson?_toJson, account]
  | unknown message => rfl

/-- The record of a report has the status as its message. -/
theorem Report.field?_message (r : Report) (name : String) :
    (r.toJson name).field? "message" = some (.text r.outcome.status) := by
  have hnames : ["file", "message", "tokens", "outcome"].Nodup := by decide
  exact Json.field?_record hnames (by simp)

/-- All that a report tells is read back from its record. -/
theorem Report.Account.ofJson?_toJson (r : Report) (name : String) :
    Report.Account.ofJson? (r.toJson name) = some (r.account name) := by
  have hnames : ["file", "message", "tokens", "outcome"].Nodup := by decide
  have hfile : (r.toJson name).field? "file" = some (.text name) :=
    Json.field?_record hnames (by simp)
  have htokens : (r.toJson name).field? "tokens" = some (tokensJson r.tokens) :=
    Json.field?_record hnames (by simp)
  have houtcome : (r.toJson name).field? "outcome" = some r.outcome.toJson :=
    Json.field?_record hnames (by simp)
  rw [ofJson?, hfile, r.field?_message, htokens, houtcome]
  simp [Json.text?, tokensOfJson?_tokensJson, Outcome.Account.ofJson?_toJson, Report.account]

/-- The document of a report is read as what the report says. -/
theorem Report.Account.read?_render (r : Report) (name : String) :
    Report.Account.read? (r.toJson name).render = some (r.account name) := by
  rw [read?, Json.read?_render]
  exact Report.Account.ofJson?_toJson r name

/-- Of two texts with the same tokens, that the reports tell the same about the outcomes means that
the outcomes are the same: it is one error, and what is told has its place. -/
theorem checkTokens_eq_of_account {source source' : String} {tokens : List Token}
    (h : (checkTokens source tokens).account = (checkTokens source' tokens).account) :
    checkTokens source tokens = checkTokens source' tokens := by
  rw [checkTokens, checkTokens] at h ⊢
  cases herror : (parse tokens).error? with
  | none => rfl
  | some e =>
    rw [herror] at h
    -- One list of tokens has one error, so only the places can differ.
    have hlocation : Location.ofError source e = Location.ofError source' e :=
      (Outcome.Account.syntaxError.inj h).2.2.2
    simp only [Finding.ofDiagnostic, Diagnostic.ofError, hlocation]

/-- The tokens of a check tell all the rest. -/
theorem check_eq_of_account {source source' name name' : String}
    (h : (check source).account name = (check source').account name') :
    check source = check source' := by
  obtain ⟨-, -, htokens, htold⟩ := Report.Account.mk.inj h
  have houtcome : (check source).outcome = (check source').outcome := by
    rw [outcome_check, outcome_check, htokens] at htold ⊢
    exact checkTokens_eq_of_account htold
  calc
    check source = ⟨(check source).tokens, (check source).outcome⟩ := rfl
    _ = check source' := by rw [htokens, houtcome]

end Reports

/-- Printed documents lose nothing. All tokens are read back whose offsets are words, and from a
report the name, the status, the tokens and what it tells about the outcome. Reports of checks that
differ, or have different names, are printed as different documents. -/
theorem report_readable :
    (∀ tokens, readTokens? (tokensJson tokens).render = some tokens ↔
      ∀ t ∈ tokens, t.span.FitsWords) ∧
    (∀ (r : Report) (name : String),
      Report.Account.read? (r.toJson name).render =
        some ⟨name, r.outcome.status, r.tokens, r.outcome.account⟩) ∧
    ∀ source source' name name' : String,
      ((check source).toJson name).render = ((check source').toJson name').render ↔
        name = name' ∧ check source = check source' := by
  refine ⟨fun _ => readTokens?_render_iff, Report.Account.read?_render,
    fun source source' name name' => ⟨fun h => ?_, fun ⟨hname, hreport⟩ => ?_⟩⟩
  · -- Equal texts are read back to equal accounts, and an account tells the report.
    have haccount : (check source).account name = (check source').account name' := by
      apply Option.some.inj
      rw [← Report.Account.read?_render, h, Report.Account.read?_render]
    exact ⟨congrArg Report.Account.name haccount, check_eq_of_account haccount⟩
  · rw [hname, hreport]

end Gloss
