import Gloss.Coloring
import Gloss.CommandLine.Similarity

/-! Options, flags, a file and a command may come in any order. The first mistake from the left is
reported, save that a value is judged only when the argument after it is read, and that what a
command is given is judged before what stands before the command. -/
namespace Gloss.CommandLine

inductive Command where
  | check
  | tokens
deriving DecidableEq

inductive CommandWord where
  | run (c : Command)
  | help
deriving DecidableEq

def CommandWord.name : CommandWord → String
  | run .check => "check"
  | run .tokens => "tokens"
  | help => "help"

def CommandWord.all : List CommandWord := [.run .check, .run .tokens, .help]

def CommandWord.lexicon : Lexicon CommandWord where
  entries := all
  spelling := name
  complete := by rintro ((_ | _) | _) <;> decide
  distinct := by decide

def CommandWord.ofName? (name : String) : Option CommandWord := lexicon.ofSpelling? name

inductive Refusal where
  | unknownArgument
  /-- A value is missing, empty or not one of the possible ones. -/
  | invalidValue
  | missingArgument
  /-- Two arguments exclude each other, or one is given twice. -/
  | conflict
  /-- A flag is given a value. -/
  | tooManyValues
  | unknownCommand
deriving DecidableEq

inductive Stop where
  | refused (why : Refusal)
  /-- Help is asked for, on the program or on a command. -/
  | help (topic : Option CommandWord)
  | version
deriving DecidableEq

inductive Slot where
  | file
  | lex
  | json
  | color
deriving DecidableEq

def Slot.accepts (s : Slot) (value : String) : Bool :=
  match s with
  | file | lex => !value.isEmpty
  | color => (ColorMode.ofName? value).isSome
  | json => true

inductive Switch where
  | flag (s : Slot)
  | valued (s : Slot)
  | help
  | version

inductive Scope where
  | top
  | inside (c : Command)

namespace Scope

def long? : Scope → String → Option Switch
  | _, "help" => some .help
  | top, "version" => some .version
  | top, "lex" => some (.valued .lex)
  | inside _, "json" => some (.flag .json)
  | inside .check, "color" => some (.valued .color)
  | _, _ => none

def short? : Scope → Char → Option Switch
  | _, 'h' => some .help
  | top, 'V' => some .version
  | _, _ => none

def command? : Scope → String → Option CommandWord
  | top, word => CommandWord.ofName? word
  | inside _, _ => none

def topic : Scope → Option CommandWord
  | top => none
  | inside c => some (.run c)

end Scope

structure Reading where
  /-- What is given, with its value. -/
  given : List (Slot × String) := []
  /-- What comes next, with its value unless that is still awaited. -/
  pending : Option (Slot × Option String) := none
  /-- Whether a file has been read. -/
  filled : Bool := false
  /-- Whether only files may follow. -/
  onlyFiles : Bool := false

namespace Reading

def value? (r : Reading) (s : Slot) : Option String :=
  (r.given.find? (·.1 = s)).map (·.2)

def give (r : Reading) (s : Slot) (value : String) : Except Stop Reading :=
  if (r.value? s).isSome then throw (.refused .conflict)
  else if !s.accepts value then throw (.refused .invalidValue)
  else return { r with given := (s, value) :: r.given }

/-- Judges the value that was read last. -/
def settle (r : Reading) : Except Stop Reading :=
  match r.pending with
  | none => return r
  | some (_, none) => throw (.refused .invalidValue)
  | some (s, some value) => { r with pending := none }.give s value

def switch (scope : Scope) (r : Reading) (attached : Option String) :
    Switch → Except Stop Reading
  | .valued s => do
    let r ← r.settle
    match attached with
    | some value => r.give s value
    | none => return { r with pending := some (s, none) }
  | .flag s =>
    if attached.isSome then throw (.refused .tooManyValues) else do (← r.settle).give s ""
  | .help =>
    if attached.isSome then throw (.refused .tooManyValues)
    else do
      let _ ← r.settle
      throw (.help scope.topic)
  | .version =>
    if attached.isSome then throw (.refused .tooManyValues)
    else do
      let _ ← r.settle
      throw .version

def surplus (scope : Scope) (r : Reading) (word : String) : Refusal :=
  match scope with
  | .inside _ => .unknownArgument
  | .top =>
    if r.onlyFiles && (CommandWord.ofName? word).isSome then .unknownArgument
    else if CommandWord.all.any (Similarity.isAlike word ·.name) then .unknownCommand
    else .unknownArgument

def file (scope : Scope) (r : Reading) (word : String) : Except Stop Reading :=
  if r.filled then throw (.refused (r.surplus scope word))
  else do return { ← r.settle with pending := some (.file, some word), filled := true }

def cluster (scope : Scope) (r : Reading) : List Char → Except Stop Reading
  | [] => return r
  | c :: more => do
    match scope.short? c with
    | none => throw (.refused .unknownArgument)
    | some s => (← r.switch scope none s).cluster scope more

def word (scope : Scope) (r : Reading) (text : String) : Except Stop Reading :=
  match r.onlyFiles, text.toList with
  | false, ['-', '-'] => return { r with onlyFiles := true }
  | false, '-' :: '-' :: rest =>
    let name := rest.takeWhile (· ≠ '=')
    match scope.long? (String.ofList name) with
    | none => throw (.refused .unknownArgument)
    | some s => r.switch scope ((rest.drop name.length).tail?.map String.ofList) s
  | false, '-' :: c :: more => r.cluster scope (c :: more)
  | false, _ =>
    match r.pending with
    | some (s, none) => return { r with pending := some (s, some text) }
    | _ => r.file scope text
  | true, _ => r.file scope text

def words (scope : Scope) (r : Reading) :
    List String → Except Stop (Reading × Option (CommandWord × List String))
  | [] => return (r, none)
  | text :: rest =>
    let awaiting := r.pending.any (·.2.isNone)
    match if r.onlyFiles || awaiting then none else scope.command? text with
    | some c => return (r, some (c, rest))
    | none => do (← r.word scope text).words scope rest

end Reading

inductive Order where
  | check (file : String) (json : Bool) (color : ColorMode)
  | tokens (file : String) (json : Bool)
deriving DecidableEq

def Order.file : Order → String
  | check file _ _ => file
  | tokens file _ => file

structure Request where
  file : Option String
  lex : Option String
  order : Option Order
deriving DecidableEq

def helpTopic : List String → Stop
  | [] => .help none
  | [word] =>
    match CommandWord.ofName? word with
    | some c => .help (some c)
    | none => .refused .unknownCommand
  | _ => .refused .unknownCommand

def Order.ofArguments (c : Command) (arguments : List String) : Except Stop Order := do
  let (r, _) ← ({} : Reading).words (.inside c) arguments
  let r ← r.settle
  match r.value? .file with
  | none => throw (.refused .missingArgument)
  | some file =>
    let json := (r.value? .json).isSome
    match c with
    | .check =>
      return .check file json (((r.value? .color).bind ColorMode.ofName?).getD .auto)
    | .tokens => return .tokens file json

def Request.ofArguments (arguments : List String) : Except Stop Request := do
  let (r, command) ← ({} : Reading).words .top arguments
  let order ←
    match command with
    | none => pure none
    | some (.help, rest) => throw (helpTopic rest)
    | some (.run c, rest) => some <$> Order.ofArguments c rest
  let r ← r.settle
  if (r.value? .file).isSome && (r.value? .lex).isSome then throw (.refused .conflict)
  return ⟨r.value? .file, r.value? .lex, order⟩

end Gloss.CommandLine
