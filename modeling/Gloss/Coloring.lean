import Gloss.Segment

namespace Gloss

/-- The escape sequence that switches a style on, or nothing. -/
structure Style where
  opening : String
deriving DecidableEq

namespace Style

def reset : String := "\x1b[0m"

def plain : Style := ⟨""⟩

def boldRedUnderline : Style := ⟨"\x1b[1;4;31m"⟩

def boldMagenta : Style := ⟨"\x1b[1;35m"⟩

def yellow : Style := ⟨"\x1b[33m"⟩

def green : Style := ⟨"\x1b[32m"⟩

def cyan : Style := ⟨"\x1b[36m"⟩

def isPlain (s : Style) : Bool := s.opening.isEmpty

def paint (s : Style) (out text : String) : String :=
  if s.isPlain then out ++ text else out ++ s.opening ++ text ++ reset

end Style

structure Theme where
  category : Category → Style
  error : Style

namespace Theme

def standard : Theme where
  category
    | .keyword => .boldMagenta
    | .operator => .yellow
    | .literal => .green
    | .bracket => .cyan
    | .identifier => .plain
  error := .boldRedUnderline

def plain : Theme := ⟨fun _ => .plain, .plain⟩

def withCategory (theme : Theme) (c : Category) (s : Style) : Theme :=
  { theme with category := fun d => if d = c then s else theme.category d }

end Theme

inductive ColorMode where
  /-- Only to a terminal. -/
  | auto
  | always
  | never
deriving DecidableEq

namespace ColorMode

def all : List ColorMode := [.auto, .always, .never]

def name : ColorMode → String
  | auto => "auto"
  | always => "always"
  | never => "never"

def lexicon : Lexicon ColorMode where
  entries := all
  spelling := name
  complete x := by cases x <;> decide
  distinct := by decide

def ofName? (name : String) : Option ColorMode := lexicon.ofSpelling? name

def usesColor (mode : ColorMode) (terminal : Bool) : Bool :=
  match mode with
  | auto => terminal
  | always => true
  | never => false

end ColorMode

structure Coloring where
  mode : ColorMode
  theme : Theme

namespace Coloring

def standard : Coloring := ⟨.auto, .standard⟩

end Coloring

def Segment.paint (theme : Theme) (out : String) : Segment → String
  | gap text => out ++ text
  | token t => (theme.category t.category).paint out t.text
  | error t => theme.error.paint out t.text

def render (coloring : Coloring) (terminal : Bool) (source : String) (tokens : List Token)
    (errorSpan : Option Span) : String :=
  if coloring.mode.usesColor terminal then
    (segments source tokens errorSpan).foldl (Segment.paint coloring.theme) ""
  else source

end Gloss
