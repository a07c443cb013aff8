import Gloss.Text
import Gloss.Token

namespace Gloss

inductive Segment where
  /-- Text outside all tokens. -/
  | gap (text : String)
  | token (t : Token)
  /-- The token that an error points at. -/
  | error (t : Token)
deriving DecidableEq

namespace Segment

def text : Segment → String
  | gap text => text
  | token t | error t => t.text

/-- The gap before a token and the text behind it, for a text that begins at `offset`; none if the
token does not stand in it. -/
def place? (offset : Nat) (text : List Char) (t : Token) : Option (List Char × List Char) := do
  guard (offset ≤ t.span.start && t.span.start ≤ t.span.stop)
  let (before, rest) ← cutAfter? [] (t.span.start - offset) text
  let (lexeme, rest) ← cutAfter? [] (t.span.stop - t.span.start) rest
  guard (String.ofList lexeme = t.text)
  return (before, rest)

def ofGap (text : List Char) : List Segment :=
  if text.isEmpty then [] else [gap (String.ofList text)]

def ofToken (errorSpan : Option Span) (t : Token) : Segment :=
  if errorSpan = some t.span then error t else token t

def cut (errorSpan : Option Span) (done : Array Segment) (offset : Nat) (text : List Char) :
    List Token → Array Segment
  | [] => done.append (ofGap text).toArray
  | t :: tokens =>
    match place? offset text t with
    | none => cut errorSpan done offset text tokens
    | some (before, rest) =>
      cut errorSpan ((done.append (ofGap before).toArray).push (ofToken errorSpan t)) t.span.stop
        rest tokens

/-- Cutting only adds to what was cut before. -/
theorem toList_cut (errorSpan : Option Span) (done : Array Segment) (offset : Nat)
    (text : List Char) (tokens : List Token) :
    (cut errorSpan done offset text tokens).toList
      = done.toList ++ (cut errorSpan #[] offset text tokens).toList := by
  induction tokens generalizing done offset text with
  | nil => simp [cut]
  | cons t tokens ih =>
    rw [cut, cut]
    split
    · exact ih ..
    · rw [ih ((done.append _).push _), ih ((Array.append #[] _).push _)]; simp

end Segment

def segments (source : String) (tokens : List Token) (errorSpan : Option Span) : List Segment :=
  (Segment.cut errorSpan #[] 0 source.toList tokens).toList

end Gloss
