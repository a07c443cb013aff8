namespace Gloss

inductive Json where
  | number (n : Nat)
  | text (s : String)
  | list (items : List Json)
  | record (fields : List (String × Json))

namespace Json

def hexByte (n : Nat) : List Char := [Nat.digitChar (n / 16 % 16), Nat.digitChar (n % 16)]

def encodeChar (c : Char) : List Char :=
  match c with
  | '"' => ['\\', '"']
  | '\\' => ['\\', '\\']
  | '\x08' => ['\\', 'b']
  | '\x0c' => ['\\', 'f']
  | '\n' => ['\\', 'n']
  | '\r' => ['\\', 'r']
  | '\t' => ['\\', 't']
  | c => if c.toNat < 0x20 then ['\\', 'u', '0', '0'] ++ hexByte c.toNat else [c]

def encodeText (s : String) : String :=
  String.ofList (['"'] ++ s.toList.flatMap encodeChar ++ ['"'])

def newLine (depth : Nat) : String := String.ofList ('\n' :: List.replicate (2 * depth) ' ')

mutual

def write (depth : Nat) (out : String) : Json → String
  | number n => out ++ toString n
  | text s => out ++ encodeText s
  | list [] => out ++ "[]"
  | list (item :: items) =>
    writeItems depth (write (depth + 1) (out ++ "[" ++ newLine (depth + 1)) item) items
  | record [] => out ++ "\x7b\x7d"
  | record ((name, value) :: fields) =>
    writeFields depth
      (write (depth + 1) (out ++ "\x7b" ++ newLine (depth + 1) ++ encodeText name ++ ": ") value)
      fields

def writeItems (depth : Nat) (out : String) : List Json → String
  | [] => out ++ newLine depth ++ "]"
  | item :: items =>
    writeItems depth (write (depth + 1) (out ++ "," ++ newLine (depth + 1)) item) items

def writeFields (depth : Nat) (out : String) : List (String × Json) → String
  | [] => out ++ newLine depth ++ "\x7d"
  | (name, value) :: fields =>
    writeFields depth
      (write (depth + 1) (out ++ "," ++ newLine (depth + 1) ++ encodeText name ++ ": ") value)
      fields

end

def render (value : Json) : String := value.write 0 ""

end Json
end Gloss
