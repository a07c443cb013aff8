import Gloss.Unicode.ExtendingMark
import Gloss.Unicode.Unprintable

namespace Gloss.Quoted

def hexDigits (n : Nat) : List Char := Nat.toDigits 16 n

def isVisible (c : Char) : Bool :=
  !Unicode.unprintable.contains c && !Unicode.extendingMarks.contains c

def encodeChar (c : Char) : List Char :=
  match c with
  | '\x00' => ['\\', '0']
  | '\t' => ['\\', 't']
  | '\n' => ['\\', 'n']
  | '\r' => ['\\', 'r']
  | '"' => ['\\', '"']
  | '\\' => ['\\', '\\']
  | c => if isVisible c then [c] else ['\\', 'u', '\x7b'] ++ hexDigits c.toNat ++ ['\x7d']

def encode (s : String) : String :=
  String.ofList (['"'] ++ s.toList.flatMap encodeChar ++ ['"'])

end Gloss.Quoted
