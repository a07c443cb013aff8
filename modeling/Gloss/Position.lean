namespace Gloss

/-- A line and a column, both counted from one. -/
structure Position where
  line : Nat
  column : Nat
deriving DecidableEq

namespace Position

/-- Goes on through a text by a number of bytes. On the current line, which has number `line`,
`characters` characters and `bytes` bytes have been passed. An offset beyond the end stands for the
end; in the middle of a character the column counts bytes. -/
def walk (line characters bytes left : Nat) : List Char → Position
  | [] => ⟨line, characters + 1⟩
  | c :: text =>
    if left = 0 then ⟨line, characters + 1⟩
    else if left < c.utf8Size then ⟨line, bytes + left + 1⟩
    else if c = '\n' then walk (line + 1) 0 0 (left - 1) text
    else walk line (characters + 1) (bytes + c.utf8Size) (left - c.utf8Size) text

def ofOffset (source : String) (offset : Nat) : Position := walk 1 0 0 offset source.toList

end Position
end Gloss
