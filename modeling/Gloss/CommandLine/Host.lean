namespace Gloss.CommandLine

inductive Fault where
  | notFound
  | notDirectory
  | isDirectory
  | nameTooLong
  | other (code : Nat) (text : String)
deriving DecidableEq

def Fault.describe : Fault → String
  | notFound => "No such file or directory (os error 2)"
  | notDirectory => "Not a directory (os error 20)"
  | isDirectory => "Is a directory (os error 21)"
  | nameTooLong => "File name too long (os error 36)"
  | other code text => s!"{text} (os error {code})"

inductive Entry where
  | file (content : ByteArray)
  /-- Something that is there but cannot be read. -/
  | unreadable (why : Fault)

structure Host where
  standardInput : ByteArray
  find : String → Except Fault Entry
  /-- Whether standard output is a terminal. -/
  terminal : Bool

end Gloss.CommandLine
