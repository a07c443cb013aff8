import Gloss.CommandLine.Host

namespace Gloss.CommandLine

structure Failure where
  message : String
  exitCode : Int := 1
deriving DecidableEq

def maxSourceBytes : Nat := 10 * 1024 * 1024

def standardInputPath : String := "-"

def displayName (path : String) : String :=
  if path = standardInputPath then "<stdin>" else path

def notText : String := "stream did not contain valid UTF-8"

/-- Reads standard input, of which one byte more than the greatest size is taken. -/
def readStandardInput (input : ByteArray) : Except Failure String :=
  -- The bytes are decoded before they are counted, so the limit may cut a character.
  match String.fromUTF8? (input.extract 0 (maxSourceBytes + 1)) with
  | none => .error ⟨"Error reading stdin: " ++ notText, 1⟩
  | some source =>
    if maxSourceBytes < source.utf8ByteSize then
      .error ⟨s!"Input on stdin is too large (max {maxSourceBytes} bytes)", 1⟩
    else .ok source

def readEntry (path : String) : Entry → Except Failure String
  | .unreadable why => .error ⟨s!"Error reading file '{path}': " ++ why.describe, 1⟩
  | .file content =>
    if maxSourceBytes < content.size then
      .error ⟨s!"Source file '{path}' is too large "
        ++ s!"({content.size} bytes, max {maxSourceBytes} bytes)", 1⟩
    else
      match String.fromUTF8? content with
      | none => .error ⟨s!"Error reading file '{path}': " ++ notText, 1⟩
      | some source => .ok source

def readSource (host : Host) (path : String) : Except Failure String :=
  if path = standardInputPath then readStandardInput host.standardInput
  else
    match host.find path with
    | .error why => .error ⟨s!"Cannot access file '{path}': " ++ why.describe, 1⟩
    | .ok entry => readEntry path entry

end Gloss.CommandLine
