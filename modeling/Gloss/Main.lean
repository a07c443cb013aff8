import Gloss.CommandLine.Run

namespace Gloss.CommandLine

def Fault.ofCode (code : Nat) (text : String) : Fault :=
  match code with
  | 2 => .notFound
  | 20 => .notDirectory
  | 21 => .isDirectory
  | 36 => .nameTooLong
  | 13 => .other 13 "Permission denied"
  | 40 => .other 40 "Too many levels of symbolic links"
  | code => .other code text

/-- The number and the text of an error; the number is negative, modulo `2 ^ 32`, if the file could
not even be looked up. -/
def codeAndText : IO.Error → UInt32 × String
  | .alreadyExists _ code text | .invalidArgument _ code text | .permissionDenied _ code text
  | .resourceExhausted _ code text | .inappropriateType _ code text | .noSuchThing _ code text
  | .noFileOrDirectory _ code text | .interrupted _ code text => (code, text)
  | .otherError code text | .resourceBusy code text | .resourceVanished code text
  | .unsupportedOperation code text | .hardwareFault code text
  | .unsatisfiedConstraints code text | .illegalOperation code text | .protocolError code text
  | .timeExpired code text => (code, text)
  | .unexpectedEof => (5, "Input/output error")
  | .userError text => (5, text)

def openFile (path : String) : IO (Except Fault Entry) := do
  try
    return .ok (.file (← IO.FS.readBinFile path))
  catch error =>
    let (code, text) := codeAndText error
    if code < 0x80000000 then return .ok (.unreadable (.ofCode code.toNat text))
    else return .error (.ofCode (0 - code).toNat text)

partial def readInput (input : IO.FS.Stream) (wanted : Nat) (read : ByteArray) : IO ByteArray := do
  if wanted ≤ read.size then return read
  -- A stream may give less than is asked for.
  let more ← input.read (USize.ofNat (wanted - read.size))
  if more.isEmpty then return read
  readInput input wanted (read ++ more)

def hostFor (request : Request) : IO Host := do
  let terminal ← (← IO.getStdout).isTty
  match request.path? with
  | none => return ⟨ByteArray.empty, fun _ => .error .notFound, terminal⟩
  | some path =>
    if path = standardInputPath then
      let input ← readInput (← IO.getStdin) (maxSourceBytes + 1) ByteArray.empty
      return ⟨input, fun _ => .error .notFound, terminal⟩
    else
      let entry ← openFile path
      return ⟨ByteArray.empty, fun _ => entry, terminal⟩

def runHere (arguments : List String) : IO UInt32 := do
  let host ←
    match Request.ofArguments arguments with
    | .error _ => pure ⟨ByteArray.empty, fun _ => .error .notFound, false⟩
    | .ok request => hostFor request
  let result := run host arguments
  IO.print result.standardOutput
  IO.eprint result.standardError
  return UInt32.ofNat result.exitCode.toNat

end Gloss.CommandLine

def main (arguments : List String) : IO UInt32 := Gloss.CommandLine.runHere arguments
