import FilterQuery.Command.Line

/-!
# The program

Reads the command line, standard input and the file that the command line names, and shows what the
command brings.
-/

open FilterQuery FilterQuery.Command

/-- The fault with a number, which may be given with its sign changed. -/
def faultOfNumber (number : UInt32) (text : String) : ReadFault :=
  .ofNumber (min number.toNat (-number).toNat) text

def faultOf : IO.Error → ReadFault
  | .otherError number text | .resourceBusy number text | .resourceVanished number text
  | .unsupportedOperation number text | .hardwareFault number text
  | .unsatisfiedConstraints number text | .illegalOperation number text
  | .protocolError number text | .timeExpired number text => faultOfNumber number text
  | .alreadyExists _ number text | .invalidArgument _ number text
  | .permissionDenied _ number text | .resourceExhausted _ number text
  | .inappropriateType _ number text | .noSuchThing _ number text => faultOfNumber number text
  | .interrupted _ number text | .noFileOrDirectory _ number text => faultOfNumber number text
  | .unexpectedEof => .other 0 "unexpected end of file"
  | .userError text => .other 0 text

def contentsOf (reading : IO ByteArray) : IO Contents := do
  try
    return .ok (← reading)
  catch e =>
    return .error (faultOf e)

def carryOut (invocation : Invocation) : IO Outcome := do
  let stdin ← IO.getStdin
  if invocation.readsInput && (← stdin.isTty) then
    return .ofResult (.error .noInput)
  let input ← contentsOf <|
    if invocation.readsInput then stdin.readBinToEnd else pure ByteArray.empty
  let file ← match invocation.path? with
    | some path => contentsOf (IO.FS.readBinFile path)
    | none => pure (.error .notFound)
  return invocation.run input fun _ => file

def main (args : List String) : IO UInt32 := do
  let outcome ← match Invocation.ofArguments args with
    | some invocation => carryOut invocation
    | none => pure .misuse
  IO.print outcome.output
  IO.eprint outcome.errors
  return outcome.exitCode.toUInt32
