import ConfigLang.CommandLine.Report

/-!
# The program

Reads the document that the arguments name, looks up the variables that it asks for, and prints the
report.
-/

namespace ConfigLang.CommandLine

/-- The refusal with the given error number, which may come negated. -/
def ReadError.ofCode (details : String) (code : UInt32) : ReadError :=
  let number := (min code (0 - code)).toNat
  let usual := [notFound, permissionDenied, notADirectory, isADirectory, nameTooLong]
  (usual.find? fun e => e.code? == some number).getD (.system details number)

/-- Why the system refuses. -/
def ReadError.ofSystem : IO.Error → ReadError
  | .noFileOrDirectory _ code details => .ofCode details code
  | .permissionDenied _ code details => .ofCode details code
  | .inappropriateType _ code details => .ofCode details code
  | .illegalOperation code details => .ofCode details code
  | .invalidArgument _ code details => .ofCode details code
  | .otherError code details => .ofCode details code
  | e => .system (toString e) 5

/-- All bytes up to the end of a stream. -/
partial def readAll (stream : IO.FS.Stream) (bytes : ByteArray) : IO ByteArray := do
  let chunk ← stream.read 65536
  if chunk.isEmpty then return bytes else readAll stream (bytes ++ chunk)

/-- The bytes of the document that a command names. -/
def readBytes : Source → IO ByteArray
  | .inline text => return text.toUTF8
  | .file path => IO.FS.readBinFile path
  | .standardInput => do readAll (← IO.getStdin) ByteArray.empty

/-- The document that a command names. -/
def readDocument (source : Source) : IO (Except ReadError String) := do
  try
    return decodeDocument (← readBytes source)
  catch e =>
    return .error (.ofSystem e)

/-- The variables that a document may ask for, as far as they are set. -/
def environmentOf (source : String) : IO Environment := do
  let mut texts := []
  for name in variablesOf source do
    if let some text ← IO.getEnv name then
      texts := (name, text) :: texts
  return .ofList texts

/-- The report on a list of arguments. -/
def report (args : List String) : IO Report := do
  match Command.ofArguments args with
  | none => return .usage
  | some .version => return .version
  | some (.process action source) =>
    let document ← readDocument source
    let env ← match document with
      | .ok text => environmentOf text
      | .error _ => pure .empty
    return respond action env document

end ConfigLang.CommandLine

/-- Prints the report on the arguments. -/
def main (args : List String) : IO UInt32 := do
  let report ← ConfigLang.CommandLine.report args
  (← IO.getStdout).putStr report.output
  (← IO.getStderr).putStr report.errors
  return report.exitCode.toUInt32
