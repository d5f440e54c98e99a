import ConfigLang.CommandLine.Arguments
import ConfigLang.Document

/-!
# What the program reports

The answer of the program to a command: its exit code and what it prints.

* `ReadError` - why a document cannot be read.
* `decodeDocument` - the text of a document, from its bytes.
* `respond` - the report on a document.
* `variablesOf` - the variables that a document may ask for.
-/

namespace ConfigLang.CommandLine

/-! ### Reading -/

/-- Why a document cannot be read. -/
inductive ReadError where
  /-- The system refuses, with an error number of its own. -/
  | system (description : String) (code : Nat)
  /-- The bytes are no UTF-8 text. -/
  | notText
deriving DecidableEq, Repr

namespace ReadError

/-- There is nothing at the path. -/
def notFound : ReadError := .system "No such file or directory" 2

/-- The file may not be read. -/
def permissionDenied : ReadError := .system "Permission denied" 13

/-- The path goes on below a file. -/
def notADirectory : ReadError := .system "Not a directory" 20

/-- There is a directory at the path. -/
def isADirectory : ReadError := .system "Is a directory" 21

/-- A part of the path is too long to be a name. -/
def nameTooLong : ReadError := .system "File name too long" 36

/-- The error number of the system. -/
def code? : ReadError → Option Nat
  | system _ code => some code
  | notText => none

/-- What is wrong. -/
def message : ReadError → String
  | system description code => description ++ " (os error " ++ Decimal.writeInt code ++ ")"
  | notText => "stream did not contain valid UTF-8"

end ReadError

/-- The text of a document, from its bytes. -/
def decodeDocument (bytes : ByteArray) : Except ReadError String :=
  match String.fromUTF8? bytes with
  | some text => .ok text
  | none => .error .notText

/-- The variables that a document may ask for. -/
def variablesOf (source : String) : List String :=
  (Cursor.start source).run.tokens.filterMap fun
    | .input name => variableName name
    | _ => none

/-! ### Reports -/

/-- What the program answers. -/
structure Report where
  exitCode : Nat
  output : String
  errors : String
deriving DecidableEq, Repr

/-- The report of a command that has been carried out. -/
def Report.success (output : String) : Report := ⟨0, output, ""⟩

/-- The report of a command that could not be carried out. -/
def Report.failure (message : String) : Report := ⟨1, "", message ++ "\n"⟩

/-- The report on arguments that are refused. -/
def Report.usage : Report :=
  ⟨2, "", "usage: corn check|tokens|ast [PATH] [--source TEXT]\n"⟩

/-- The report on the version. -/
def Report.version : Report := .success "corn 0.1.0\n"

/-- What an action prints for a document. -/
def Action.output (env : Environment) (source : String) : Action → Except DocumentError String
  | .check pretty syntaxOnly => do
    let verdict ← ConfigLang.check syntaxOnly env source
    .ok (verdict.text pretty ++ "\n")
  | .tokens => do
    let tokens ← readTokens source
    .ok (String.join (tokens.map fun t => t.display ++ "\n"))
  | .tree => do
    let tree ← syntaxTree source
    .ok (tree.display ++ "\n")

/-- The report on a document that has been read, or could not be read. -/
def respond (action : Action) (env : Environment) : Except ReadError String → Report
  | .error e => .failure ("IO error: " ++ e.message)
  | .ok source =>
    match action.output env source with
    | .ok output => .success output
    | .error e => .failure e.message

end ConfigLang.CommandLine
