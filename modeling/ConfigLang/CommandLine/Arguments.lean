/-!
# Command-line arguments

The commands of the program and their arguments:

* `check [PATH] [-s|--source TEXT] [-p|--pretty] [--syntax-only]`
* `tokens [PATH] [-s|--source TEXT]`
* `ast [PATH] [-s|--source TEXT]`
* `-V` or `--version`

The document is the text after `--source`, the file at the path, or the standard input. A path and a
text together, and any argument given twice, are refused. One-letter options may stand together
behind one dash, and the text may follow `-s` without a gap or after `=`. After `--` an argument is
a path whatever it begins with.

* `Command` - what the program is asked to do.
* `Command.ofArguments` - the command of a list of arguments, unless it is refused.
-/

namespace ConfigLang.CommandLine

/-! ### Commands -/

/-- Where a document is. -/
inductive Source where
  | inline (text : String)
  | file (path : String)
  | standardInput
deriving DecidableEq, Repr

/-- What is to be shown of a document. -/
inductive Action where
  /-- Its value as JSON, or whether it has a syntax tree. -/
  | check (pretty : Bool) (syntaxOnly : Bool)
  | tokens
  | tree
deriving DecidableEq, Repr

/-- What the program is asked to do. -/
inductive Command where
  | version
  | process (action : Action) (source : Source)
deriving DecidableEq, Repr

/-! ### Options -/

/-- The arguments of a command that have been read. -/
structure Given where
  path : Option String
  text : Option String
  pretty : Bool
  syntaxOnly : Bool
deriving DecidableEq, Repr

/-- No argument has been read. -/
def Given.none : Given := ⟨.none, .none, false, false⟩

/-- The commands that take a document. -/
inductive Verb where
  | check
  | tokens
  | tree
deriving DecidableEq, Repr

namespace Given

/-- The inline text, unless there is one already. -/
def setText (g : Given) (text : List Char) : Option Given :=
  if g.text.isSome then .none else some { g with text := some (String.ofList text) }

/-- The path, unless there is one already or it is empty. -/
def setPath (g : Given) (path : String) : Option Given :=
  if g.path.isSome ∨ path = "" then .none else some { g with path := some path }

/-- The option `--pretty` of the command `check`, unless given already. -/
def setPretty (g : Given) (verb : Verb) : Option Given :=
  if verb = .check ∧ g.pretty = false then some { g with pretty := true } else .none

/-- The option `--syntax-only` of the command `check`, unless given already. -/
def setSyntaxOnly (g : Given) (verb : Verb) : Option Given :=
  if verb = .check ∧ g.syntaxOnly = false then some { g with syntaxOnly := true } else .none

/-- Where the document is; a path and a text exclude each other. -/
def source (g : Given) : Option Source :=
  match g.path, g.text with
  | some _, some _ => .none
  | some path, .none => some (.file path)
  | .none, some text => some (.inline text)
  | .none, .none => some .standardInput

/-- What is to be shown. -/
def action (g : Given) : Verb → Action
  | .check => .check g.pretty g.syntaxOnly
  | .tokens => .tokens
  | .tree => .tree

end Given

/-! ### Reading the arguments -/

/-- The arguments read so far, and whether the next one is the text of the document. -/
structure Progress where
  given : Given
  wantsText : Bool

/-- Reads one-letter options after a dash. -/
def shortOptions (verb : Verb) (g : Given) : List Char → Option Progress
  | [] => some ⟨g, false⟩
  | 'p' :: rest => do
    let g ← g.setPretty verb
    shortOptions verb g rest
  | ['s'] => some ⟨g, true⟩
  | 's' :: '=' :: text => do
    let g ← g.setText text
    some ⟨g, false⟩
  | 's' :: text => do
    let g ← g.setText text
    some ⟨g, false⟩
  | _ => none

/-- Reads an option after two dashes; its value follows a `=`. -/
def longOption (verb : Verb) (g : Given) (option : List Char) : Option Progress :=
  let name := String.ofList (option.takeWhile (· != '='))
  match name, option.dropWhile (· != '=') with
  | "pretty", [] => (g.setPretty verb).map (⟨·, false⟩)
  | "syntax-only", [] => (g.setSyntaxOnly verb).map (⟨·, false⟩)
  | "source", [] => some ⟨g, true⟩
  | "source", _ :: text => (g.setText text).map (⟨·, false⟩)
  | _, _ => none

/-- Reads one argument that is not the value of an option. -/
def argument (verb : Verb) (g : Given) (text : String) : Option Progress :=
  match text.toList with
  | '-' :: '-' :: option => longOption verb g option
  | '-' :: c :: options => shortOptions verb g (c :: options)
  | _ => (g.setPath text).map (⟨·, false⟩)

/-- Reads the arguments after `--`. -/
def paths (g : Given) : List String → Option Given
  | [] => some g
  | path :: rest => do
    let g ← g.setPath path
    paths g rest

/-- An argument that begins like an option; a dash alone does not. -/
def isOption (text : String) : Bool :=
  match text.toList with
  | '-' :: _ :: _ => true
  | _ => false

/-- Reads the arguments of a command. -/
def arguments (verb : Verb) : Progress → List String → Option Given
  | ⟨g, false⟩, [] => some g
  | ⟨_, true⟩, [] => none
  | ⟨g, true⟩, text :: rest =>
    if isOption text then none
    else do
      let g ← g.setText text.toList
      arguments verb ⟨g, false⟩ rest
  | ⟨g, false⟩, text :: rest =>
    if text = "--" then paths g rest
    else do
      let progress ← argument verb g text
      arguments verb progress rest

/-- The command that takes a document and is called by this name. -/
def Verb.ofName : String → Option Verb
  | "check" => some .check
  | "tokens" => some .tokens
  | "ast" => some .tree
  | _ => none

/-- The command of a list of arguments. -/
def Command.ofArguments : List String → Option Command
  | [] => none
  | name :: rest =>
    if name = "--version" ∨ ['-', 'V'].isPrefixOf name.toList then some .version
    else do
      let verb ← Verb.ofName name
      let given ← arguments verb ⟨.none, false⟩ rest
      let source ← given.source
      some (.process (given.action verb) source)

end ConfigLang.CommandLine
