/-!
# The environment

An input whose name starts with `$env_` is looked up in the environment first: `$env_HOME` is the
variable `HOME` if that is set to a non-empty text.

* `Environment` - the variables.
* `variableName` - the variable that an input's name asks for.
* `Environment.override` - the text that stands in for an input.
-/

namespace ConfigLang

/-- The variables that are set. -/
abbrev Environment := String → Option String

/-- What the names of such inputs start with. -/
def variableMark : List Char := ['$', 'e', 'n', 'v', '_']

/-- The variable that an input's name asks for; at least one character follows the mark. -/
def variableName (input : String) : Option String :=
  match variableMark.isPrefixOf? input.toList with
  | some (c :: rest) => some (String.ofList (c :: rest))
  | _ => none

namespace Environment

/-- No variable is set. -/
def empty : Environment := fun _ => none

/-- The environment of a list of variables with their texts; the last text of a variable counts. -/
def ofList (texts : List (String × String)) : Environment :=
  fun name => (texts.reverse.find? (·.1 == name)).map (·.2)

/-- The text that stands in for an input: that of its variable, unless empty. -/
def override (env : Environment) (input : String) : Option String := do
  let name ← variableName input
  let text ← env name
  if text = "" then none else some text

end Environment

end ConfigLang
