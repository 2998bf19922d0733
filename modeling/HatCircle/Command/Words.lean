/-!
# The words of a command line

A word is an option, an operand or the mark that ends the options. Options have long
names after two hyphens; the value of an option stands behind an equals sign in the
same word or is the next word. A next word that starts with a hyphen is no value,
unless the hyphen is all there is. After two hyphens alone every word is an operand.
No option may stand twice.
-/

namespace HatCircle

inductive UsageError where
  | noCommand
  | unknownCommand (word : String)
  | unknownOption (word : String)
  | needsValue (option : String)
  | takesNoValue (option : String)
  | repeated (option : String)
  | missing (name : String)
  | unexpected (word : String)
  | invalidValue (option value : String)
deriving DecidableEq, Repr

def UsageError.message : UsageError → String
  | .noCommand => "a command is required: validate, tokens, guess, score or search"
  | .unknownCommand word => "there is no command " ++ word
  | .unknownOption word => "there is no option " ++ word ++ " here"
  | .needsValue option => "--" ++ option ++ " needs a value"
  | .takesNoValue option => "--" ++ option ++ " takes no value"
  | .repeated option => "--" ++ option ++ " stands twice"
  | .missing name => name ++ " is required"
  | .unexpected word => "there is no place for " ++ word
  | .invalidValue option value => "--" ++ option ++ " cannot be " ++ value

inductive Word where
  | stop
  | option (name : String) (value : Option String)
  /-- One hyphen with something behind it; no option is written so. -/
  | cluster (text : String)
  | plain (text : String)
deriving DecidableEq, Repr

def Word.ofText (text : String) : Word :=
  match text.toList with
  | ['-', '-'] => .stop
  | '-' :: '-' :: rest =>
    let name := String.ofList (rest.takeWhile (· != '='))
    match rest.dropWhile (· != '=') with
    | [] => .option name none
    | _ :: value => .option name (some (String.ofList value))
  | '-' :: _ :: _ => .cluster text
  | _ => .plain text

structure Grammar where
  valued : List String
  flags : List String := []
deriving DecidableEq, Repr

structure Arguments where
  operands : List String := []
  values : List (String × String) := []
  flags : List String := []
deriving DecidableEq, Repr

namespace Arguments

def addOperands (arguments : Arguments) (words : List String) : Arguments :=
  { arguments with operands := arguments.operands ++ words }

def value? (arguments : Arguments) (option : String) : Option String :=
  arguments.values.lookup option

def addValue (arguments : Arguments) (option value : String) : Except UsageError Arguments :=
  if (arguments.value? option).isSome then .error (.repeated option)
  else .ok { arguments with values := (option, value) :: arguments.values }

def addFlag (arguments : Arguments) (option : String) : Except UsageError Arguments :=
  if option ∈ arguments.flags then .error (.repeated option)
  else .ok { arguments with flags := option :: arguments.flags }

def readOnto (grammar : Grammar) : Arguments → List String → Except UsageError Arguments
  | arguments, [] => .ok arguments
  | arguments, text :: rest =>
    match Word.ofText text with
    | .stop => .ok (arguments.addOperands rest)
    | .plain operand => readOnto grammar (arguments.addOperands [operand]) rest
    | .cluster word => .error (.unknownOption word)
    | .option name held =>
      if name ∈ grammar.flags then
        match held with
        | some _ => .error (.takesNoValue name)
        | none => do readOnto grammar (← arguments.addFlag name) rest
      else if name ∈ grammar.valued then
        match held, rest with
        | some value, rest => do readOnto grammar (← arguments.addValue name value) rest
        | none, [] => .error (.needsValue name)
        | none, next :: rest =>
          match Word.ofText next with
          | .plain value => do readOnto grammar (← arguments.addValue name value) rest
          | _ => .error (.needsValue name)
      else .error (.unknownOption text)
termination_by _ words => words.length

def read (grammar : Grammar) (words : List String) : Except UsageError Arguments :=
  readOnto grammar {} words

end Arguments

end HatCircle
