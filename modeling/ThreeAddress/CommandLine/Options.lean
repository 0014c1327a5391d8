namespace ThreeAddress.CommandLine

inductive Setting where
  | input
  | output
deriving DecidableEq, Repr

inductive Request where
  | compile (input : String) (output? : Option String)
  | version
  | help
deriving DecidableEq, Repr

inductive UsageError where
  | unknownOption (word : String)
  | unexpectedArgument (word : String)
  | unexpectedValue (word : String)
  | missingValue (setting : Setting)
  | repeated (setting : Setting)
deriving DecidableEq, Repr

def Setting.text : Setting → String
  | .input => "--input <INPUT>"
  | .output => "--output <OUTPUT>"

def UsageError.message : UsageError → String
  | .unknownOption word => "unknown option '" ++ word ++ "'"
  | .unexpectedArgument word => "unexpected argument '" ++ word ++ "'"
  | .unexpectedValue word => "unexpected value in '" ++ word ++ "'"
  | .missingValue setting => "a value is required for '" ++ setting.text ++ "'"
  | .repeated setting => "'" ++ setting.text ++ "' cannot be given twice"

inductive Word where
  | setting (setting : Setting) (value? : Option String)
  | request (request : Request)
  | wrong (error : UsageError)
  /-- The word after which nothing is an option. -/
  | endOfOptions
deriving DecidableEq

namespace Word

/-- A word with two dashes: a name, and a value after an equals sign. -/
def long (word : String) (body : List Char) : Word :=
  let name := String.ofList (body.takeWhile (· != '='))
  let value? := match body.dropWhile (· != '=') with
    | [] => none
    | _ :: value => some (String.ofList value)
  if name = "input" then .setting .input value?
  else if name = "output" then .setting .output value?
  else if name = "version" then
    if value?.isSome then .wrong (.unexpectedValue word) else .request .version
  else if name = "help" then
    if value?.isSome then .wrong (.unexpectedValue word) else .request .help
  else .wrong (.unknownOption word)

/-- The value behind a letter, with or without an equals sign. -/
def attached? : List Char → Option String
  | [] => none
  | '=' :: value => some (String.ofList value)
  | value => some (String.ofList value)

/-- A word with one dash: a letter, and a value behind it. -/
def short (word : String) (letter : Char) (tail : List Char) : Word :=
  match letter with
  | 'i' => .setting .input (attached? tail)
  | 'o' => .setting .output (attached? tail)
  | 'V' => .request .version
  | 'h' => .request .help
  | _ => .wrong (.unknownOption word)

def ofString (word : String) : Word :=
  match word.toList with
  | ['-', '-'] => .endOfOptions
  | '-' :: '-' :: body => long word body
  | '-' :: letter :: tail => short word letter tail
  | _ => .wrong (.unexpectedArgument word)

/-- Whether a word may be the value of the option before it: it does not look like an
option itself. A lone dash does not. -/
def isValue (word : String) : Bool :=
  match word.toList with
  | '-' :: _ :: _ => false
  | _ => true

end Word

structure Settings where
  input? : Option String := none
  output? : Option String := none
deriving DecidableEq

namespace Settings

/-- Without an input, the standard one is read, which a dash stands for. -/
def request (settings : Settings) : Request :=
  .compile (settings.input?.getD "-") settings.output?

/-- Gives a setting its value, for the first time. An output needs a name. -/
def put (settings : Settings) (setting : Setting) (value : String) :
    Except UsageError Settings :=
  match setting with
  | .input =>
      if settings.input?.isSome then .error (.repeated .input)
      else .ok { settings with input? := some value }
  | .output =>
      if settings.output?.isSome then .error (.repeated .output)
      else if value = "" then .error (.missingValue .output)
      else .ok { settings with output? := some value }

/-- Reads the words of a command line, given the values before them. -/
def read (settings : Settings) : List String → Except UsageError Request
  | [] => .ok settings.request
  | word :: rest =>
      match Word.ofString word with
      | .wrong error => .error error
      | .request request => .ok request
      | .endOfOptions =>
          match rest with
          | [] => .ok settings.request
          | next :: _ => .error (.unexpectedArgument next)
      | .setting setting (some value) => do
          (← settings.put setting value).read rest
      | .setting setting none =>
          match rest with
          | [] => .error (.missingValue setting)
          | value :: rest =>
              if Word.isValue value then do
                (← settings.put setting value).read rest
              else .error (.missingValue setting)

end Settings

/-- The first word that is wrong decides, and so does the first that asks for the version or for
help. -/
def Request.ofWords (words : List String) : Except UsageError Request :=
  ({} : Settings).read words

end ThreeAddress.CommandLine
