import VueScope.CommandLine.Settings
import VueScope.Text.Find
import VueScope.Text.Integer
import VueScope.Text.Quoted
import VueScope.Text.Case

/-! Reading the arguments of the command line. Long options may be shortened as long as
they stay distinct, and values may follow an equals sign. -/
namespace VueScope.CommandLine

inductive Flag where
  | help
  | host
  | port
  | logLevel
deriving DecidableEq, Repr

namespace Flag

def all : List Flag :=
  [help, host, port, logLevel]

def long : Flag → String
  | help => "--help"
  | host => "--host"
  | port => "--port"
  | logLevel => "--log-level"

def title : Flag → String
  | help => "-h/--help"
  | flag => flag.long

end Flag

inductive UsageError where
  | ambiguous (written : String) (matching : List Flag)
  | missingValue (flag : Flag)
  | needlessValue (flag : Flag) (value : String)
  | invalidPort (value : String)
  | invalidLevel (value : String)
  | unrecognized (arguments : List String)
deriving DecidableEq, Repr

namespace UsageError

private def quotedText (text : String) : String :=
  String.ofList (Text.quoted text.toList)

private def joined (separator : String) (parts : List String) : String :=
  String.intercalate separator parts

private def about (flag : Flag) (text : String) : String :=
  "argument " ++ flag.title ++ ": " ++ text

def message : UsageError → String
  | ambiguous written matching =>
    "ambiguous option: " ++ written ++ " could match " ++ joined ", " (matching.map Flag.long)
  | missingValue flag => about flag "expected one argument"
  | needlessValue flag value => about flag ("ignored explicit argument " ++ quotedText value)
  | invalidPort value => about .port ("invalid int value: " ++ quotedText value)
  | invalidLevel value =>
    about .logLevel ("invalid choice: " ++ quotedText value ++ " (choose from " ++
      joined ", " (LogLevel.all.map fun level => quotedText level.name) ++ ")")
  | unrecognized arguments => "unrecognized arguments: " ++ joined " " arguments

def line (error : UsageError) : String :=
  programName ++ ": error: " ++ error.message

end UsageError

inductive Spelling where
  | long
  | short
deriving DecidableEq, Repr

inductive Token where
  | plain
  | flag (flag : Flag) (spelling : Spelling) (value : Option String)
  | unknown
deriving DecidableEq, Repr

private def splitValue (written : List Char) : List Char × Option String :=
  match Text.breakOn? ['='] written with
  | some (before, after) => (before, some (String.ofList after))
  | none => (written, none)

private def isDecimalDigit (c : Char) : Bool :=
  (Text.digitValue? c).isSome

/-- A negative number, which is a value and no option. -/
def isNegativeNumber (written : List Char) : Bool :=
  match written with
  | '-' :: digits =>
    let whole := digits.takeWhile isDecimalDigit
    match digits.drop whole.length with
    | [] => !whole.isEmpty
    | '.' :: fraction => !fraction.isEmpty && fraction.all isDecimalDigit
    | _ => false
  | _ => false

def matching (written : List Char) : List Flag :=
  Flag.all.filter fun flag => written.isPrefixOf flag.long.toList

def dashed (argument : String) : Except UsageError Token :=
  let written := argument.toList
  let (before, value) := splitValue written
  match Flag.all.find? fun flag => flag.long.toList = before with
  | some flag => .ok (.flag flag .long value)
  | none =>
    if before = ['-', 'h'] then .ok (.flag .help .short value)
    else
      let otherwise : Token :=
        if isNegativeNumber written || written.contains ' ' then .plain else .unknown
      match written with
      | '-' :: '-' :: _ =>
        match matching before with
        | [] => .ok otherwise
        | [flag] => .ok (.flag flag .long value)
        | several => .error (.ambiguous argument several)
      | '-' :: 'h' :: rest => .ok (.flag .help .short (some (String.ofList rest)))
      | _ => .ok otherwise

def token (argument : String) : Except UsageError Token :=
  match argument.toList with
  | '-' :: _ :: _ => dashed argument
  | _ => .ok .plain

/-- What the arguments are taken for. After two dashes there are only values. -/
def tokens : List String → Except UsageError (List (String × Token))
  | [] => .ok []
  | argument :: rest =>
    if argument = "--" then .ok ((argument, .unknown) :: rest.map (·, .plain))
    else
      match token argument with
      | .error error => .error error
      | .ok found =>
        match tokens rest with
        | .error error => .error error
        | .ok later => .ok ((argument, found) :: later)

inductive Command where
  | serve (settings : Settings)
  | showHelp
  | refuse (error : UsageError)
deriving DecidableEq, Repr

def Settings.assign (settings : Settings) (flag : Flag) (value : String) :
    Except UsageError Settings :=
  match flag with
  | .help => .ok settings
  | .host => .ok { settings with host := value }
  | .port =>
    match Text.integer? value.toList with
    | some port => .ok { settings with port := port }
    | none => .error (.invalidPort value)
  | .logLevel =>
    let name := String.ofList (Text.upper value.toList)
    match LogLevel.ofName? name with
    | some level => .ok { settings with logLevel := level }
    | none => .error (.invalidLevel name)

/-- Asking for help takes no value; further letters of the short form are options. -/
def helpCommand (spelling : Spelling) (value : Option String) : Command :=
  match spelling, value with
  | _, none => .showHelp
  | .long, some text => .refuse (.needlessValue .help text)
  | .short, some text =>
    let rest := text.toList.dropWhile (· = 'h')
    if text ≠ "" && rest.isEmpty then .showHelp
    else .refuse (.needlessValue .help (String.ofList rest))

/-- Follows the arguments one by one; what fits nowhere is kept for the end. -/
def follow (settings : Settings) (extra : List String) : List (String × Token) → Command
  | [] => if extra.isEmpty then .serve settings else .refuse (.unrecognized extra)
  | (_, .flag .help spelling value) :: _ => helpCommand spelling value
  | (_, .flag flag _ (some value)) :: rest =>
    match settings.assign flag value with
    | .ok changed => follow changed extra rest
    | .error error => .refuse error
  | (_, .flag flag _ none) :: (value, .plain) :: rest =>
    match settings.assign flag value with
    | .ok changed => follow changed extra rest
    | .error error => .refuse error
  | (_, .flag flag _ none) :: _ => .refuse (.missingValue flag)
  | (argument, .plain) :: rest => follow settings (extra ++ [argument]) rest
  | (argument, .unknown) :: rest => follow settings (extra ++ [argument]) rest

def command (arguments : List String) : Command :=
  match tokens arguments with
  | .error error => .refuse error
  | .ok found => follow .initial [] found

end VueScope.CommandLine
