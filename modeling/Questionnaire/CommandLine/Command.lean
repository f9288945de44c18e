import Questionnaire.Text.Cut

/-! Commands and the arguments that spell them. Options may stand anywhere behind the name
of the command, up to two hyphens; no option may be given twice. -/
namespace Questionnaire

inductive Command where
  | check (paths : List String) (quiet : Bool)
  | render (file : String) (question user : Option String)
  | eval (expression : String) (answers : List String)
  | walk (file : String) (answers : List String) (config : Option String)
  | run (file : String) (state config user : Option String)

namespace Command

open Text

structure OptionForm where
  name : String
  letter : Option Char := none
  takesValue : Bool := true
  /-- Whether the value names a file, and thus may not be empty. -/
  isPath : Bool := false

structure Arguments where
  options : List (String × Option String) := []
  positionals : List String := []

namespace Arguments

def has (args : Arguments) (name : String) : Bool := args.options.any (·.1 == name)

def value? (args : Arguments) (name : String) : Option String := (args.options.lookup name).join

def addOption? (args : Arguments) (form : OptionForm) (value : Option String) :
    Option Arguments :=
  if args.has form.name || form.isPath && value == some "" then none
  else some { args with options := args.options ++ [(form.name, value)] }

def addPositional (args : Arguments) (s : String) : Arguments :=
  { args with positionals := args.positionals ++ [s] }

end Arguments

def isOptionLike (arg : String) : Bool := arg.startsWith "-" && arg != "-"

/-- An option with its value, which is attached to it or the next argument. The
arguments behind it are left. -/
def addValued? (args : Arguments) (form : OptionForm) (attached : Option String)
    (rest : List String) : Option (Arguments × List String) :=
  match attached, rest with
  | some value, _ => (args.addOption? form (some value)).map (·, rest)
  | none, next :: rest =>
    if isOptionLike next then none
    else (args.addOption? form (some next)).map (·, rest)
  | none, [] => none

def takeLong? (forms : List OptionForm) (args : Arguments) (spelled : List Char)
    (rest : List String) : Option (Arguments × List String) := do
  let (name, attached) := match cutAtChars? (· == '=') spelled with
    | some (name, value) => (name, some (String.ofList value))
    | none => (spelled, none)
  let form ← forms.find? (·.name == String.ofList name)
  if form.takesValue then addValued? args form attached rest
  else if attached.isSome then none
  else (args.addOption? form none).map (·, rest)

/-- Options of one letter each behind a hyphen. What follows the letter of an option with a
value is the value. -/
def takeLetters? (forms : List OptionForm) (args : Arguments) (rest : List String) :
    List Char → Option (Arguments × List String)
  | [] => some (args, rest)
  | c :: cs => do
    let form ← forms.find? (·.letter == some c)
    if form.takesValue then
      let attached := match cs with
        | [] => none
        | '=' :: value => some (String.ofList value)
        | value => some (String.ofList value)
      addValued? args form attached rest
    else takeLetters? forms (← args.addOption? form none) rest cs

def takeArgument? (forms : List OptionForm) (args : Arguments) (arg : String)
    (rest : List String) : Option (Arguments × List String) :=
  match arg.toList with
  | '-' :: '-' :: spelled => takeLong? forms args spelled rest
  | '-' :: c :: cs => takeLetters? forms args rest (c :: cs)
  | _ => some (args.addPositional arg, rest)

/-- The arguments of a command. Each step takes one of them at least, so their number is
fuel enough. -/
def readArguments? (forms : List OptionForm) (args : Arguments) (rest : List String) :
    Nat → Option Arguments
  | 0 => if rest.isEmpty then some args else none
  | fuel + 1 =>
    match rest with
    | [] => some args
    | arg :: rest =>
      if arg == "--" then some { args with positionals := args.positionals ++ rest }
      else do
        let (args, rest) ← takeArgument? forms args arg rest
        readArguments? forms args rest fuel

def verbose : OptionForm := { name := "verbose", letter := some 'v', takesValue := false }
def quietOption : OptionForm := { name := "quiet", letter := some 'q', takesValue := false }
def questionOption : OptionForm := { name := "question", letter := some 'q' }
def userOption : OptionForm := { name := "user" }
def configOption : OptionForm := { name := "config", letter := some 'c', isPath := true }
def stateOption : OptionForm := { name := "state", letter := some 's', isPath := true }

/-- A path may not be empty. -/
def path? (s : String) : Option String := if s.isEmpty then none else some s

def readCheck? (args : Arguments) : Option Command := do
  let paths ← args.positionals.mapM path?
  return check (if paths.isEmpty then ["."] else paths) (args.has "quiet")

def readRender? (args : Arguments) : Option Command :=
  match args.positionals with
  | [file] => return render (← path? file) (args.value? "question") (args.value? "user")
  | _ => none

def readEval? (args : Arguments) : Option Command :=
  match args.positionals with
  | expression :: answers => some (eval expression answers)
  | [] => none

def readWalk? (args : Arguments) : Option Command :=
  match args.positionals with
  | file :: answers => return walk (← path? file) answers (args.value? "config")
  | [] => none

def readRun? (args : Arguments) : Option Command :=
  match args.positionals with
  | [file] =>
    return run (← path? file) (args.value? "state") (args.value? "config") (args.value? "user")
  | _ => none

def ofName? (name : String) (rest : List String) : Option Command :=
  let arguments? (forms : List OptionForm) :=
    readArguments? (verbose :: forms) {} rest rest.length
  match name with
  | "check" => (arguments? [quietOption]).bind readCheck?
  | "render" => (arguments? [questionOption, userOption]).bind readRender?
  | "eval" => (arguments? []).bind readEval?
  | "walk" => (arguments? [configOption]).bind readWalk?
  | "run" => (arguments? [stateOption, configOption, userOption]).bind readRun?
  | _ => none

/-- A command line. In front of the name of the command only the option for verbosity may
stand. -/
def read? (args : List String) : Option Command :=
  match args with
  | arg :: name :: rest =>
    if arg == "-v" || arg == "--verbose" then ofName? name rest else ofName? arg (name :: rest)
  | [name] => ofName? name []
  | [] => none

end Command

end Questionnaire
