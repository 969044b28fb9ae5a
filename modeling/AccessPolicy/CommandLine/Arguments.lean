import AccessPolicy.Environment

/-!
# Arguments of the command line

Arguments are read from the left, first those of the program up to the name of a command, then those of the command.
An option may stand on both sides, and the one after the command counts.  What comes first decides: help and the
version are given when nothing before them is wrong.
-/

namespace AccessPolicy.CommandLine

inductive Format
  | text
  | json
deriving DecidableEq, Repr

def Format.ofName? : String → Option Format
  | "text" => some text
  | "json" => some json
  | _ => none

inductive Switch
  | config
  | policyDir
  | suffix
  | logLevel
  | format
  | strict
  | request
  | raw
  | emitLogs
  | id
  | routes
  | help
  | version
deriving DecidableEq, Repr

namespace Switch

def long : Switch → String
  | config => "config"
  | policyDir => "policy-dir"
  | suffix => "suffix"
  | logLevel => "log-level"
  | format => "format"
  | strict => "strict"
  | request => "request"
  | raw => "raw"
  | emitLogs => "emit-logs"
  | id => "id"
  | routes => "routes"
  | help => "help"
  | version => "version"

def short? : Switch → Option Char
  | config => some 'c'
  | policyDir => some 'd'
  | format => some 'f'
  | request => some 'r'
  | help => some 'h'
  | version => some 'V'
  | _ => none

def takesValue : Switch → Bool
  | config | policyDir | suffix | logLevel | format | request | id => true
  | _ => false

/-- The values that a switch takes: a path is not empty, and a format has a name. -/
def admits (s : Switch) (value : String) : Bool :=
  match s with
  | config | policyDir | request => value ≠ ""
  | format => (Format.ofName? value).isSome
  | _ => true

end Switch

/-- Whose arguments are read. -/
inductive Level
  | program
  | check
  | evaluate
  | list
deriving DecidableEq, Repr

namespace Level

def ofName? : String → Option Level
  | "check" => some check
  | "eval" => some evaluate
  | "show" => some list
  | _ => none

def switches (level : Level) : List Switch :=
  [.config, .policyDir, .suffix, .logLevel, .format, .help] ++
    match level with
    | program => [.version]
    | check => [.strict]
    | evaluate => [.request, .raw, .emitLogs]
    | list => [.id, .routes]

/-- How many arguments that are no switches a command takes. -/
def operands : Level → Nat
  | evaluate => 1
  | _ => 0

end Level

inductive UsageError
  | unknown (argument : String)
  | missingValue (s : Switch)
  | superfluousValue (s : Switch)
  | invalidValue (s : Switch) (value : String)
  | repeated (s : Switch)
  | exclusive (s t : Switch)
  | noCommand
  | noRoute
deriving DecidableEq, Repr

def UsageError.message : UsageError → String
  | unknown argument => s!"unexpected argument '{argument}'"
  | missingValue s => s!"a value is required for '--{s.long}'"
  | superfluousValue s => s!"'--{s.long}' takes no value"
  | invalidValue s value => s!"invalid value '{value}' for '--{s.long}'"
  | repeated s => s!"'--{s.long}' cannot be used multiple times"
  | exclusive s t => s!"'--{s.long}' cannot be used with '--{t.long}'"
  | noCommand => "a command is required: check, eval or show"
  | noRoute => "a route is required"

/-- Why no command is run. -/
inductive Stop
  | version
  | help
  /-- There are no arguments at all. -/
  | nothing
  | misuse (e : UsageError)
deriving DecidableEq, Repr

/-- What was given on one side of the name of the command. -/
structure Given where
  values : List (Switch × String) := []
  operands : List String := []
deriving DecidableEq, Repr

namespace Given

def value? (given : Given) (s : Switch) : Option String := given.values.lookup s

def has (given : Given) (s : Switch) : Bool := (given.value? s).isSome

def add (given : Given) (s : Switch) (value : String) : Except Stop Given :=
  if s = .help then .error .help
  else if s = .version then .error .version
  else if given.has s then .error (.misuse (.repeated s))
  else if !s.admits value then .error (.misuse (.invalidValue s value))
  else .ok { given with values := given.values ++ [(s, value)] }

def addOperand (given : Given) (level : Level) (text : String) : Except Stop Given :=
  if given.operands.length < level.operands then .ok { given with operands := given.operands ++ [text] }
  else .error (.misuse (.unknown text))

end Given

/-- What an argument is.  A switch may hold its value, after an equals sign or, when it has one letter, right after
that. -/
inductive Argument
  | operand
  /-- All further arguments are no switches. -/
  | endOfSwitches
  | switch (s : Switch) (value : Option String)
  | unknown
deriving DecidableEq, Repr

def Argument.ofText (level : Level) (text : String) : Argument :=
  match text.toList with
  | ['-', '-'] => endOfSwitches
  | '-' :: '-' :: cs =>
    let name := cs.takeWhile (· ≠ '=')
    let value := (cs.drop name.length).tail?.map String.ofList
    match level.switches.find? fun s => s.long.toList = name with
    | some s => switch s value
    | none => unknown
  | '-' :: c :: cs =>
    match level.switches.find? fun s => s.short? = some c with
    | some s =>
      let value := if cs.head? = some '=' then cs.drop 1 else cs
      switch s (if cs.isEmpty || !s.takesValue then none else some (String.ofList value))
    | none => unknown
  | _ => operand

/-- A lone hyphen is a value like any other. -/
def isValue (text : String) : Bool := text = "-" || text.toList.head? ≠ some '-'

/-- Reads the arguments of a level.  Those of the program end at the first that is no switch. -/
def scan (level : Level) (given : Given) : List String → Except Stop (Given × List String)
  | [] => .ok (given, [])
  | text :: args =>
    match Argument.ofText level text with
    | .operand =>
      if level = .program then .ok (given, text :: args)
      else do scan level (← given.addOperand level text) args
    | .endOfSwitches => do
      return (← args.foldlM (fun (g : Given) arg => g.addOperand level arg) given, [])
    | .unknown => .error (.misuse (.unknown text))
    | .switch s (some value) =>
      if s.takesValue then do scan level (← given.add s value) args
      else .error (.misuse (.superfluousValue s))
    | .switch s none =>
      if s.takesValue then
        match args with
        | [] => .error (.misuse (.missingValue s))
        | value :: args =>
          if isValue value then do scan level (← given.add s value) args
          else .error (.misuse (.missingValue s))
      else do scan level (← given.add s "") args

/-! ### Invocations -/

structure Evaluation where
  route : String
  /-- The file that holds the request; none for the input of the program. -/
  request : Option String := none
  /-- The request is matched as it is. -/
  raw : Bool := false
  emitLogs : Bool := false
deriving DecidableEq, Repr

inductive Listing
  | policies
  | policy (id : String)
  | routes
deriving DecidableEq, Repr

inductive Command
  | check (strict : Bool)
  | evaluate (evaluation : Evaluation)
  | list (listing : Listing)
deriving DecidableEq, Repr

structure Invocation where
  command : Command
  config : Option String := none
  directory : Option String := none
  suffix : Option String := none
  level : Option String := none
  format : Format := .text
deriving DecidableEq, Repr

/-- The path of the input of the program: a hyphen. -/
private def isInput (path : String) : Bool :=
  match Text.splitText '/' path with
  | name :: names => name = "-" && names.all fun n => n = "" || n = "."
  | [] => false

/-- The command that the arguments of a level stand for. -/
def Command.ofGiven (given : Given) : Level → Except Stop Command
  | .program => .error (.misuse .noCommand)
  | .check => .ok (.check (given.has .strict))
  | .evaluate =>
    match given.operands with
    | route :: _ =>
      let request := (given.value? .request).filter (!isInput ·)
      .ok (.evaluate { route, request, raw := given.has .raw, emitLogs := given.has .emitLogs })
    | [] => .error (.misuse .noRoute)
  | .list =>
    match given.value? .id, given.has .routes with
    | some _, true => .error (.misuse (.exclusive .id .routes))
    | some id, false => .ok (.list (.policy id))
    | none, true => .ok (.list .routes)
    | none, false => .ok (.list .policies)

/-- Help may be asked for about one command. -/
private def helpAbout : List String → Stop
  | [] => .help
  | name :: rest =>
    if name ≠ "help" && (Level.ofName? name).isNone then .misuse (.unknown name)
    else
      match rest with
      | [] => .help
      | other :: _ => .misuse (.unknown other)

/-- The invocation that arguments stand for; `configVariable` names the file of settings if no argument does. -/
def Invocation.ofArguments (configVariable : Option String) (args : List String) : Except Stop Invocation := do
  let (before, rest) ← scan .program {} args
  match rest with
  | [] => throw (if before.values.isEmpty && configVariable.isNone then .nothing else .misuse .noCommand)
  | "help" :: names => throw (helpAbout names)
  | name :: args =>
    match Level.ofName? name with
    | none => throw (.misuse (.unknown name))
    | some level =>
      let (after, _) ← scan level {} args
      let command ← Command.ofGiven after level
      let value? (s : Switch) : Option String := (after.value? s).or (before.value? s)
      if configVariable = some "" && !(before.has .config && after.has .config) then
        throw (.misuse (.missingValue .config))
      return {
        command
        config := (value? .config).or configVariable
        directory := value? .policyDir
        suffix := value? .suffix
        level := value? .logLevel
        format := ((value? .format).bind Format.ofName?).getD .text }

end AccessPolicy.CommandLine
