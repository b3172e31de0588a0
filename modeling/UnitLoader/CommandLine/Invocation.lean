/-! Reading the arguments of the program. Options may stand before the command and
after it; those after it count more. After two dashes everything is an operand. -/

namespace UnitLoader

inductive Command
  | run (file : String) (asModule sync : Bool)
  | eval (code : String)
  | graph (file : String)
  | version
deriving DecidableEq, Repr

structure Invocation where
  command : Command
  verbose : Bool
  config : Option String
deriving DecidableEq, Repr

namespace Invocation

/-- Why arguments name no command to carry out. -/
inductive Stop
  | usage
  | help
  | version
deriving DecidableEq, Repr

inductive Flag
  | verbose
  | module
  | sync
  | help
  | version
deriving DecidableEq, Repr

namespace Flag

def letter : Flag → Char
  | verbose => 'v'
  | module => 'm'
  | sync => 's'
  | help => 'h'
  | version => 'V'

def word : Flag → String
  | verbose => "verbose"
  | module => "module"
  | sync => "sync"
  | help => "help"
  | version => "version"

end Flag

structure Level where
  flags : List Flag
  /-- Whether an operand ends it, as the name of a command does. -/
  namesCommand : Bool
  operands : Nat
  emptyOperands : Bool

def topLevel : Level := ⟨[.verbose, .help, .version], true, 0, false⟩

structure Given where
  flags : List Flag
  config : Option String
  operands : List String

def Given.nothing : Given := ⟨[], none, []⟩

/-- Adds a flag. A flag is given once; asking for help or the version ends it all. -/
def addFlag (level : Level) (given : Given) (flag? : Option Flag) : Except Stop Given :=
  match flag? with
  | none => .error .usage
  | some flag =>
    if flag ∈ given.flags ∨ flag ∉ level.flags then .error .usage
    else
      match flag with
      | .help => .error .help
      | .version => .error .version
      | flag => .ok { given with flags := flag :: given.flags }

def flagOf (level : Level) (p : Flag → Bool) : Option Flag :=
  level.flags.find? p

/-- Adds the path of a configuration, which is given once and is not empty. -/
def addConfig (given : Given) (path : String) : Except Stop Given :=
  if given.config.isSome ∨ path.isEmpty then .error .usage
  else .ok { given with config := some path }

def addOperand (level : Level) (given : Given) (operand : String) : Except Stop Given :=
  if level.operands ≤ given.operands.length ∨ (operand.isEmpty ∧ !level.emptyOperands) then
    .error .usage
  else .ok { given with operands := given.operands ++ [operand] }

/-- Whether an argument is not an operand by its looks. A single dash is one. -/
def isOption (argument : List Char) : Bool :=
  argument.head? = some '-' && argument ≠ ['-']

/-- The value in an argument that gives one after an equals sign. -/
def configValue? (argument : List Char) : Option String :=
  if "--config=".toList.isPrefixOf argument then some (String.ofList (argument.drop 9)) else none

/-- Reads an option that is complete in itself: a word after two dashes, or letters
after one. -/
def readOption (level : Level) (given : Given) (argument : List Char) : Except Stop Given :=
  match configValue? argument, argument with
  | some path, _ => addConfig given path
  | none, '-' :: '-' :: word =>
    addFlag level given (flagOf level fun f => f.word.toList = word)
  | none, '-' :: letters =>
    letters.foldlM (fun given c => addFlag level given (flagOf level (·.letter = c))) given
  | none, _ => .error .usage

/-- Reads the arguments of a level. Those that follow the name of a command, and the
name itself, are left over. -/
def readLevel (level : Level) (given : Given) : List String → Except Stop (Given × List String)
  | [] => .ok (given, [])
  | argument :: rest =>
    if argument = "--" then
      if level.namesCommand then .error .usage
      else (rest.foldlM (addOperand level) given).map fun given => (given, [])
    else if argument = "--config" then
      match rest with
      | [] => .error .usage
      | path :: rest =>
        if isOption path.toList then .error .usage
        else (addConfig given path).bind fun given => readLevel level given rest
    else if isOption argument.toList then
      (readOption level given argument.toList).bind fun given => readLevel level given rest
    else if level.namesCommand then .ok (given, argument :: rest)
    else (addOperand level given argument).bind fun given => readLevel level given rest

def runLevel : Level := ⟨[.verbose, .module, .sync, .help], false, 1, false⟩
def evalLevel : Level := ⟨[.verbose, .help], false, 1, true⟩
def graphLevel : Level := ⟨[.verbose, .help], false, 1, false⟩
def versionLevel : Level := ⟨[.verbose, .help], false, 0, false⟩

def commandNames : List String := ["run", "eval", "graph", "version"]

/-- Reads what help is asked about: names of commands, each below the one before.
Only help has commands below it. -/
def readHelp : List String → Stop
  | [] => .help
  | [name] => if name ∈ commandNames ∨ name = "help" then .help else .usage
  | name :: rest => if name = "help" then readHelp rest else .usage

def readCommand (name : String) (arguments : List String) : Except Stop (Command × Given) :=
  match name with
  | "run" => do
    let (given, _) ← readLevel runLevel .nothing arguments
    match given.operands with
    | [file] => .ok (.run file (.module ∈ given.flags) (.sync ∈ given.flags), given)
    | _ => .error .usage
  | "eval" => do
    let (given, _) ← readLevel evalLevel .nothing arguments
    match given.operands with
    | [code] => .ok (.eval code, given)
    | _ => .error .usage
  | "graph" => do
    let (given, _) ← readLevel graphLevel .nothing arguments
    match given.operands with
    | [file] => .ok (.graph file, given)
    | _ => .error .usage
  | "version" => do
    let (given, _) ← readLevel versionLevel .nothing arguments
    return (.version, given)
  | "help" => .error (readHelp arguments)
  | _ => .error .usage

def read (arguments : List String) : Except Stop Invocation := do
  match ← readLevel topLevel .nothing arguments with
  | (_, []) => .error .usage
  | (above, name :: rest) =>
    let (command, below) ← readCommand name rest
    return {
      command := command
      verbose := .verbose ∈ above.flags ∨ .verbose ∈ below.flags
      config := below.config <|> above.config }

end Invocation

end UnitLoader
