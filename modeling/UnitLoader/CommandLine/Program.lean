import UnitLoader.CommandLine.Invocation
import UnitLoader.Launch
import UnitLoader.Text.Blank
import UnitLoader.Text.Unicode

/-! What the program does with its arguments: what it prints, the status it ends
with, and the paths that it looks at. -/

namespace UnitLoader

namespace CommandLine

def programName : String := "codeloader"

def programVersion : String := "0.3.2"

def versionLine : String :=
  String.join [programName, " ", programVersion, "\n"]

structure Output where
  status : Nat
  stdout : String
  /-- The lines about the run itself, apart from its result. -/
  remarks : String
  error : Option String
  paths : List String

/-- The error without the white space at its end. -/
def Output.trimmedError (o : Output) : Option String :=
  o.error.map Text.trimEnd

inductive Failure
  | settings (path : String) (error : ConfigError)
  | code (error : LoaderError)
  | launch (error : LaunchError)
deriving DecidableEq, Repr

namespace Failure

def text : Failure → String
  | settings path e => String.join ["Failed to load config: ", path, ": ", e.text]
  | code e => String.join ["Failed to evaluate code: ", e.text]
  | launch e => e.text

/-- On the command line, code is what was to be evaluated. -/
def ofLaunch : LaunchError → Failure
  | .evaluation e => code e
  | e => launch e

end Failure

/-! ### Terminal text -/

inductive Style
  | bold
  | red
  | green
deriving DecidableEq, Repr

/-- Turns a style on and, after the text, off. -/
def Style.apply (style : Style) (text : String) : String :=
  match style with
  | .bold => String.join ["\x1b[1m", text, "\x1b[0m"]
  | .red => String.join ["\x1b[31m", text, "\x1b[39m"]
  | .green => String.join ["\x1b[32m", text, "\x1b[39m"]

def errorLine (f : Failure) : String :=
  String.join [Style.bold.apply (Style.red.apply "error:"), " ", f.text, "\n"]

def valueLine : Value → String
  | .unit => ""
  | value => String.join [value.text, "\n"]

def entryLines (e : GraphEntry) : String :=
  let label := String.join [e.state.text, " [", e.kind.text, "]"]
  let style := if e.state = .error then Style.red else Style.green
  let dependencies := e.dependencies.map fun d => String.join ["  -> ", d, "\n"]
  let failure := match e.error with
    | some error => String.join ["  ", Style.red.apply "!", " ", error.text, "\n"]
    | none => ""
  String.join [Style.bold.apply e.address, " ", style.apply label, "\n",
    String.join dependencies, failure]

/-! ### Commands -/

/-- What a command prints, and the addresses that were fetched for it. -/
structure Printed where
  result : Except Failure String
  fetched : List String

def Printed.ofLaunched {α : Type} (print : α → String) (l : Launch.Launched α) : Printed :=
  ⟨(l.result.map print).mapError Failure.ofLaunch, l.fetched⟩

/-- The working directory as an address to start from. -/
def workingAddress (disk : Disk) : String :=
  let address := Files.addressOf disk.workingDirectory
  if address.endsWith "/" then address else address ++ "/"

def loadConfig (disk : Disk) : Option String → Except Failure Config
  | none => .ok { Config.default with baseAddress := workingAddress disk }
  | some path => (Launch.readConfig disk path).mapError (.settings path)

def perform (disk : Disk) (config : Config) : Command → Printed
  | .run file asModule sync =>
    let kind := if asModule then Kind.module else .script
    .ofLaunched valueLine
      (Launch.runFile disk { config with sync := sync || config.sync } file kind)
  | .eval code => .ofLaunched valueLine (Launch.eval disk config code)
  | .graph file =>
    .ofLaunched (fun entries => String.join (entries.map entryLines))
      (Launch.graph disk config file)
  | .version => ⟨.ok versionLine, []⟩

def usage : String :=
  String.join ["Usage: ", programName, " [OPTIONS] <COMMAND>\n\n",
    "Commands:\n",
    "  run      Run a source file and everything it imports\n",
    "  eval     Evaluate code from the command line\n",
    "  graph    Print the dependency graph of a source file in evaluation order\n",
    "  version  Print version information\n"]

def givenPath : Command → List String
  | .run file _ _ => [file]
  | .graph file => [file]
  | _ => []

def run (disk : Disk) (arguments : List String) : Output :=
  match Invocation.read arguments with
  | .error .usage => ⟨2, "", usage, none, []⟩
  | .error .help => ⟨0, usage, "", none, []⟩
  | .error .version => ⟨0, versionLine, "", none, []⟩
  | .ok invocation =>
    let remarks :=
      if invocation.verbose then String.join [programName, " version: ", programVersion, "\n"]
      else ""
    let printed : Printed := match loadConfig disk invocation.config with
      | .error e => ⟨.error e, []⟩
      | .ok config => perform disk config invocation.command
    let paths := invocation.config.toList ++ givenPath invocation.command ++
      printed.fetched.map (Files.pathFor none)
    match printed.result with
    | .ok text => ⟨0, text, remarks, none, paths⟩
    | .error e => ⟨1, "", remarks, some (errorLine e), paths⟩

end CommandLine

end UnitLoader
