import UnitLoader.Files
import UnitLoader.Host.Setup
import UnitLoader.Lang.Toolchain

/-! Loaders for a single use: to evaluate a text, to run a file, or to show what a
file depends on. Files are read by their paths. -/

namespace UnitLoader

inductive LaunchError
  | configuration (error : LoaderError)
  | evaluation (error : LoaderError)
  | unreadable (path : String) (error : FileError)
  | failed (path : String) (error : LoaderError)
  | unsettled (address : String)
deriving DecidableEq, Repr

def LaunchError.text : LaunchError → String
  | .configuration e => String.join ["Invalid loader configuration: ", e.text]
  | .evaluation e => String.join ["Evaluation failed: ", e.text]
  | .unreadable path e => String.join ["Failed to read file: ", path, ": ", e.text]
  | .failed path e => String.join ["Failed to run: ", path, ": ", e.text]
  | .unsettled address => String.join ["'", address, "' did not settle"]

structure GraphEntry where
  address : String
  state : State
  kind : Kind
  dependencies : List String
  error : Option LoadError
deriving DecidableEq, Repr

namespace Launch

variable [Text.Xid]

def readConfig (disk : Disk) (path : String) : Except ConfigError Config :=
  ((disk.read path).mapError fun e => .unreadable e.text).bind Config.read

abbrev Loader := Session Program Value Empty

def start (disk : Disk) (config : Config) : Except LaunchError Loader :=
  ((Setup.plain Lang.toolchain config (Files.fetcher disk none)).start none).mapError
    .configuration

/-- What a launch came to, and the addresses that were fetched for it. -/
structure Launched (α : Type) where
  result : Except LaunchError α
  fetched : List String

/-- A launch that ended before anything was fetched. -/
def Launched.early {α : Type} (e : LaunchError) : Launched α :=
  ⟨.error e, []⟩

/-- Evaluates a text. Its imports are asked for and not waited for. -/
def eval (disk : Disk) (config : Config) (code : String) : Launched Value :=
  match start disk config with
  | .error e => .early e
  | .ok loader =>
    let r := loader.eval code none
    ⟨(r.session.settledValue r.id).mapError .evaluation, r.session.fetcher.log⟩

def fileAddress (disk : Disk) (path : String) : Except LaunchError String :=
  match disk.canonical path with
  | .ok absolute => .ok (Files.addressOf absolute)
  | .error e => .error (.unreadable path e)

/-- What the unit of a file came to when all fetches had been waited for. -/
def waitedValue (loader : Loader) (path address : String) (id : UnitId) :
    Except LaunchError Value :=
  match loader.cache.get? id with
  | none => .error (.unsettled address)
  | some u =>
    match u.result, u.error with
    | some value, _ => .ok value
    | none, some e => .error (.failed path (.failed e))
    | none, none => .error (.unsettled address)

def runFile (disk : Disk) (config : Config) (path : String) (kind : Kind) : Launched Value :=
  match fileAddress disk path with
  | .error e => .early e
  | .ok address =>
    match start disk config with
    | .error e => .early e
    | .ok loader =>
      if config.sync then
        let r := loader.loadSync address kind
        ⟨(r.session.settledValue r.id).mapError (.failed path), r.session.fetcher.log⟩
      else
        let r := loader.load address kind
        let after := r.session.runUntilIdle
        ⟨waitedValue after path address r.id, after.fetcher.log⟩

def entryOf (loader : Loader) (id : UnitId) : Option GraphEntry :=
  (loader.cache.get? id).map fun u =>
    ⟨u.address, u.state, u.kind, u.dependencyIds.map loader.cache.addressOf, u.error⟩

/-- The units that a file leads to, in the order in which they are executed. -/
def graph (disk : Disk) (config : Config) (path : String) : Launched (List GraphEntry) :=
  match fileAddress disk path with
  | .error e => .early e
  | .ok address =>
    match start disk config with
    | .error e => .early e
    | .ok loader =>
      let after := (loader.load address .script).session.runUntilIdle
      ⟨.ok (after.cache.evaluationOrder.filterMap (entryOf after)), after.fetcher.log⟩

end Launch

end UnitLoader
