import UnitLoader.Config.Json

/-! The settings of a loader and how they are read from a JSON text. A setting that
is not given has its default, and names that are no setting are passed over. -/

namespace UnitLoader

/-- Who a loader's namespace belongs to: to itself, or to several loaders. -/
inductive NamespaceScope
  | loader
  | shared
deriving DecidableEq, Repr

inductive LogLevel
  | debug
  | info
  | warn
  | error
deriving DecidableEq, Repr

structure Config where
  /-- What the addresses of requests are relative to. -/
  baseAddress : String
  sync : Bool
  scope : NamespaceScope
  logLevel : LogLevel
deriving DecidableEq, Repr

namespace NamespaceScope

def all : List NamespaceScope := [loader, shared]

def text : NamespaceScope → String
  | loader => "loader"
  | shared => "shared"

end NamespaceScope

namespace LogLevel

def all : List LogLevel := [debug, info, warn, error]

def text : LogLevel → String
  | debug => "debug"
  | info => "info"
  | warn => "warn"
  | error => "error"

end LogLevel

inductive ConfigError
  | unreadable (message : String)
  | malformed
deriving DecidableEq, Repr

def ConfigError.text : ConfigError → String
  | .unreadable message => String.join ["IO error: ", message]
  | .malformed => "Config parse error"

namespace Config

def default : Config := ⟨"/", false, .loader, .info⟩

/-- The settings, in the order in which an array gives them. -/
inductive Field
  | baseAddress
  | sync
  | scope
  | logLevel
deriving DecidableEq, Repr

namespace Field

def all : List Field := [baseAddress, sync, scope, logLevel]

def name : Field → String
  | baseAddress => "base_address"
  | sync => "sync"
  | scope => "namespace"
  | logLevel => "log_level"

end Field

/-- One of some choices, given by its name alone or as the only member of an object
that says nothing about it. -/
def choice {α : Type} (choices : List α) (text : α → String) : Json → Option α
  | .string (some name) => choices.find? (text · = name)
  | .object [(some name, .null)] => choices.find? (text · = name)
  | _ => none

def set (c : Config) : Field → Json → Option Config
  | .baseAddress, .string (some text) => some { c with baseAddress := text }
  | .baseAddress, _ => none
  | .sync, .bool value => some { c with sync := value }
  | .sync, _ => none
  | .scope, value =>
    (choice NamespaceScope.all NamespaceScope.text value).map fun s => { c with scope := s }
  | .logLevel, value =>
    (choice LogLevel.all LogLevel.text value).map fun l => { c with logLevel := l }

/-- Takes the members of an object one by one. A setting is given at most once. -/
def setMembers (given : List Field) (c : Config) : List (Option String × Json) → Option Config
  | [] => some c
  | (none, _) :: _ => none
  | (some name, value) :: rest =>
    match Field.all.find? (·.name = name) with
    | none => setMembers given c rest
    | some field =>
      if field ∈ given then none
      else (c.set field value).bind fun c => setMembers (field :: given) c rest

/-- Takes the items of an array for the settings in their order. -/
def setItems (c : Config) : List Field → List Json → Option Config
  | _, [] => some c
  | [], _ :: _ => none
  | field :: fields, value :: values => (c.set field value).bind (setItems · fields values)

def ofJson : Json → Option Config
  | .object members => setMembers [] default members
  | .array items => setItems default Field.all items
  | _ => none

def read (text : String) : Except ConfigError Config :=
  match (Json.read text.toList).bind ofJson with
  | some c => .ok c
  | none => .error .malformed

def override (c : Config) (base : Option String) (sync : Option Bool)
    (scope : Option NamespaceScope) : Config :=
  { c with
    baseAddress := base.getD c.baseAddress
    sync := sync.getD c.sync
    scope := scope.getD c.scope }

def write (c : Config) : String :=
  String.join ["\x7b\"base_address\":", Json.writeString c.baseAddress,
    ",\"sync\":", if c.sync then "true" else "false",
    ",\"namespace\":", Json.writeString c.scope.text,
    ",\"log_level\":", Json.writeString c.logLevel.text, "\x7d"]

end Config

end UnitLoader
