import UnitLoader.Address
import UnitLoader.Config
import UnitLoader.Host.Agenda

/-! Setting loaders up. A loader gets a namespace of its own, unless it is given the
one that several loaders have in common. -/

namespace UnitLoader

structure Setup (Tree Value : Type) where
  tools : Toolchain Tree Value
  config : Config
  resolver : Resolver
  translate : String → String
  fetcher : Fetcher
  /-- Defined in the namespace before anything is executed in it. -/
  globals : List (String × Value)

namespace Setup

variable {Tree Value Listener : Type}

/-- A loader of a language, with all that was not asked for as usual. -/
def plain (tools : Toolchain Tree Value) (config : Config) (fetcher : Fetcher) :
    Setup Tree Value :=
  ⟨tools, config, Address.resolve, id, fetcher, []⟩

/-- The namespace that a loader starts with. One that is to share its namespace
needs to be given one; one that is given a namespace shares it. -/
def startNamespace (config : Config) (given : Option (Namespace Value)) :
    Except LoaderError (Namespace Value) :=
  match config.scope, given with
  | _, some ns => .ok ns
  | .shared, none => .error .missingNamespace
  | .loader, none => .ok .empty

def start (setup : Setup Tree Value) (given : Option (Namespace Value)) :
    Except LoaderError (Session Tree Value Listener) :=
  (startNamespace setup.config given).map fun ns =>
    .fresh setup.tools setup.config.baseAddress setup.config.sync setup.resolver
      setup.translate setup.fetcher
      (setup.globals.foldl (fun ns g => ns.define g.1 g.2) ns)

end Setup

namespace Host

variable {Tree Value : Type}

def commonNamespace (h : Host Tree Value) : Namespace Value :=
  ((h.seats.find? (·.sharing)).map (·.session.ns)).getD .empty

def addLoader (h : Host Tree Value) (setup : Setup Tree Value) (sharing : Bool) :
    Except LoaderError (Host Tree Value) :=
  (setup.start (if sharing then some h.commonNamespace else none)).map fun s =>
    { h with seats := reseat (h.seats ++ [⟨s, sharing, false⟩]) h.seats.length s }

end Host

end UnitLoader
