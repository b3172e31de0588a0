import UnitLoader.Text.Lines

/-! What the units of a loader know of each other: the source files seen so far,
which of them were parsed, and for each address the names that it exports. -/

namespace UnitLoader

structure SourceFile where
  name : String
  contents : String
deriving DecidableEq, Repr

/-- Lines are counted from one. -/
def SourceFile.line? (file : SourceFile) (number : Nat) : Option String :=
  match number with
  | 0 => none
  | index + 1 => ((Text.lines file.contents.toList)[index]?).map String.ofList

/-- The exported names of an address, in the order of their first declaration. -/
structure ModuleSymbol where
  address : String
  exports : List String
deriving DecidableEq, Repr

/-- Turns a specifier and the address that it stands in into an address. -/
abbrev Resolver := String → String → String

structure Project where
  root : String
  resolver : Resolver
  files : List SourceFile
  parsed : List String
  modules : List ModuleSymbol

inductive ExportError
  | notLoaded (address : String)
  | noExport (address name : String) (available : List String)
deriving DecidableEq, Repr

def ExportError.message : ExportError → String
  | .notLoaded address => String.join ["module '", address, "' is not loaded"]
  | .noExport address name [] => String.join ["module '", address, "' has no export '", name, "'"]
  | .noExport address name available =>
    String.join ["module '", address, "' has no export '", name, "' (available: ",
      ", ".intercalate available, ")"]

namespace Project

def empty (root : String) (resolver : Resolver) : Project :=
  ⟨root, resolver, [], [], []⟩

/-- A file takes the place of the one with the same name. -/
def putFile (file : SourceFile) : List SourceFile → List SourceFile
  | [] => [file]
  | other :: rest => if other.name = file.name then file :: rest else other :: putFile file rest

def addFile (p : Project) (file : SourceFile) : Project :=
  { p with files := putFile file p.files }

def file? (p : Project) (name : String) : Option SourceFile :=
  p.files.find? (·.name = name)

def setParsed (p : Project) (name : String) : Project :=
  if name ∈ p.parsed then p else { p with parsed := p.parsed ++ [name] }

def isParsed (p : Project) (name : String) : Bool :=
  p.parsed.contains name

def module? (p : Project) (address : String) : Option ModuleSymbol :=
  p.modules.find? (·.address = address)

def hasModule (p : Project) (address : String) : Bool :=
  (p.module? address).isSome

/-- Registers an address; one that is known keeps its exports. -/
def addModule (p : Project) (address : String) : Project :=
  if p.hasModule address then p else { p with modules := p.modules ++ [⟨address, []⟩] }

def exportsOf (p : Project) (address : String) : List String :=
  match p.module? address with
  | some symbol => symbol.exports
  | none => []

def hasExport (p : Project) (address name : String) : Bool :=
  (p.exportsOf address).contains name

def putExport (address name : String) (symbol : ModuleSymbol) : ModuleSymbol :=
  if symbol.address = address ∧ name ∉ symbol.exports then
    { symbol with exports := symbol.exports ++ [name] }
  else symbol

def addExport (p : Project) (address name : String) : Project :=
  { p with modules := p.modules.map (putExport address name) }

def resolve (p : Project) (specifier base : String) : String :=
  p.resolver specifier base

def resolveExport (p : Project) (address name : String) : Except ExportError Unit :=
  match p.module? address with
  | none => .error (.notLoaded address)
  | some symbol =>
    if name ∈ symbol.exports then .ok () else .error (.noExport address name symbol.exports)

end Project

end UnitLoader
