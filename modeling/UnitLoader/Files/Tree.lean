import UnitLoader.Files

/-! A disk with given files. Paths are followed name by name, and each name is
looked up in a directory. -/

namespace UnitLoader

inductive FileNode
  | file (content : ByteArray)
  | directory

structure FileTree where
  /-- What there is, by its names from the top down. -/
  nodes : List (List (List Char) × FileNode)
  workingDirectory : List (List Char)

namespace FileTree

/-- What is at a place, given by its names from the bottom up. -/
def node? (t : FileTree) (place : List (List Char)) : Option FileNode :=
  if place = [] then some .directory else t.nodes.lookup place.reverse

def parent : List Char := ['.', '.']

/-- Takes one more name. An empty name is that of the directory itself. -/
def enter (t : FileTree) (place : List (List Char)) (name : List Char) :
    Except FileError (List (List Char)) :=
  match t.node? place with
  | some .directory =>
    if name = [] ∨ name = ['.'] then .ok place
    else if name = parent then .ok place.tail
    else if 255 < (String.ofList name).utf8ByteSize then .error .nameTooLong
    else
      match t.node? (name :: place) with
      | some _ => .ok (name :: place)
      | none => .error .missing
  | _ => .error .notDirectory

def pathOf (place : List (List Char)) : String :=
  String.ofList ('/' :: ['/'].intercalate place.reverse)

/-- A path of so many bytes is too long for one request. -/
def pathLimit : Nat := 4096

/-- Takes one more name by a request of its own, with the path up to this name. -/
def ask (t : FileTree) (place : List (List Char)) (name : List Char) :
    Except FileError (List (List Char)) :=
  if name ∉ [[], ['.'], parent] ∧ pathLimit ≤ (pathOf (name :: place)).utf8ByteSize then
    .error .nameTooLong
  else t.enter place name

def start (t : FileTree) (path : String) : Except FileError (List (List Char)) :=
  if path.contains '\x00' then .error .nulInName
  else if path.isEmpty then .error .missing
  else if path.toList.head? = some '/' then .ok []
  else .ok t.workingDirectory.reverse

/-- The place that a path leads to, found in one request. -/
def locate (t : FileTree) (path : String) : Except FileError (List (List Char)) :=
  (t.start path).bind fun place =>
    if pathLimit ≤ path.utf8ByteSize then .error .nameTooLong
    else (path.toList.splitOn '/').foldlM t.enter place

/-- The place that a path of any length leads to, found name by name. -/
def trace (t : FileTree) (path : String) : Except FileError (List (List Char)) :=
  (t.start path).bind fun place => (path.toList.splitOn '/').foldlM t.ask place

def read (t : FileTree) (path : String) : Except FileError String :=
  (t.locate path).bind fun place =>
    match t.node? place with
    | none => .error .missing
    | some .directory => .error .isDirectory
    | some (.file content) => Files.decode content

def disk (t : FileTree) : Disk where
  workingDirectory := pathOf t.workingDirectory.reverse
  canonical path := (t.trace path).map pathOf
  read := t.read

def namesOf (path : String) : List (List Char) :=
  (path.toList.splitOn '/').filter (· ∉ [[], ['.']])

def put (t : FileTree) (place : List (List Char)) (node : FileNode) : FileTree :=
  { t with nodes := (place.reverse, node) :: t.nodes }

def makeDirectory (t : FileTree) (place : List (List Char)) : FileTree :=
  if (t.node? place).isSome then t else t.put place .directory

/-- Puts something at the place that names lead to from another one. Directories
that are missing on the way are made, also those that a later name leaves again. -/
def add (t : FileTree) (node : FileNode) (place : List (List Char)) :
    List (List Char) → FileTree
  | [] => t
  | name :: rest =>
    let next := if name = parent then place.tail else name :: place
    if rest = [] then t.put next node
    else (t.makeDirectory next).add node next rest

def below (directory : String) (files : List (String × FileNode)) : FileTree :=
  let names := namesOf directory
  files.foldl (fun t f => t.add f.2 names.reverse (namesOf f.1))
    ((FileTree.mk [] names).add .directory [] names)

end FileTree

end UnitLoader
