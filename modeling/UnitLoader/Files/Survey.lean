import UnitLoader.Files

/-! A disk of which some paths were looked at. At the others there is nothing. -/

namespace UnitLoader

structure Finding where
  path : String
  canonical : Except FileError String
  content : Except FileError ByteArray

structure Survey where
  workingDirectory : String
  findings : List Finding

namespace Survey

def at? (s : Survey) (path : String) : Option Finding :=
  s.findings.find? (·.path = path)

def disk (s : Survey) : Disk where
  workingDirectory := s.workingDirectory
  canonical path :=
    match s.at? path with
    | some found => found.canonical
    | none => .error .missing
  read path :=
    match s.at? path with
    | some found => found.content.bind Files.decode
    | none => .error .missing

def unknown (s : Survey) (paths : List String) : List String :=
  (paths.filter fun path => (s.at? path).isNone).eraseDups

def add (s : Survey) (findings : List Finding) : Survey :=
  { s with findings := s.findings ++ findings }

end Survey

end UnitLoader
