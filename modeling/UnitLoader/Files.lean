import UnitLoader.Address
import UnitLoader.Fetcher

/-! Files as sources. A disk gives the text of the file at a path; an address names
a path, possibly below a root. -/

namespace UnitLoader

inductive FileError
  | missing
  | notDirectory
  | isDirectory
  | nameTooLong
  | nulInName
  | notText
  /-- Any other reason of the operating system, with its number. -/
  | refused (reason : String) (number : Nat)
deriving DecidableEq, Repr

def FileError.text : FileError → String
  | .missing => "No such file or directory (os error 2)"
  | .notDirectory => "Not a directory (os error 20)"
  | .isDirectory => "Is a directory (os error 21)"
  | .nameTooLong => "File name too long (os error 36)"
  | .nulInName => "file name contained an unexpected NUL byte"
  | .notText => "stream did not contain valid UTF-8"
  | .refused reason number => String.join [reason, " (os error ", toString number, ")"]

def FileError.ofNumber (reason : String) : Nat → FileError
  | 2 => .missing
  | 20 => .notDirectory
  | 21 => .isDirectory
  | 36 => .nameTooLong
  | number => .refused reason number

/-- A disk as a loader sees it. -/
structure Disk where
  workingDirectory : String
  /-- The absolute path of what is at a path, without `.` and `..`. -/
  canonical : String → Except FileError String
  read : String → Except FileError String

namespace Files

def decode (content : ByteArray) : Except FileError String :=
  match String.fromUTF8? content with
  | some text => .ok text
  | none => .error .notText

/-- What follows the mark of a file address, or all of another address. -/
def afterMark : List Char → List Char
  | 'f' :: 'i' :: 'l' :: 'e' :: ':' :: '/' :: '/' :: rest => rest
  | address => address

def pathFor (root : Option String) (address : String) : String :=
  let path := afterMark address.toList
  match root with
  | none => String.ofList path
  | some root => String.ofList (Address.join root.toList (path.dropWhile (· == '/')))

def addressOf (path : String) : String :=
  path.map fun c => if c = '\\' then '/' else c

def fetch (disk : Disk) (root : Option String) (address : String) : Except FetchError String :=
  match disk.read (pathFor root address) with
  | .ok text => .ok text
  | .error .missing => .error (.notFound address)
  | .error e => .error (.unreadable address e.text)

/-- More files than a disk holds, which counts them with 64 bits. -/
def most : Nat := 18446744073709551616

def fetcher (disk : Disk) (root : Option String) : Fetcher :=
  ⟨fetch disk root, most, true, [], []⟩

end Files

end UnitLoader
