/-! Addresses and how an import specifier names one. An address may begin with an
origin, a scheme with an authority as in `scheme://host`; the rest is a path of
segments between slashes. A normal path has no empty segment and no `.`, and a
`..` only where there is nothing left to climb out of. -/

namespace UnitLoader

namespace Address

def isSchemeChar (c : Char) : Bool :=
  c.isAlphanum || c == '+' || c == '-' || c == '.'

/-- What stands before and after the first `://`. -/
def cutMark : List Char → Option (List Char × List Char)
  | [] => none
  | ':' :: '/' :: '/' :: rest => some ([], rest)
  | c :: rest => (cutMark rest).map fun r => (c :: r.1, r.2)

/-- The scheme of an address and what follows its mark. -/
def scheme? (address : List Char) : Option (List Char × List Char) :=
  match cutMark address with
  | some (scheme, after) =>
    if scheme ≠ [] ∧ scheme.all isSchemeChar then some (scheme, after) else none
  | none => none

/-- An address cut into its origin, empty when it has none, and its path. -/
def cutOrigin (address : List Char) : List Char × List Char :=
  match scheme? address with
  | none => ([], address)
  | some (scheme, after) =>
    (scheme ++ [':', '/', '/'] ++ after.takeWhile (· ≠ '/'), after.dropWhile (· ≠ '/'))

/-- An address as origin, rootedness and segments. -/
structure Location where
  origin : List Char
  rooted : Bool
  segments : List (List Char)
deriving DecidableEq, Repr

def parent : List Char := ['.', '.']

namespace Location

/-- A path below an origin counts as rooted, even an empty one. -/
def ofText (address : List Char) : Location :=
  let (origin, path) := cutOrigin address
  ⟨origin, !origin.isEmpty || path.head? == some '/', path.splitOn '/'⟩

/-- Takes one more segment onto a path whose segments are held last first. -/
def step (rooted : Bool) (path : List (List Char)) (segment : List Char) : List (List Char) :=
  if segment = [] ∨ segment = ['.'] then path
  else if segment = parent then
    match path with
    | [] => if rooted then [] else [parent]
    | last :: before =>
      if last ≠ parent then before else if rooted then path else parent :: path
  else segment :: path

def normalize (l : Location) : Location :=
  { l with segments := (l.segments.foldl (step l.rooted) []).reverse }

/-- The address with these parts. No address is empty. -/
def text (l : Location) : List Char :=
  let out := l.origin ++ (if l.rooted then ['/'] else []) ++ ['/'].intercalate l.segments
  if out.isEmpty then ['.'] else out

end Location

def normalizeChars (address : List Char) : List Char :=
  (Location.ofText address).normalize.text

/-- The part of a path up to its last slash, which it keeps. -/
def upToLastSlash (path : List Char) : List Char :=
  (path.reverse.dropWhile (· ≠ '/')).reverse

def directory (base : List Char) : List Char :=
  let (origin, path) := cutOrigin base
  origin ++ upToLastSlash path

def isAbsoluteChars (specifier : List Char) : Bool :=
  specifier.head? == some '/' || (scheme? specifier).isSome

def join (dir specifier : List Char) : List Char :=
  if dir.isEmpty || dir.getLast? == some '/' then dir ++ specifier else dir ++ '/' :: specifier

def resolveChars (specifier base : List Char) : List Char :=
  if isAbsoluteChars specifier then normalizeChars specifier
  else normalizeChars (join (directory base) specifier)

def normalize (address : String) : String :=
  String.ofList (normalizeChars address.toList)

def isAbsolute (specifier : String) : Bool :=
  isAbsoluteChars specifier.toList

/-- The address that `specifier` names when it stands in the unit at `base`. -/
def resolve (specifier base : String) : String :=
  String.ofList (resolveChars specifier.toList base.toList)

end Address

end UnitLoader
