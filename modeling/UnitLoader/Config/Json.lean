/-! JSON as settings are written in it. All of a text is held against the grammar,
also those parts that no setting is read from. -/

namespace UnitLoader

namespace Config

/-- A JSON text as far as settings need it. No setting is a number, so a number is
checked and not kept. A string with half of a surrogate pair is not a text. -/
inductive Json
  | null
  | bool (value : Bool)
  | number
  | string (text : Option String)
  | array (items : List Json)
  | object (members : List (Option String × Json))

namespace Json

def isBlank (c : Char) : Bool :=
  c == ' ' || c == '\t' || c == '\n' || c == '\r'

def skipBlanks (text : List Char) : List Char :=
  text.dropWhile isBlank

/-! ### Strings -/

/-- A piece of a string: a character that stands for itself, or a unit of sixteen
bits that was written in hexadecimal digits. -/
inductive Piece
  | char (c : Char)
  | code (units : Nat)

def hexDigit? (c : Char) : Option Nat :=
  if c.isDigit then some (c.toNat - '0'.toNat)
  else if 'a' ≤ c ∧ c ≤ 'f' then some (c.toNat - 'a'.toNat + 10)
  else if 'A' ≤ c ∧ c ≤ 'F' then some (c.toNat - 'A'.toNat + 10)
  else none

def hexNumber? (digits : List Char) : Option Nat :=
  digits.foldlM (fun n c => (hexDigit? c).map (16 * n + ·)) 0

def escape? : Char → Option Char
  | '"' => some '"'
  | '\\' => some '\\'
  | '/' => some '/'
  | 'b' => some '\x08'
  | 'f' => some '\x0c'
  | 'n' => some '\n'
  | 'r' => some '\r'
  | 't' => some '\t'
  | _ => none

/-- The pieces of a string up to its closing quote, and what follows that. -/
def pieces : List Char → Option (List Piece × List Char)
  | [] => none
  | '"' :: rest => some ([], rest)
  | '\\' :: 'u' :: a :: b :: c :: d :: rest => do
    let units ← hexNumber? [a, b, c, d]
    let (more, rest) ← pieces rest
    return (.code units :: more, rest)
  | '\\' :: e :: rest => do
    let c ← escape? e
    let (more, rest) ← pieces rest
    return (.char c :: more, rest)
  | c :: rest =>
    if c.toNat < 0x20 ∨ c = '\\' then none
    else do
      let (more, rest) ← pieces rest
      return (.char c :: more, rest)

/-- The text of some pieces. A high surrogate counts only together with the low one
that follows it. -/
def joinPieces : List Piece → Option (List Char)
  | [] => some []
  | .char c :: rest => (joinPieces rest).map (c :: ·)
  | .code high :: .code low :: rest =>
    if 0xD800 ≤ high ∧ high < 0xDC00 then
      if 0xDC00 ≤ low ∧ low < 0xE000 then
        (joinPieces rest).map
          (Char.ofNat (0x10000 + (high - 0xD800) * 0x400 + (low - 0xDC00)) :: ·)
      else none
    else if 0xDC00 ≤ high ∧ high < 0xE000 then none
    else (joinPieces (.code low :: rest)).map (Char.ofNat high :: ·)
  | .code units :: rest =>
    if 0xD800 ≤ units ∧ units < 0xE000 then none
    else (joinPieces rest).map (Char.ofNat units :: ·)

/-- A string whose opening quote has been read. -/
def stringTail (text : List Char) : Option (Option String × List Char) :=
  (pieces text).map fun (found, rest) => ((joinPieces found).map String.ofList, rest)

/-! ### Numbers -/

/-- The rest after at least one digit. -/
def digits? (text : List Char) : Option (List Char) :=
  match text with
  | c :: rest => if c.isDigit then some (rest.dropWhile Char.isDigit) else none
  | [] => none

/-- The rest after an integer part, which has no needless zero in front. -/
def integer? : List Char → Option (List Char)
  | '0' :: c :: rest => if c.isDigit then none else some (c :: rest)
  | text => digits? text

def fraction? : List Char → Option (List Char)
  | '.' :: rest => digits? rest
  | text => some text

def exponent? : List Char → Option (List Char)
  | e :: rest =>
    if e = 'e' ∨ e = 'E' then
      match rest with
      | '+' :: rest => digits? rest
      | '-' :: rest => digits? rest
      | rest => digits? rest
    else some (e :: rest)
  | [] => some []

def number? (text : List Char) : Option (List Char) :=
  let unsigned := match text with
    | '-' :: rest => rest
    | text => text
  ((integer? unsigned).bind fraction?).bind exponent?

/-! ### Values -/

mutual

/-- A value, and what follows it. Each call takes a character or goes over to a
value, so twice as many levels as there are characters are enough. -/
def value : Nat → List Char → Option (Json × List Char)
  | 0, _ => none
  | depth + 1, text =>
    match skipBlanks text with
    | 'n' :: 'u' :: 'l' :: 'l' :: rest => some (null, rest)
    | 't' :: 'r' :: 'u' :: 'e' :: rest => some (bool true, rest)
    | 'f' :: 'a' :: 'l' :: 's' :: 'e' :: rest => some (bool false, rest)
    | '"' :: rest => (stringTail rest).map fun (s, rest) => (string s, rest)
    | '[' :: rest =>
      match skipBlanks rest with
      | ']' :: rest => some (array [], rest)
      | rest => (items depth rest).map fun (xs, rest) => (array xs, rest)
    | '{' :: rest =>
      match skipBlanks rest with
      | '}' :: rest => some (object [], rest)
      | rest => (members depth rest).map fun (xs, rest) => (object xs, rest)
    | text => (number? text).map fun rest => (number, rest)

/-- The items of an array up to its closing bracket, of which there is at least one. -/
def items : Nat → List Char → Option (List Json × List Char)
  | 0, _ => none
  | depth + 1, text => do
    let (x, rest) ← value depth text
    match skipBlanks rest with
    | ',' :: rest =>
      let (xs, rest) ← items depth rest
      return (x :: xs, rest)
    | ']' :: rest => return ([x], rest)
    | _ => none

/-- The members of an object up to its closing brace, of which there is at least one. -/
def members : Nat → List Char → Option (List (Option String × Json) × List Char)
  | 0, _ => none
  | depth + 1, text =>
    match skipBlanks text with
    | '"' :: rest => do
      let (name, rest) ← stringTail rest
      match skipBlanks rest with
      | ':' :: rest =>
        let (x, rest) ← value depth rest
        match skipBlanks rest with
        | ',' :: rest =>
          let (xs, rest) ← members depth rest
          return ((name, x) :: xs, rest)
        | '}' :: rest => return ([(name, x)], rest)
        | _ => none
      | _ => none
    | _ => none

end

def read (text : List Char) : Option Json :=
  match value (2 * text.length + 2) text with
  | some (x, rest) => if (skipBlanks rest).isEmpty then some x else none
  | none => none

/-! ### Writing -/

/-- A character inside the quotes of a string. -/
def writeChar (c : Char) : List Char :=
  match c with
  | '"' => ['\\', '"']
  | '\\' => ['\\', '\\']
  | '\x08' => ['\\', 'b']
  | '\x0c' => ['\\', 'f']
  | '\n' => ['\\', 'n']
  | '\r' => ['\\', 'r']
  | '\t' => ['\\', 't']
  | c =>
    if c.toNat < 0x20 then
      ['\\', 'u', '0', '0', Nat.digitChar (c.toNat / 16), Nat.digitChar (c.toNat % 16)]
    else [c]

def writeString (text : String) : String :=
  String.ofList ('"' :: (text.toList.flatMap writeChar ++ ['"']))

end Json

end Config

end UnitLoader
