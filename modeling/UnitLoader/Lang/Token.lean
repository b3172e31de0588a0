import UnitLoader.Lang.Integer
import UnitLoader.Text.Identifier
import UnitLoader.Text.Shown

/-! The tokens of one line. Blanks separate tokens, a number sign starts a
comment, and everywhere else the longest token is taken. -/

namespace UnitLoader

inductive Token
  | ident (name : String)
  | int (value : Integer)
  | str (text : String)
  | equals
  | plus
  | comma
  | atSign
  | dot
  | semicolon
deriving DecidableEq, Repr, Inhabited

inductive LexError
  | invalidEscape (c : Char)
  | unterminatedString
  | integerOutOfRange (digits : List Char)
  | unexpectedChar (c : Char)
deriving DecidableEq, Repr

namespace Token

def shown : Token → String
  | ident name => String.join ["'", name, "'"]
  | int value => String.join ["'", value.text, "'"]
  | str text => String.join ["string ", Text.shown text]
  | equals => "'='"
  | plus => "'+'"
  | comma => "','"
  | atSign => "'@'"
  | dot => "'.'"
  | semicolon => "';'"

/-- Only these separate tokens: other white space is an unexpected character. -/
def isBlank (c : Char) : Bool :=
  c == ' ' || c == '\t' || c == '\r'

def punctuation? : Char → Option Token
  | '=' => some equals
  | '+' => some plus
  | ',' => some comma
  | '@' => some atSign
  | '.' => some dot
  | ';' => some semicolon
  | _ => none

def unescape? : Char → Option Char
  | 'n' => some '\n'
  | 't' => some '\t'
  | '"' => some '"'
  | '\\' => some '\\'
  | _ => none

/-- Reads the inside of a string up to its closing quotation mark, and gives
back what follows the mark. -/
def scanString : List Char → Except LexError (List Char × List Char)
  | [] => .error .unterminatedString
  | '"' :: rest => .ok ([], rest)
  | ['\\'] => .error .unterminatedString
  | '\\' :: e :: rest =>
    match unescape? e with
    | none => .error (.invalidEscape e)
    | some c => (scanString rest).map fun r => (c :: r.1, r.2)
  | c :: rest => (scanString rest).map fun r => (c :: r.1, r.2)

theorem scanString_length {cs text rest : List Char} (h : scanString cs = .ok (text, rest)) :
    rest.length < cs.length := by
  fun_induction scanString cs generalizing text rest with
  | case1 => simp at h
  | case2 tail =>
    simp only [Except.ok.injEq, Prod.mk.injEq] at h
    simp [← h.2]
  | case3 => simp at h
  | case4 => simp at h
  | case5 e tail c _ ih =>
    cases hs : scanString tail with
    | error => simp [hs, Except.map] at h
    | ok r =>
      simp only [hs, Except.map, Except.ok.injEq, Prod.mk.injEq] at h
      have := ih hs
      simp only [h.2] at this
      simp only [List.length_cons]
      omega
  | case6 c tail _ _ _ ih =>
    cases hs : scanString tail with
    | error => simp [hs, Except.map] at h
    | ok r =>
      simp only [hs, Except.map, Except.ok.injEq, Prod.mk.injEq] at h
      have := ih hs
      simp only [h.2] at this
      simp only [List.length_cons]
      omega

/-- Underscores may stand anywhere after the first digit of an integer. -/
def isIntegerChar (c : Char) : Bool :=
  c.isDigit || c == '_'

def integer? (digits : List Char) : Except LexError Token :=
  match Integer.ofNat? (Nat.ofDigitChars 10 digits 0) with
  | some value => .ok (int value)
  | none => .error (.integerOutOfRange digits)

theorem dropWhile_length_lt {p : Char → Bool} {rest : List Char} :
    (rest.dropWhile p).length < rest.length + 1 :=
  Nat.lt_succ_of_le (List.dropWhile_suffix p).length_le

def scan [Text.Xid] (line : List Char) : Except LexError (List Token) :=
  match line with
  | [] => .ok []
  | c :: rest =>
    if isBlank c then
      scan rest
    else if c = '#' then
      .ok []
    else
      match punctuation? c with
      | some token => (scan rest).map (token :: ·)
      | none =>
        if c = '"' then
          match h : scanString rest with
          | .error e => .error e
          | .ok (text, after) =>
            have : after.length < rest.length + 1 := Nat.lt_succ_of_lt (scanString_length h)
            (scan after).map (str (String.ofList text) :: ·)
        else if c.isDigit then
          have : (rest.dropWhile isIntegerChar).length < rest.length + 1 := dropWhile_length_lt
          (integer? ((c :: rest.takeWhile isIntegerChar).filter (· ≠ '_'))).bind fun token =>
            (scan (rest.dropWhile isIntegerChar)).map (token :: ·)
        else if Text.isIdentStart c then
          have : (rest.dropWhile Text.isIdentContinue).length < rest.length + 1 :=
            dropWhile_length_lt
          (scan (rest.dropWhile Text.isIdentContinue)).map
            (ident (String.ofList (c :: rest.takeWhile Text.isIdentContinue)) :: ·)
        else
          .error (.unexpectedChar c)
termination_by line.length

end Token

def LexError.message : LexError → String
  | .invalidEscape c => String.join ["invalid escape '\\", String.singleton c, "'"]
  | .unterminatedString => "unterminated string"
  | .integerOutOfRange digits =>
    String.join ["integer literal '", String.ofList digits, "' is out of range"]
  | .unexpectedChar c => String.join ["unexpected character '", String.singleton c, "'"]

end UnitLoader
