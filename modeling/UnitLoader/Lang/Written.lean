import UnitLoader.Lang.Program
import UnitLoader.Lang.Token

/-! Programs written as source text, one statement to a line. -/

namespace UnitLoader

namespace Written

/-- A carriage return stands for itself inside a string. -/
def escape (c : Char) : List Char :=
  match c with
  | '"' => ['\\', '"']
  | '\\' => ['\\', '\\']
  | '\n' => ['\\', 'n']
  | '\t' => ['\\', 't']
  | c => [c]

def string (text : String) : List Char :=
  '"' :: (text.toList.flatMap escape ++ ['"'])

def equalsSign : List Char := [' ', '=', ' ']
def plusSign : List Char := [' ', '+', ' ']

/-- A sum is written without brackets, so only a sum that leans to the left reads
back as it was. -/
def expr : Expr → List Char
  | .int value => value.digits
  | .str text => string text
  | .name word => word.toList
  | .published address word => '@' :: (string address ++ '.' :: word.toList)
  | .add left right => expr left ++ plusSign ++ expr right

def importWord : List Char := ['i', 'm', 'p', 'o', 'r', 't', ' ']
def fromWord : List Char := [' ', 'f', 'r', 'o', 'm', ' ']
def exportWord : List Char := ['e', 'x', 'p', 'o', 'r', 't', ' ']
def letWord : List Char := ['l', 'e', 't', ' ']
def throwWord : List Char := ['t', 'h', 'r', 'o', 'w', ' ']
def publishWord : List Char := ['p', 'u', 'b', 'l', 'i', 's', 'h', ' ']

def names (words : List String) : List Char :=
  [',', ' '].intercalate (words.map String.toList)

def stmt : Stmt → List Char
  | .imports [] specifier => importWord ++ string specifier
  | .imports words specifier => importWord ++ names words ++ fromWord ++ string specifier
  | .exports word value => exportWord ++ word.toList ++ equalsSign ++ expr value
  | .binds word value => letWord ++ word.toList ++ equalsSign ++ expr value
  | .publishes address word => publishWord ++ string address ++ ' ' :: word.toList
  | .throws value => throwWord ++ expr value
  | .eval value => expr value

end Written

def Program.write (p : Program) : String :=
  String.ofList (p.lines.flatMap fun line => Written.stmt line.stmt ++ ['\n'])

end UnitLoader
