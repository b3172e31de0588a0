import UnitLoader.Lang.Token
import UnitLoader.Namespace

/-! Values and expressions of the language. Integers have 64 bits and a sum that
leaves their range is an error; a sum with a string joins the texts of both. -/

namespace UnitLoader

inductive Value
  | unit
  | int (value : Integer)
  | str (text : String)
deriving DecidableEq, Repr, Inhabited

inductive ExecError
  | undefined (name : String)
  | unpublished (address name : String)
  | overflow (left right : Integer)
  | unitOperand
  | uncaught (value : Value)
deriving DecidableEq, Repr

namespace Value

def text : Value → String
  | unit => "()"
  | int value => value.text
  | str text => text

def add : Value → Value → Except ExecError Value
  | int a, int b =>
    match a.add? b with
    | some sum => .ok (int sum)
    | none => .error (.overflow a b)
  | unit, _ => .error .unitOperand
  | _, unit => .error .unitOperand
  | a, b => .ok (str (a.text ++ b.text))

end Value

def ExecError.message : ExecError → String
  | .undefined name => String.join ["'", name, "' is not defined"]
  | .unpublished address name => String.join ["'", address, "' has not published '", name, "'"]
  | .overflow a b => String.join ["integer overflow in ", a.text, " + ", b.text]
  | .unitOperand => "cannot add '()'"
  | .uncaught value => String.join ["uncaught ", value.text]

def publishedKey (address name : String) : String :=
  address ++ "::" ++ name

end UnitLoader
