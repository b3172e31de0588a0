/-! The integers of the language. They have 64 bits, one of which is the sign, and
what does not fit is no integer. -/

namespace UnitLoader

structure Integer where
  toInt : Int
  inRange : -9223372036854775808 ≤ toInt ∧ toInt ≤ 9223372036854775807
deriving DecidableEq, Repr

namespace Integer

instance : Inhabited Integer := ⟨0, by decide⟩

def ofInt? (n : Int) : Option Integer :=
  if h : -9223372036854775808 ≤ n ∧ n ≤ 9223372036854775807 then some ⟨n, h⟩ else none

def ofNat? (n : Nat) : Option Integer :=
  if h : n ≤ 9223372036854775807 then some ⟨n, by omega⟩ else none

def add? (a b : Integer) : Option Integer :=
  ofInt? (a.toInt + b.toInt)

/-- The decimal digits of an integer, after a minus sign when it is negative. -/
def digits (n : Integer) : List Char :=
  if n.toInt < 0 then '-' :: Nat.toDigits 10 n.toInt.natAbs else Nat.toDigits 10 n.toInt.natAbs

def text (n : Integer) : String :=
  String.ofList n.digits

end Integer

end UnitLoader
