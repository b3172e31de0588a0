import UnitLoader.SourceUnit

/-! The units of a loader, in the order of their discovery. A fetched unit is found
again by its address and kind; a unit made from given text never is. Units are
never removed, so a unit's number names it for good. -/

namespace UnitLoader

structure CacheStats where
  hits : Nat
  misses : Nat
  entries : Nat
deriving DecidableEq, Repr

structure Cache (Tree Value Listener : Type) where
  units : List (SourceUnit Tree Value Listener)
  /-- How often a unit was asked for that was already there. -/
  hits : Nat

namespace Cache

variable {Tree Value Listener : Type}

def empty : Cache Tree Value Listener := ⟨[], 0⟩

def size (c : Cache Tree Value Listener) : Nat :=
  c.units.length

def ids (c : Cache Tree Value Listener) : List UnitId :=
  (List.range c.size).map UnitId.mk

def get? (c : Cache Tree Value Listener) (id : UnitId) :
    Option (SourceUnit Tree Value Listener) :=
  c.units[id.index]?

def modify (c : Cache Tree Value Listener) (id : UnitId)
    (f : SourceUnit Tree Value Listener → SourceUnit Tree Value Listener) :
    Cache Tree Value Listener :=
  { c with units := c.units.modify id.index f }

def isAt (address : String) (kind : Kind) (u : SourceUnit Tree Value Listener) : Bool :=
  u.origin = .load && u.address = address && u.kind = kind

def lookup (c : Cache Tree Value Listener) (address : String) (kind : Kind) : Option UnitId :=
  (c.units.findIdx? (isAt address kind)).map UnitId.mk

def push (c : Cache Tree Value Listener) (u : SourceUnit Tree Value Listener) :
    Cache Tree Value Listener :=
  { c with units := c.units ++ [u] }

structure Found (Tree Value Listener : Type) where
  id : UnitId
  created : Bool
  cache : Cache Tree Value Listener

/-- Finds the unit of an address and kind, or adds it. -/
def getOrInsert (c : Cache Tree Value Listener) (address : String) (kind : Kind) :
    Found Tree Value Listener :=
  match c.lookup address kind with
  | some id => ⟨id, false, { c with hits := c.hits + 1 }⟩
  | none => ⟨⟨c.size⟩, true, c.push (.new address kind .load)⟩

def countOf (c : Cache Tree Value Listener) (origin : Origin) : Nat :=
  c.units.countP (·.origin = origin)

def nextEvalAddress (c : Cache Tree Value Listener) (base : String) : String :=
  base ++ "#eval-" ++ toString (c.countOf .eval)

def insertEval (c : Cache Tree Value Listener) (base : String) (kind : Kind) :
    Found Tree Value Listener :=
  ⟨⟨c.size⟩, true, c.push (.new (c.nextEvalAddress base) kind .eval)⟩

def areAll (c : Cache Tree Value Listener) (p : State → Bool) : Bool :=
  c.units.all fun u => p u.state

def hasAny (c : Cache Tree Value Listener) (p : State → Bool) : Bool :=
  c.units.any fun u => p u.state

def state? (c : Cache Tree Value Listener) (id : UnitId) : Option State :=
  (c.get? id).map (·.state)

def isIn (c : Cache Tree Value Listener) (state : State) (id : UnitId) : Bool :=
  c.state? id = some state

/-- The address of a unit; a number that no unit has gives an empty one. -/
def addressOf (c : Cache Tree Value Listener) (id : UnitId) : String :=
  ((c.get? id).map (·.address)).getD ""

def dependencyIds (c : Cache Tree Value Listener) (id : UnitId) : List UnitId :=
  ((c.get? id).map (·.dependencyIds)).getD []

/-- A unit that was fetched was missing once, when it was first asked for. -/
def stats (c : Cache Tree Value Listener) : CacheStats :=
  ⟨c.hits, c.countOf .load, c.size⟩

end Cache

/-- A number of millionths, as a decimal fraction with six places. -/
def sixPlaces (millionths : Nat) : String :=
  let fraction := String.ofList (Nat.toDigits 10 (millionths % 1000000))
  String.join [toString (millionths / 1000000), ".", "".pushn '0' (6 - fraction.length), fraction]

/-- A quotient rounded to the nearest whole number, a half to the even neighbour. -/
def roundDiv (num den : Nat) : Nat :=
  let q := num / den
  let twice := 2 * (num % den)
  if twice < den ∨ twice = den ∧ q % 2 = 0 then q else q + 1

/-- The percentage of requests that found their unit, zero when there were none. -/
def CacheStats.hitRate (s : CacheStats) : String :=
  if s.hits + s.misses = 0 then sixPlaces 0
  else sixPlaces (roundDiv (s.hits * 100000000) (s.hits + s.misses))

end UnitLoader
