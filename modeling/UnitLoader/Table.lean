import UnitLoader.Cache
import UnitLoader.Namespace

/-! The units of a loader as they are stored. Every unit carries its number, the numbers
stand under keys, and the counters are kept beside them: nothing is told from the units
that was noted when they were added. A cache is what can be seen of such a table. -/

namespace UnitLoader

/-- What a unit is stored under. A unit made from given text has a key of its own, which
nobody can ask for. -/
inductive UnitKey
  | address (address : String) (kind : Kind)
  | eval (serial : Nat)
deriving DecidableEq, Repr

/-- A unit with the number that it carries. -/
structure NumberedUnit (Tree Value Listener : Type) where
  id : UnitId
  unit : SourceUnit Tree Value Listener

/-- A unit that has changed carries its number still. -/
def NumberedUnit.change {Tree Value Listener : Type}
    (f : SourceUnit Tree Value Listener → SourceUnit Tree Value Listener)
    (e : NumberedUnit Tree Value Listener) : NumberedUnit Tree Value Listener :=
  { e with unit := f e.unit }

structure Table (Tree Value Listener : Type) where
  entries : List (NumberedUnit Tree Value Listener)
  keys : List (UnitKey × UnitId)
  /-- The serial number of the next unit that is made from given text. -/
  nextEval : Nat
  hits : Nat
  misses : Nat

namespace Table

variable {Tree Value Listener : Type}

def empty : Table Tree Value Listener := ⟨[], [], 0, 0, 0⟩

def size (t : Table Tree Value Listener) : Nat :=
  t.entries.length

def ids (t : Table Tree Value Listener) : List UnitId :=
  (List.range t.size).map UnitId.mk

def units (t : Table Tree Value Listener) : List (SourceUnit Tree Value Listener) :=
  t.entries.map (·.unit)

def get? (t : Table Tree Value Listener) (id : UnitId) :
    Option (NumberedUnit Tree Value Listener) :=
  t.entries[id.index]?

def modify (t : Table Tree Value Listener) (id : UnitId)
    (f : SourceUnit Tree Value Listener → SourceUnit Tree Value Listener) :
    Table Tree Value Listener :=
  { t with entries := t.entries.modify id.index (.change f) }

def lookup (t : Table Tree Value Listener) (address : String) (kind : Kind) : Option UnitId :=
  t.keys.lookup (.address address kind)

structure Found (Tree Value Listener : Type) where
  id : UnitId
  created : Bool
  table : Table Tree Value Listener

/-- Adds a unit and stores its number under a key. -/
def push (t : Table Tree Value Listener) (key : UnitKey) (address : String) (kind : Kind)
    (origin : Origin) : Found Tree Value Listener :=
  let id : UnitId := ⟨t.size⟩
  ⟨id, true, { t with
    entries := t.entries ++ [⟨id, .new address kind origin⟩]
    keys := insertKey key id t.keys }⟩

def getOrInsert (t : Table Tree Value Listener) (address : String) (kind : Kind) :
    Found Tree Value Listener :=
  match t.lookup address kind with
  | some id => ⟨id, false, { t with hits := t.hits + 1 }⟩
  | none =>
    { t with misses := t.misses + 1 }.push (.address address kind) address kind .load

def insertEval (t : Table Tree Value Listener) (base : String) (kind : Kind) :
    Found Tree Value Listener :=
  let serial := t.nextEval
  { t with nextEval := serial + 1 }.push (.eval serial)
    (base ++ "#eval-" ++ toString serial) kind .eval

def areAll (t : Table Tree Value Listener) (p : State → Bool) : Bool :=
  t.entries.all fun e => p e.unit.state

def hasAny (t : Table Tree Value Listener) (p : State → Bool) : Bool :=
  t.entries.any fun e => p e.unit.state

def stats (t : Table Tree Value Listener) : CacheStats :=
  ⟨t.hits, t.misses, t.size⟩

/-- What can be seen of a table. -/
def view (t : Table Tree Value Listener) : Cache Tree Value Listener :=
  ⟨t.units, t.hits⟩

end Table

end UnitLoader
