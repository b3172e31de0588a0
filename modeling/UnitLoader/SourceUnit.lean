import UnitLoader.Failure
import UnitLoader.Kind

/-! Source units and the states they pass through. A unit only moves forward, and
nothing leaves the two settled states, complete and error. -/

namespace UnitLoader

inductive State
  | notStarted
  | loading
  | loaded
  | parsed
  | transformed
  | complete
  | error
deriving DecidableEq, Repr

namespace State

def rank : State → Nat
  | notStarted => 0
  | loading => 1
  | loaded => 2
  | parsed => 3
  | transformed => 4
  | complete => 5
  | error => 6

def text : State → String
  | notStarted => "not-started"
  | loading => "loading"
  | loaded => "loaded"
  | parsed => "parsed"
  | transformed => "transformed"
  | complete => "complete"
  | error => "error"

def isSettled : State → Bool
  | complete => true
  | error => true
  | _ => false

/-- Whether parsing lies behind a unit, or it failed. -/
def isPastParsing (s : State) : Bool :=
  parsed.rank ≤ s.rank

/-- Whether a unit may go from one state to another. Staying is allowed. -/
def mayBecome (old new : State) : Bool :=
  old.rank ≤ new.rank && !(old = complete && new = error)

theorem rank_injective {s t : State} (h : s.rank = t.rank) : s = t := by
  cases s <;> cases t <;> first | rfl | cases h

end State

structure UnitId where
  index : Nat
deriving DecidableEq, Repr

def UnitId.shown (id : UnitId) : String :=
  "#" ++ toString id.index

/-- Where the text of a unit comes from: it is fetched from its address, or given. -/
inductive Origin
  | load
  | eval
deriving DecidableEq, Repr

namespace Origin

/-- A unit that is given its text has nothing to fetch. -/
def initialState : Origin → State
  | load => .notStarted
  | eval => .loaded

/-- Whether the imports of a unit are resolved against the base address of its
loader instead of its own address. -/
def resolvesAgainstBase : Origin → Bool
  | load => false
  | eval => true

end Origin

inductive LoaderError
  | invalidTransition (address : String) (old new : State)
  | alreadySettled (address : String)
  | dependenciesFrozen (address : String)
  | unresolved (address : String) (pending : List String)
  | failed (cause : LoadError)
  | unknownUnit (id : UnitId)
  | missingNamespace
deriving DecidableEq, Repr

def LoaderError.text : LoaderError → String
  | .invalidTransition a old new =>
    String.join ["invalid state change for '", a, "': ", old.text, " -> ", new.text]
  | .alreadySettled a => String.join ["'", a, "' is already settled"]
  | .dependenciesFrozen a => String.join ["dependencies of '", a, "' are already fixed"]
  | .unresolved a pending =>
    String.join ["'", a, "' has unresolved module references: ", ", ".intercalate pending]
  | .failed cause => cause.text
  | .unknownUnit id => String.join ["unknown unit ", id.shown]
  | .missingNamespace => "shared namespace scope selected but no namespace was supplied"

inductive Outcome (Value : Type)
  | complete (value : Value)
  | failed (error : LoadError)
deriving DecidableEq, Repr

/-- A unit. `transformed` and `text` are given up once the unit has been executed;
`cancellable` tells that a fetch of it is under way and can be cancelled. -/
structure SourceUnit (Tree Value Listener : Type) where
  address : String
  kind : Kind
  origin : Origin
  state : State
  text : Option String
  tree : Option Tree
  dependencies : Option (List UnitId)
  transformed : Option Tree
  result : Option Value
  error : Option LoadError
  listeners : List Listener
  cancellable : Bool

namespace SourceUnit

variable {Tree Value Listener : Type}

def new (address : String) (kind : Kind) (origin : Origin) : SourceUnit Tree Value Listener where
  address := address
  kind := kind
  origin := origin
  state := origin.initialState
  text := none
  tree := none
  dependencies := none
  transformed := none
  result := none
  error := none
  listeners := []
  cancellable := false

def dependencyIds (u : SourceUnit Tree Value Listener) : List UnitId :=
  u.dependencies.getD []

def setState (u : SourceUnit Tree Value Listener) (state : State) :
    Except LoaderError (SourceUnit Tree Value Listener) :=
  if u.state.mayBecome state then .ok { u with state := state }
  else .error (.invalidTransition u.address u.state state)

/-- Moves a unit to a state, or leaves it where it is when it may not go there. -/
def advance (u : SourceUnit Tree Value Listener) (state : State) :
    SourceUnit Tree Value Listener :=
  if u.state.mayBecome state then { u with state := state } else u

/-- A settled unit has nothing left to tell a listener. -/
def addListener (u : SourceUnit Tree Value Listener) (listener : Listener) :
    Except LoaderError (SourceUnit Tree Value Listener) :=
  if u.state.isSettled then .error (.alreadySettled u.address)
  else .ok { u with listeners := u.listeners ++ [listener] }

/-- The first error is the one that counts. -/
def recordError (u : SourceUnit Tree Value Listener) (error : LoadError) :
    SourceUnit Tree Value Listener :=
  { u with error := some (u.error.getD error) }

/-- Settles a unit with an error; a settled unit stays as it is. -/
def fail (u : SourceUnit Tree Value Listener) (error : LoadError) :
    SourceUnit Tree Value Listener :=
  if u.state.isSettled then u else { u.recordError error with state := .error }

/-- Dependencies are fixed once. -/
def fixDependencies (u : SourceUnit Tree Value Listener) (ids : List UnitId) :
    SourceUnit Tree Value Listener :=
  { u with dependencies := some (u.dependencies.getD ids) }

/-- The value of an executed unit is all that is kept of its code. -/
def finish (u : SourceUnit Tree Value Listener) (value : Value) :
    SourceUnit Tree Value Listener :=
  { u with result := some value, text := none, transformed := none }

end SourceUnit

end UnitLoader
