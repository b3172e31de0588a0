import UnitLoader.SourceUnit

/-! Where source texts come from. A blocking request is answered by the call; any
other request is either answered at once, by a completion that waits in a channel,
or parked until somebody answers it. A request that was cancelled gives no
completion any more. -/

namespace UnitLoader

structure Completion where
  unit : UnitId
  address : String
  result : Except FetchError String

structure Parked where
  unit : UnitId
  address : String
  cancelled : Bool
deriving DecidableEq, Repr

structure Fetcher where
  answer : String → Except FetchError String
  /-- At most this many addresses are answered with a text. -/
  reach : Nat
  /-- Whether requests are answered at once. -/
  prompt : Bool
  log : List String
  parked : List Parked

namespace Fetcher

/-- The answers of a list of texts. Of two texts for an address the later counts. -/
def answerFrom (sources : List (String × Except FetchError String)) (address : String) :
    Except FetchError String :=
  match sources.reverse.lookup address with
  | some answer => answer
  | none => .error (.notFound address)

def ofList (sources : List (String × Except FetchError String)) (prompt : Bool) : Fetcher :=
  ⟨answerFrom sources, sources.length, prompt, [], []⟩

/-- A fetcher that drops every request. -/
def forgetful : Fetcher :=
  ⟨fun address => .error (.abandoned address), 0, true, [], []⟩

def insert (f : Fetcher) (address text : String) : Fetcher :=
  { f with
    answer := fun a => if a = address then .ok text else f.answer a
    reach := f.reach + 1 }

def fetchCount (f : Fetcher) (address : String) : Nat :=
  f.log.count address

def note (f : Fetcher) (address : String) : Fetcher :=
  { f with log := f.log ++ [address] }

def park (f : Fetcher) (unit : UnitId) (address : String) : Fetcher :=
  { f with parked := f.parked ++ [⟨unit, address, false⟩] }

def cancel (f : Fetcher) (unit : UnitId) : Fetcher :=
  { f with
    parked := f.parked.map fun p => if p.unit = unit then { p with cancelled := true } else p }

/-- What an answer to a parked request adds to the channel. -/
def completionOf (result : Except FetchError String) (p : Parked) : Option Completion :=
  if p.cancelled then none else some ⟨p.unit, p.address, result⟩

end Fetcher

end UnitLoader
