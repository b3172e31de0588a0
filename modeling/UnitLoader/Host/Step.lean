import UnitLoader.Failure
import UnitLoader.Kind
import UnitLoader.SourceUnit

/-! What a host asks of its loaders. A host has several loaders, counted from zero.
A listener is known by a label, and it has steps of its own, which are carried out
whenever it is told how its unit ended; so a listener may use any loader again. -/

namespace UnitLoader

/-- Questions about a loader, which change nothing. -/
inductive Question
  | pending
  | lookup (address : String) (kind : Kind)
  | evaluationOrder
  | ids
  | unit (id : UnitId)
  | diagnostics
  | stats
  | bindings
  | exports (address : String)
  | resolve (address : String)
  | description
deriving DecidableEq, Repr

/-- Requests to a loader that no listener waits for. -/
inductive Request (Value : Type)
  | load (address : String) (kind : Kind)
  | loadSync (address : String) (kind : Kind)
  | eval (code : String)
  | define (name : String) (value : Value)
  | poll
  | runUntilIdle
  /-- Waits only when no fetch is under way or all are answered at once. -/
  | tryUntilIdle
  /-- Waits for answers only as long as they keep coming in. -/
  | runUntilQuiet
  /-- Waits as long as answers keep coming in, and counts the fetches left over. -/
  | countUntilQuiet
  | drain
  | ask (question : Question)
deriving DecidableEq, Repr

inductive Supply
  | release (address : String)
  | releaseAll
  | insert (address text : String)
  | respond (address : String) (result : Except FetchError String)
  /-- Drops the oldest parked request for an address, which abandons it. -/
  | forget (address : String)
  /-- What was fetched so far, and how often a certain address. -/
  | fetches (address : Option String)
  | requests

inductive Subject
  | load (address : String) (kind : Kind)
  /-- A module, of which the listener is also told the exports. -/
  | module (address : String)
  | eval (code : String)
  | unit (id : UnitId)
deriving DecidableEq, Repr

inductive Step (Value : Type)
  | request (loader : Nat) (request : Request Value)
  | supply (loader : Nat) (supply : Supply)
  | subscribe (loader : Nat) (subject : Subject) (label : String)
      (followUps : List (Step Value))
  /-- Carries out steps while somebody else reads the namespace of a loader. -/
  | hold (loader : Nat) (steps : List (Step Value))
  | drop (loader : Nat)
  | isAlive (loader : Nat)
  /-- A step that could not be made out, with the reason. -/
  | unclear (reason : String)

structure Listener (Value : Type) where
  label : String
  /-- The address of the module that it was asked for with, if it was. -/
  importedFrom : Option String
  followUps : List (Step Value)

end UnitLoader
