import UnitLoader.Host.Step
import UnitLoader.Session
import UnitLoader.Text.Shown

/-! What a loader answers to questions, and its fetcher to those about fetches. -/

namespace UnitLoader

structure UnitView (Value : Type) where
  state : State
  address : String
  kind : Kind
  dependencies : List UnitId
  result : Option Value
  error : Option LoadError
deriving DecidableEq, Repr

inductive Answer (Value : Type)
  | pending (count : Nat)
  | found (id : Option UnitId)
  | ids (ids : List UnitId)
  | unit (view : Option (UnitView Value))
  | diagnostics (diagnostics : List Diagnostic)
  | stats (cache : CacheStats) (calls : List (Phase × Nat)) (pending : Nat)
  | bindings (bindings : List (String × Value))
  | resolved (base address : String)
  | description (text : String)
  | fetches (log parked : List String) (count : Option Nat)
  | requests (parked : List Parked)
deriving DecidableEq, Repr

variable {Tree Value Listener : Type}

def SourceUnit.view (u : SourceUnit Tree Value Listener) : UnitView Value :=
  ⟨u.state, u.address, u.kind, u.dependencyIds, u.result, u.error⟩

namespace Session

def description (s : Session Tree Value Listener) : String :=
  String.join ["Loader \x7b base_address: ", Text.shown s.baseAddress,
    ", sync: ", if s.sync then "true" else "false",
    ", units: ", toString s.cache.size,
    ", pending: ", toString s.pending.length, " \x7d"]

def answer (s : Session Tree Value Listener) : Question → Answer Value
  | .pending => .pending s.pending.length
  | .lookup address kind => .found (s.lookup address kind)
  | .evaluationOrder => .ids s.cache.evaluationOrder
  | .ids => .ids s.cache.ids
  | .unit id => .unit ((s.cache.get? id).map SourceUnit.view)
  | .diagnostics => .diagnostics s.reporter.diagnostics
  | .stats =>
    .stats s.cache.stats (Phase.all.map fun p => (p, s.toBuild.calls p)) s.pending.length
  | .bindings => .bindings s.ns.bindings
  | .exports address => .bindings (s.exportsOf address)
  | .resolve address => .resolved s.baseAddress (s.resolveAddress address)
  | .description => .description s.description

end Session

/-- What a fetcher was asked for. The addresses of parked requests are in the order
in which they were parked. -/
def Fetcher.record (f : Fetcher) (address : Option String) : Answer Value :=
  .fetches f.log (f.parked.map (·.address)) (address.map f.fetchCount)

end UnitLoader
