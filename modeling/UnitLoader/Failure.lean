import UnitLoader.Diagnostic

/-! How fetching, loading and asking a loader can fail. -/

namespace UnitLoader

inductive FetchError
  | notFound (address : String)
  | unreadable (address message : String)
  | cancelled (address : String)
  | abandoned (address : String)
deriving DecidableEq, Repr

def FetchError.text : FetchError → String
  | .notFound address => String.join ["no source at '", address, "'"]
  | .unreadable address message => String.join ["cannot read '", address, "': ", message]
  | .cancelled address => String.join ["fetch of '", address, "' was cancelled"]
  | .abandoned address => String.join ["fetch of '", address, "' was dropped without a response"]

/-- Why a unit failed. A unit that was sound itself and stopped with its batch is
aborted, and its cause is the failure of another unit. -/
inductive LoadError
  | fetch (address reason : String)
  | parse (address message : String)
  | analysis (address message : String)
  | transform (address message : String)
  | execution (address message : String)
  | dependency (address dependency : String)
  | aborted (address : String) (cause : LoadError)
deriving DecidableEq, Repr

namespace LoadError

def ofPhase (phase : Phase) (address message : String) : LoadError :=
  match phase with
  | .fetch => fetch address message
  | .parse => parse address message
  | .analyze => analysis address message
  | .transform => transform address message
  | .evaluate => execution address message

def address : LoadError → String
  | fetch a _ => a
  | parse a _ => a
  | analysis a _ => a
  | transform a _ => a
  | execution a _ => a
  | dependency a _ => a
  | aborted a _ => a

/-- The error at the end of a chain of aborts. -/
def rootCause : LoadError → LoadError
  | aborted _ cause => cause.rootCause
  | e => e

def isAborted : LoadError → Bool
  | aborted _ _ => true
  | _ => false

def text : LoadError → String
  | fetch a reason => String.join ["failed to load '", a, "': ", reason]
  | parse a message => String.join ["parse error in '", a, "': ", message]
  | analysis a message => String.join ["analysis of '", a, "' failed: ", message]
  | transform a message => String.join ["transform of '", a, "' failed: ", message]
  | execution a message => String.join ["evaluation of '", a, "' threw: ", message]
  | dependency a d => String.join ["'", a, "' depends on failed unit '", d, "'"]
  | aborted a cause => String.join ["'", a, "' aborted: ", cause.text]

theorem isAborted_rootCause (e : LoadError) : e.rootCause.isAborted = false := by
  induction e with
  | aborted a cause ih => simpa [rootCause] using ih
  | _ => rfl

end LoadError

end UnitLoader
