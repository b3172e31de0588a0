/-! Diagnostics and the record that a loader keeps of them. The record only grows;
a mark taken at some moment tells later entries from earlier ones. -/

namespace UnitLoader

inductive Severity
  | error
  | warning
deriving DecidableEq, Repr

def Severity.text : Severity → String
  | .error => "error"
  | .warning => "warning"

inductive Phase
  | fetch
  | parse
  | analyze
  | transform
  | evaluate
deriving DecidableEq, Repr

namespace Phase

def all : List Phase := [fetch, parse, analyze, transform, evaluate]

def text : Phase → String
  | fetch => "fetch"
  | parse => "parse"
  | analyze => "analyze"
  | transform => "transform"
  | evaluate => "evaluate"

def code : Phase → String
  | fetch => "E0100"
  | parse => "E0200"
  | analyze => "E0300"
  | transform => "E0400"
  | evaluate => "E0500"

end Phase

structure Diagnostic where
  severity : Severity
  phase : Phase
  address : Option String
  line : Option Nat
  message : String
deriving DecidableEq, Repr

namespace Diagnostic

def isError (d : Diagnostic) : Bool :=
  d.severity = .error

def ofUnit (phase : Phase) (address message : String) : Diagnostic :=
  ⟨.error, phase, some address, none, message⟩

def ofLine (phase : Phase) (address : String) (line : Nat) (message : String) : Diagnostic :=
  ⟨.error, phase, some address, some line, message⟩

/-- A line number is shown only together with an address. -/
def place (d : Diagnostic) : String :=
  match d.address, d.line with
  | some address, some line => String.join [address, ":", toString line, ": "]
  | some address, none => String.join [address, ": "]
  | none, _ => ""

def shown (d : Diagnostic) : String :=
  String.join [d.severity.text, "[", d.phase.code, "]: ", d.place, d.message]

end Diagnostic

structure Reported (α : Type) where
  value : α
  diagnostics : List Diagnostic

/-- A moment in the life of a reporter: how many diagnostics it held. -/
structure Mark where
  seen : Nat
deriving DecidableEq, Repr

structure Reporter where
  diagnostics : List Diagnostic
deriving DecidableEq, Repr

namespace Reporter

def empty : Reporter := ⟨[]⟩

def report (r : Reporter) (d : Diagnostic) : Reporter :=
  ⟨r.diagnostics ++ [d]⟩

def reportAll (r : Reporter) (ds : List Diagnostic) : Reporter :=
  ⟨r.diagnostics ++ ds⟩

def mark (r : Reporter) : Mark := ⟨r.diagnostics.length⟩

def errors (r : Reporter) : List Diagnostic :=
  r.diagnostics.filter Diagnostic.isError

def errorsSince (r : Reporter) (m : Mark) : List Diagnostic :=
  (r.diagnostics.drop m.seen).filter Diagnostic.isError

def hadError (r : Reporter) : Bool :=
  !r.errors.isEmpty

def hadErrorSince (r : Reporter) (m : Mark) : Bool :=
  !(r.errorsSince m).isEmpty

/-- The message of the first error after a mark. -/
def messageSince (r : Reporter) (m : Mark) : String :=
  match r.errorsSince m with
  | d :: _ => d.message
  | [] => "unknown error"

theorem errorsSince_reportAll (r : Reporter) (ds : List Diagnostic) :
    (r.reportAll ds).errorsSince r.mark = ds.filter Diagnostic.isError := by
  simp [errorsSince, reportAll, mark]

end Reporter

end UnitLoader
