import UnitLoader.Lang.Source
import UnitLoader.Lang.Value

/-! Execution of linked code. Statements run in order against one namespace; the
first error stops them and keeps the bindings made so far. -/

namespace UnitLoader

def Expr.eval (ns : Namespace Value) : Expr → Except ExecError Value
  | .int value => .ok (.int value)
  | .str text => .ok (.str text)
  | .name word =>
    match ns.get? word with
    | some value => .ok value
    | none => .error (.undefined word)
  | .published address word =>
    match ns.get? (publishedKey address word) with
    | some value => .ok value
    | none => .error (.unpublished address word)
  | .add left right => do
    let a ← left.eval ns
    let b ← right.eval ns
    a.add b

namespace Execution

inductive Failure
  | malformed (error : SyntaxError)
  | moduleSyntax (line : Nat)
  | stopped (error : ExecError)
deriving DecidableEq, Repr

def Failure.message : Failure → String
  | malformed e => String.join ["malformed executable code: ", e.shown]
  | moduleSyntax line => String.join ["line ", toString line, ": module syntax in executable code"]
  | stopped e => e.message

structure Outcome where
  result : Except Failure Value
  ns : Namespace Value

/-- Runs lines; `completion` is the value of the last expression so far. -/
def run (completion : Value) (ns : Namespace Value) : List Line → Outcome
  | [] => ⟨.ok completion, ns⟩
  | line :: rest =>
    match line.stmt with
    | .binds name e =>
      match e.eval ns with
      | .ok value => run completion (ns.define name value) rest
      | .error err => ⟨.error (.stopped err), ns⟩
    | .publishes address name =>
      match ns.get? name with
      | some value => run completion (ns.define (publishedKey address name) value) rest
      | none => ⟨.error (.stopped (.undefined name)), ns⟩
    | .throws e =>
      match e.eval ns with
      | .ok value => ⟨.error (.stopped (.uncaught value)), ns⟩
      | .error err => ⟨.error (.stopped err), ns⟩
    | .eval e =>
      match e.eval ns with
      | .ok value => run value ns rest
      | .error err => ⟨.error (.stopped err), ns⟩
    | .imports _ _ => ⟨.error (.moduleSyntax line.number), ns⟩
    | .exports _ _ => ⟨.error (.moduleSyntax line.number), ns⟩

def runText [Text.Xid] (code : String) (ns : Namespace Value) : Outcome :=
  let reading := Source.read .linked code
  match reading.errors with
  | e :: _ => ⟨.error (.malformed e), ns⟩
  | [] => run .unit ns reading.lines

end Execution

end UnitLoader
